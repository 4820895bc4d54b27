import PveMaster.Operations.Assignments
import PveMaster.Platform.System
import PveMaster.Requests.Keys

/-! A request that is sent again.

Each function that accepts a job checks the workload, or what else the job needs, before it
looks for a job under the same key, and the job itself changes what is checked. So a request
that is sent again is answered with its job if it looks after the job has been stored and
what it has read before still passes; it changes nothing then. -/
namespace PveMaster.Replay
open Prog ServiceProg Keys

/-! ### What stays of a job -/

/-- What a request accepts: an operation, or a provisioning request. -/
inductive Job where
  | operation (o : Operation)
  | request (q : ProvisioningRequest)

def Job.id : Job → Uuid
  | .operation o => o.id
  | .request q => q.id

abbrev operationKey (o : Operation) : Uuid × Digest := (o.requestedById, o.idempotencyKeyHash)
abbrev requestKey (q : ProvisioningRequest) : Uuid × Digest := (q.requestedById, q.idempotencyKeyHash)

/-- The columns of a job that a replay reads. -/
abbrev operationColumns (o : Operation) : (Uuid × Digest) × Digest × Option Uuid × Uuid :=
  (operationKey o, o.requestFingerprint, o.organizationId, o.workloadId)
abbrev requestColumns (q : ProvisioningRequest) : (Uuid × Digest) × Digest :=
  (requestKey q, q.requestFingerprint)

/-- Jobs and runs stay, with the columns a replay reads. -/
structure Stays (db db' : Db) : Prop where
  operations : Table.Keeps operationColumns db.operations db'.operations
  requests : Table.Keeps requestColumns db.requests db'.requests
  backupRuns : Table.Keeps BackupRun.operationId db.backupRuns db'.backupRuns
  restoreRuns : Table.Keeps RestoreRun.operationId db.restoreRuns db'.restoreRuns

theorem Stays.refl (db : Db) : Stays db db := ⟨.refl _ _, .refl _ _, .refl _ _, .refl _ _⟩

theorem Stays.trans {db db' db'' : Db} (h : Stays db db') (h' : Stays db' db'') : Stays db db'' :=
  ⟨h.operations.trans h'.operations, h.requests.trans h'.requests, h.backupRuns.trans h'.backupRuns,
    h.restoreRuns.trans h'.restoreRuns⟩

theorem Stays.kept {db db' : Db} (h : Stays db db') : Kept db db' := by
  intro k o ho
  obtain ⟨o', ho', hcolumns⟩ := h.operations k o ho
  exact ⟨o', ho', congrArg (·.1.1) hcolumns, congrArg (·.1.2) hcolumns, congrArg (·.2.1) hcolumns⟩

/-- A key is used once, for operations and for provisioning requests. The unique constraints of
the two tables see to it. -/
structure Unique (db : Db) : Prop where
  operations : Table.Once operationKey db.operations
  requests : Table.Once requestKey db.requests

/-- The same jobs and runs, as far as their columns go. -/
structure SameJobs (db db' : Db) : Prop where
  operations : Table.Alike operationColumns db.operations db'.operations
  requests : Table.Alike requestColumns db.requests db'.requests
  backupRuns : Table.Alike BackupRun.operationId db.backupRuns db'.backupRuns
  restoreRuns : Table.Alike RestoreRun.operationId db.restoreRuns db'.restoreRuns

theorem SameJobs.stays {db db' : Db} (h : SameJobs db db') : Stays db db' :=
  ⟨h.operations.keeps, h.requests.keeps, h.backupRuns.keeps, h.restoreRuns.keeps⟩

theorem SameJobs.unique {db db' : Db} (h : SameJobs db db') (hI : Unique db) : Unique db' :=
  ⟨(h.operations.comp Prod.fst).once hI.operations, (h.requests.comp Prod.fst).once hI.requests⟩

theorem sameJobs_of {db db' : Db} (hops : db'.operations = db.operations)
    (hrequests : db'.requests = db.requests) (hbackup : db'.backupRuns = db.backupRuns)
    (hrestore : db'.restoreRuns = db.restoreRuns) : SameJobs db db' := by
  refine ⟨?_, ?_, ?_, ?_⟩
  · rw [hops]; exact .refl _ _
  · rw [hrequests]; exact .refl _ _
  · rw [hbackup]; exact .refl _ _
  · rw [hrestore]; exact .refl _ _

/-! ### What the runners do to jobs -/

section Effects

theorem alike_flush {α γ : Type} [Keyed α Uuid] {f : α → γ} {merge : α → α → α → α}
    (hf : ∀ l c r, f (merge l c r) = f r) (l c : Option α) (t : Table α) :
    Table.Alike f t (flushRow merge l c t) := by
  unfold flushRow
  split
  · exact Table.alike_update _ fun r => hf _ _ r
  · exact .refl f t

theorem effect_sameJobs {now : Instant} {ρ : Type} {op : RunnerOp ρ} {θ θ' : OpState} {db db' : Db}
    (he : OpEffect now op θ db θ' db') : SameJobs db db' := by
  have hop (l c r : Operation) : operationColumns (Operation.merge l c r) = operationColumns r := rfl
  have hbackup (l c r : BackupRun) : (BackupRun.merge l c r).operationId = r.operationId := rfl
  have hrestore (l c r : RestoreRun) : (RestoreRun.merge l c r).operationId = r.operationId := rfl
  have flush (θ₁ : OpState) : SameJobs db (θ₁.flush db) :=
    ⟨alike_flush hop _ _ _, .refl _ _, alike_flush hbackup _ _ _, alike_flush hrestore _ _ _⟩
  have copy {db₁ db₂ : Db} (h : SameJobs db db₁) (hops : db₂.operations = db₁.operations)
      (hrequests : db₂.requests = db₁.requests) (hbackup : db₂.backupRuns = db₁.backupRuns)
      (hrestore : db₂.restoreRuns = db₁.restoreRuns) : SameJobs db db₂ :=
    ⟨by rw [hops]; exact h.operations, by rw [hrequests]; exact h.requests,
      by rw [hbackup]; exact h.backupRuns, by rw [hrestore]; exact h.restoreRuns⟩
  cases he with
  | assigned | rolledBack | loaded => exact sameJobs_of rfl rfl rfl rfl
  | saved => exact flush θ
  | submitted => exact copy (flush θ) rfl rfl rfl rfl
  | @finished f => exact copy (flush (θ.finished f)) rfl rfl rfl rfl
  | @started _ s => exact flush _
  | @refused _ s o loads f => exact copy (flush ((θ.load s).finished f)) rfl rfl rfl rfl

theorem prov_sameJobs {settings : Settings} {ρ : Type} {o : ProvOp ρ} {θ θ' : ProvState} {db db' : Db}
    (he : ProvEffect settings θ db o θ' db') : SameJobs db db' := by
  cases he with
  | assigned | failed | loaded | stepsLoaded => exact sameJobs_of rfl rfl rfl rfl
  | claimed =>
    exact ⟨.refl _ _, Table.alike_update _ fun _ => rfl, .refl _ _, .refl _ _⟩
  | released =>
    refine ⟨.refl _ _, Table.alike_update _ fun r => ?_, .refl _ _, .refl _ _⟩
    unfold released
    split <;> rfl
  | @committed e db₁ edits commits live writes =>
    have hrest := writes.rest
    have hrequests : Table.Alike requestColumns db.requests
        ((θ.assign settings e).flushRequests db₁.requests) := by
      rw [writes.requests]
      unfold ProvState.flushRequests
      split
      · exact Table.alike_update _ fun _ => rfl
      · exact .refl _ _
    refine ⟨?_, hrequests, ?_, ?_⟩
    · show Table.Alike _ db.operations db₁.operations
      rw [hrest]; exact .refl _ _
    · show Table.Alike _ db.backupRuns db₁.backupRuns
      rw [hrest]; exact .refl _ _
    · show Table.Alike _ db.restoreRuns db₁.restoreRuns
      rw [hrest]; exact .refl _ _

theorem keeps_insertRun {α : Type} {γ : Type} [Keyed α Uuid] {f : α → γ} {clashes : α → α → Bool}
    {t t' : Table α} {run : Option α} (h : insertRun clashes t run = some t') : Table.Keeps f t t' := by
  cases run with
  | none =>
    cases h
    exact .refl f t
  | some r => exact Table.keeps_insert (insertUnless_some h).2

/-- **What an operation of a request does to jobs**: it adds one under a key that is new. -/
theorem service_stays {i : Input} {now : Instant} {ρ : Type} {o : ServiceOp ρ} {db db' : Db}
    {m : ServiceMessage} (he : ServiceEffect i now o db db') (ho : Acceptances.Orderly m o)
    (hI : Unique db) : Unique db' ∧ Stays db db' := by
  have same (h : SameJobs db db') : Unique db' ∧ Stays db db' := ⟨h.unique hI, h.stays⟩
  cases he with
  | nothing => exact same (sameJobs_of rfl rfl rfl rfl)
  | @accepted a _ _ stored =>
    have h := accept_ok stored
    obtain ⟨hclash, hinsert⟩ := insertUnless_some h.operations
    have hnew : ∀ q ∈ db.operations, operationKey q ≠ operationKey a.operation := by
      intro q hq heq
      have huser : q.requestedById = a.operation.requestedById := congrArg Prod.fst heq
      have hkey : q.idempotencyKeyHash = a.operation.idempotencyKeyHash := congrArg Prod.snd heq
      have := hclash q hq
      simp [Operation.clashes, huser, hkey] at this
    have hrequests : db'.requests = db.requests := by rw [h.rest]
    refine ⟨⟨Table.once_insert hinsert hnew hI.operations, ?_⟩, Table.keeps_insert hinsert, ?_,
      keeps_insertRun h.backupRuns, keeps_insertRun h.restoreRuns⟩
    · rw [hrequests]; exact hI.requests
    · rw [hrequests]; exact .refl _ _
  | @created r _ _ _ _ stored =>
    obtain ⟨hrequest, -, hrest⟩ := Acceptances.createRequest_ok stored
    obtain ⟨hclash, hinsert⟩ := insertUnless_some hrequest
    have hnew : ∀ q ∈ db.requests, requestKey q ≠ requestKey r := by
      intro q hq heq
      have huser : q.requestedById = r.requestedById := congrArg Prod.fst heq
      have hkey : q.idempotencyKeyHash = r.idempotencyKeyHash := congrArg Prod.snd heq
      have := hclash q hq
      simp [ProvisioningRequest.clashes, huser, hkey] at this
    refine ⟨⟨?_, Table.once_insert hinsert hnew hI.requests⟩, ?_, Table.keeps_insert hinsert, ?_, ?_⟩
    · rw [hrest]; exact hI.operations
    · rw [hrest]; exact .refl _ _
    · rw [hrest]; exact .refl _ _
    · rw [hrest]; exact .refl _ _
  | transacted ht stored =>
    refine same ?_
    rw [Acceptances.ownership_rest (ho.transacted _ ht) stored]
    exact sameJobs_of rfl rfl rfl rfl

end Effects

/-! ### A job that is stored -/

/-- The run an operation is answered with, where its kind has one. -/
structure HasRun (e : Effect) (operationId : Uuid) (db : Db) : Prop where
  backup : ∀ workloadId payload, e = .backup workloadId payload →
    ∃ run ∈ db.backupRuns, run.operationId = operationId
  restore : ∀ backupRunId payload, e = .restore backupRunId payload →
    ∃ run ∈ db.restoreRuns, run.operationId = operationId

/-- The job of a call is stored under its key, with the fingerprint of the call and the run that
belongs to it. -/
def Recorded (api : Api) (r : JobRequest) (db : Db) : Job → Prop
  | .operation o => ∃ e o', r.call.effect = some e ∧ db.operations.get? o.id = some o' ∧
      Under api r e o' ∧ o'.organizationId = o.organizationId ∧ HasRun e o.id db ∧
      ∀ vmId action, e = .customerPower vmId action → o'.workloadId = vmId
  | .request q => ∃ payload q', r.call = .provision payload ∧ db.requests.get? q.id = some q' ∧
      requestColumns q' = ((r.principal.userId, api.keyHash r.idempotencyKey),
        api.sha256 (ProvisioningService.payloadText payload))

section Recorded
variable {api : Api} {r : JobRequest} {db db' : Db} {j : Job}

theorem HasRun.mono {e : Effect} {id : Uuid} (h : HasRun e id db) (hs : Stays db db') : HasRun e id db' where
  backup workloadId payload he := by
    obtain ⟨run, hrun, hid⟩ := h.backup workloadId payload he
    obtain ⟨run', hrun', hsame⟩ := hs.backupRuns run.id run (Table.get?_of_mem hrun)
    exact ⟨run', Table.get?_mem hrun', hsame.trans hid⟩
  restore backupRunId payload he := by
    obtain ⟨run, hrun, hid⟩ := h.restore backupRunId payload he
    obtain ⟨run', hrun', hsame⟩ := hs.restoreRuns run.id run (Table.get?_of_mem hrun)
    exact ⟨run', Table.get?_mem hrun', hsame.trans hid⟩

theorem Recorded.mono (h : Recorded api r db j) (hs : Stays db db') : Recorded api r db' j := by
  cases j with
  | operation o =>
    obtain ⟨e, o', heffect, ho', hunder, horganization, hrun, hworkload⟩ := h
    obtain ⟨o'', ho'', hcolumns⟩ := hs.operations _ o' ho'
    refine ⟨e, o'', heffect, ho'', ?_, ?_, hrun.mono hs, fun vmId action he => ?_⟩
    · exact hunder.mono ⟨congrArg (·.1.1) hcolumns, congrArg (·.1.2) hcolumns, congrArg (·.2.1) hcolumns⟩
    · exact (congrArg (·.2.2.1) hcolumns).trans horganization
    · exact (congrArg (·.2.2.2) hcolumns).trans (hworkload vmId action he)
  | request q =>
    obtain ⟨payload, q', hcall, hq', hcolumns⟩ := h
    obtain ⟨q'', hq'', hsame⟩ := hs.requests _ q' hq'
    exact ⟨payload, q'', hcall, hq'', hsame.trans hcolumns⟩

/-- The same call of the same user under the same key. The address it comes from may be another
one. -/
structure Same (r r' : JobRequest) : Prop where
  user : r'.principal.userId = r.principal.userId
  key : r'.idempotencyKey = r.idempotencyKey
  call : r'.call = r.call

theorem Recorded.same {r' : JobRequest} (h : Recorded api r db j) (hs : Same r r') :
    Recorded api r' db j := by
  cases j with
  | operation o =>
    obtain ⟨e, o', heffect, ho', hunder, hrest⟩ := h
    exact ⟨e, o', by rw [hs.call]; exact heffect, ho',
      ⟨hunder.user.trans hs.user.symm, by rw [hs.key]; exact hunder.key, hunder.fingerprint⟩, hrest⟩
  | request q =>
    obtain ⟨payload, q', hcall, hq', hcolumns⟩ := h
    refine ⟨payload, q', by rw [hs.call]; exact hcall, hq', ?_⟩
    rw [hs.user, hs.key]
    exact hcolumns

/-- What the lookup of an operation finds. -/
theorem lookup_found {o : Operation} (h : Recorded api r db (.operation o)) (hI : Unique db) :
    ∃ e o', r.call.effect = some e ∧
      operationOf r.principal.userId (api.keyHash r.idempotencyKey) db = some o' ∧ o'.id = o.id ∧
      o'.requestFingerprint = api.sha256 e.text ∧ o'.organizationId = o.organizationId ∧
      HasRun e o'.id db ∧ ∀ vmId action, e = .customerPower vmId action → o'.workloadId = vmId := by
  obtain ⟨e, o', heffect, ho', hunder, horganization, hrun, hworkload⟩ := h
  have hid : o'.id = o.id := Table.get?_key ho'
  refine ⟨e, o', heffect, ?_, hid, hunder.fingerprint, horganization, by rw [hid]; exact hrun, hworkload⟩
  cases hfound : operationOf r.principal.userId (api.keyHash r.idempotencyKey) db with
  | none =>
    have := Table.first_none hfound (Table.get?_mem ho')
    simp [hunder.user, hunder.key] at this
  | some q =>
    obtain ⟨hmem, hq⟩ := Table.first_some hfound
    have hq : q.requestedById = r.principal.userId ∧
      q.idempotencyKeyHash = api.keyHash r.idempotencyKey := by simpa using hq
    rw [hI.operations q hmem o' (Table.get?_mem ho') (Prod.ext (hq.1.trans hunder.user.symm)
      (hq.2.trans hunder.key.symm))]

theorem lookup_request {q : ProvisioningRequest} (h : Recorded api r db (.request q)) (hI : Unique db) :
    ∃ payload q', r.call = .provision payload ∧
      requestOf r.principal.userId (api.keyHash r.idempotencyKey) db = some q' ∧ q'.id = q.id ∧
      q'.requestFingerprint = api.sha256 (ProvisioningService.payloadText payload) := by
  obtain ⟨payload, q', hcall, hq', hcolumns⟩ := h
  have huser : q'.requestedById = r.principal.userId := congrArg (·.1.1) hcolumns
  have hkey : q'.idempotencyKeyHash = api.keyHash r.idempotencyKey := congrArg (·.1.2) hcolumns
  refine ⟨payload, q', hcall, ?_, Table.get?_key hq', congrArg Prod.snd hcolumns⟩
  cases hfound : requestOf r.principal.userId (api.keyHash r.idempotencyKey) db with
  | none =>
    have := Table.first_none hfound (Table.get?_mem hq')
    simp [huser, hkey] at this
  | some p =>
    obtain ⟨hmem, hp⟩ := Table.first_some hfound
    have hp : p.requestedById = r.principal.userId ∧
      p.idempotencyKeyHash = api.keyHash r.idempotencyKey := by simpa using hp
    rw [hI.requests p hmem q' (Table.get?_mem hq') (Prod.ext (hp.1.trans huser.symm) (hp.2.trans hkey.symm))]

end Recorded

/-! ### What a replay reads before its lookup -/

/-- The roles a call is open to. -/
def roles : JobCall → List UserRole
  | .power .. | .backup .. => [.superAdmin, .operator]
  | .admin .. | .restore .. | .provision _ => [.superAdmin]
  | .customerPower .. => [.customer]

/-- What a customer may ask for at all. It is checked before the key is looked up. -/
def Lawful : JobCall → Prop
  | .customerPower _ action _ confirmForced =>
    action ∈ CustomerPortalService.customerActions ∧ ¬ (action = .stop ∧ confirmForced = false)
  | _ => True

/-- What a call checks before it looks for a job under its key passes. -/
def Passes (rt : Runtime) (r : JobRequest) (db : Db) : Job → Prop
  | .request _ => True
  | .operation o =>
    match r.call with
    | .power workloadId action _ =>
      ∃ wl, liveWorkload workloadId db = some wl ∧ ¬ (wl.kind = .lxc ∧ action = .reset)
    | .admin vmId payload =>
      ∃ wl, liveWorkload vmId db = some wl ∧ OperationService.checkPayload rt wl payload = .ok ()
    | .backup workloadId payload =>
      (∃ wl, liveWorkload workloadId db = some wl ∧ wl.clusterId = o.clusterId) ∧
        ∃ target, (db.backupTargets.get? payload.backupTargetId).filter (·.isEnabled) = some target ∧
          target.clusterId = o.clusterId
    | .restore backupRunId _ =>
      ∃ source, BackupService.restoreSource backupRunId db = some source ∧
        source.operation.status = .succeeded ∧ source.backup.snapshotVolumeId.getD "" ≠ "" ∧
          source.target.isEnabled = true
    | .customerPower vmId .. =>
      ∃ wl, CustomerPortalService.ownedVm r.principal vmId db = some wl ∧
        wl.organizationId = o.organizationId
    | .provision _ => True

/-- A replay reads what passes, and looks for a job that is stored. -/
def replaying (rt : Runtime) (api : Api) (r : JobRequest) (j : Job) :
    Contract ServiceOp ServiceProcess World Input where
  may o _ _ w :=
    match o with
    | .query _ => Passes rt r w.db j
    | .lookup .. | .lookupRequest .. => Recorded api r w.db j ∧ Unique w.db
    | _ => True
  rely w w' := Stays w.db w'.db
  guar w w' := w' = w

theorem replaying_closed (rt : Runtime) (api : Api) (r : JobRequest) (j : Job) :
    (replaying rt api r j).Closed where
  refl w := .refl w.db
  trans _ _ _ := Stays.trans

section Walks
variable {rt : Runtime} {api : Api} {r : JobRequest} {j : Job} {α β : Type} {w : World}

/-- From a state on, the program changes nothing and returns the job. -/
abbrev Replays (rt : Runtime) (api : Api) (r : JobRequest) (j : Job) (p : ServiceProg JobAnswer) (w : World) :
    Prop :=
  ∀ θ, wp (serviceMachine rt api) (replaying rt api r j) p (fun x _ _ => x = .ok ⟨j.id, false⟩) θ w

theorem replays_found {id : Uuid} (h : id = j.id) : Replays rt api r j (pure ⟨id, false⟩) w :=
  fun _ => by rw [wp_pure, h]

theorem replays_role {roles : List UserRole} {f : Unit → ServiceProg JobAnswer}
    (hrole : requireServiceRole r.principal roles = .ok ()) (h : Replays rt api r j (f ()) w) :
    Replays rt api r j (ofExcept (requireServiceRole r.principal roles) >>= f) w := by
  intro θ
  rw [hrole]
  exact h θ

theorem replays_query {q : Db → α} {f : α → ServiceProg JobAnswer}
    (h : ∀ w', Passes rt r w'.db j → Replays rt api r j (f (q w'.db)) w') :
    Replays rt api r j (query q >>= f) w := by
  intro θ w' _ i θ' w'' x hmay hexec
  cases hexec
  exact ⟨rfl, h w' hmay _⟩

theorem replays_queryRun {q : Db → α} {f : α → ServiceProg JobAnswer}
    (h : ∀ w', Stays w.db w'.db → Replays rt api r j (f (q w'.db)) w') :
    Replays rt api r j (queryRun q >>= f) w := by
  intro θ w' hr i θ' w'' x _ hexec
  cases hexec
  exact ⟨rfl, h w' hr _⟩

theorem replays_lookup {userId : Uuid} {keyHash : Digest} {f : Option Operation → ServiceProg JobAnswer}
    (h : ∀ w', Recorded api r w'.db j → Unique w'.db →
      Replays rt api r j (f (operationOf userId keyHash w'.db)) w') :
    Replays rt api r j (lookup userId keyHash >>= f) w := by
  intro θ w' _ i θ' w'' x hmay hexec
  cases hexec
  exact ⟨rfl, h w' hmay.1 hmay.2 _⟩

theorem replays_lookupRequest {userId : Uuid} {keyHash : Digest}
    {f : Option ProvisioningRequest → ServiceProg JobAnswer}
    (h : ∀ w', Recorded api r w'.db j → Unique w'.db →
      Replays rt api r j (f (requestOf userId keyHash w'.db)) w') :
    Replays rt api r j (op (.lookupRequest userId keyHash id) >>= f) w := by
  intro θ w' _ i θ' w'' x hmay hexec
  cases hexec
  exact ⟨rfl, h w' hmay.1 hmay.2 _⟩

theorem replays_power {workloadId : Uuid} {action : PowerAction} {reason : Option String} {o : Operation}
    (hcall : r.call = .power workloadId action reason)
    (hrole : requireServiceRole r.principal [.superAdmin, .operator] = .ok ()) :
    Replays rt api r (.operation o) (OperationService.requestPowerAction rt api r.principal r.sourceIp
      workloadId action r.idempotencyKey reason) w := by
  refine replays_role hrole (replays_query fun w₁ hpasses => ?_)
  simp only [Passes, hcall] at hpasses
  obtain ⟨wl, hworkload, hkind⟩ := hpasses
  simp only [hworkload, if_neg hkind]
  refine replays_lookup fun w₂ hrecorded hunique => ?_
  obtain ⟨e, o', heffect, hfound, hid, hfingerprint, -⟩ := lookup_found hrecorded hunique
  rw [hcall] at heffect
  cases heffect
  have hfingerprint : o'.requestFingerprint = api.sha256 (OperationService.powerText workloadId action) :=
    hfingerprint
  simp only [hfound]
  rw [if_neg (not_not.mpr hfingerprint)]
  exact replays_found hid

theorem replays_admin {vmId : Uuid} {payload : OperationService.AdminPayload} {o : Operation}
    (hcall : r.call = .admin vmId payload)
    (hrole : requireServiceRole r.principal [.superAdmin] = .ok ()) :
    Replays rt api r (.operation o) (OperationService.requestAdminAction rt api r.principal r.sourceIp
      vmId payload r.idempotencyKey) w := by
  refine replays_role hrole (replays_query fun w₁ hpasses => ?_)
  simp only [Passes, hcall] at hpasses
  obtain ⟨wl, hworkload, hcheck⟩ := hpasses
  simp only [hworkload, hcheck]
  refine replays_lookup fun w₂ hrecorded hunique => ?_
  obtain ⟨e, o', heffect, hfound, hid, hfingerprint, -⟩ := lookup_found hrecorded hunique
  have htext : e.text = JsonText.dumps (OperationService.adminDict vmId payload) := by
    rw [hcall] at heffect
    cases payload <;> cases heffect <;> rfl
  rw [htext] at hfingerprint
  simp only [hfound]
  rw [if_neg (not_not.mpr hfingerprint)]
  exact replays_found hid

theorem replays_backup {workloadId : Uuid} {payload : BackupService.BackupRequest} {o : Operation}
    (hcall : r.call = .backup workloadId payload)
    (hrole : requireServiceRole r.principal [.superAdmin, .operator] = .ok ()) :
    Replays rt api r (.operation o) (BackupService.requestBackup api r.principal r.sourceIp workloadId
      payload r.idempotencyKey) w := by
  refine replays_role hrole (replays_query fun w₁ hpasses => ?_)
  simp only [Passes, hcall] at hpasses
  obtain ⟨⟨wl, hworkload, hcluster⟩, -⟩ := hpasses
  have hlive : wl.id = workloadId := live_id hworkload
  simp only [hworkload]
  refine replays_query fun w₂ hpasses => ?_
  simp only [Passes, hcall] at hpasses
  obtain ⟨-, target, htarget, htargetCluster⟩ := hpasses
  simp only [htarget]
  rw [if_neg (not_not.mpr (htargetCluster.trans hcluster.symm))]
  refine replays_lookup fun w₃ hrecorded hunique => ?_
  obtain ⟨e, o', heffect, hfound, hid, hfingerprint, -, hrun, -⟩ := lookup_found hrecorded hunique
  rw [hcall] at heffect
  cases heffect
  have hfingerprint : o'.requestFingerprint =
      api.sha256 (JsonText.dumps (BackupService.backupDict wl.id payload)) := by
    rw [hlive]
    exact hfingerprint
  simp only [hfound]
  rw [if_neg (not_not.mpr hfingerprint)]
  refine replays_queryRun fun w₄ hstays => ?_
  obtain ⟨run, hmem, hrunid⟩ := (hrun.mono hstays).backup _ _ rfl
  split
  · next hnone =>
    have := Table.first_none hnone hmem
    simp [hrunid] at this
  · exact replays_found hid

theorem replays_restore {backupRunId : Uuid} {payload : BackupService.RestoreRequest} {o : Operation}
    (hcall : r.call = .restore backupRunId payload)
    (hrole : requireServiceRole r.principal [.superAdmin] = .ok ()) :
    Replays rt api r (.operation o) (BackupService.requestRestore rt api r.principal r.sourceIp
      backupRunId payload r.idempotencyKey) w := by
  refine replays_role hrole (replays_query fun w₁ hpasses => ?_)
  simp only [Passes, hcall] at hpasses
  obtain ⟨source, hsource, hstatus, hsnapshot, henabled⟩ := hpasses
  have hbackup : source.backup.id = backupRunId := restoreSource_id hsource
  simp only [hsource]
  rw [if_neg (by rintro (h | h); exacts [h hstatus, hsnapshot h]),
    if_neg (by rw [henabled]; exact Bool.noConfusion)]
  refine replays_lookup fun w₂ hrecorded hunique => ?_
  obtain ⟨e, o', heffect, hfound, hid, hfingerprint, -, hrun, -⟩ := lookup_found hrecorded hunique
  rw [hcall] at heffect
  cases heffect
  have hfingerprint : o'.requestFingerprint =
      api.sha256 (JsonText.dumps (BackupService.restoreDict source.backup.id payload)) := by
    rw [hbackup]
    exact hfingerprint
  simp only [hfound]
  rw [if_neg (not_not.mpr hfingerprint)]
  refine replays_queryRun fun w₃ hstays => ?_
  obtain ⟨run, hmem, hrunid⟩ := (hrun.mono hstays).restore _ _ rfl
  split
  · next hnone =>
    have := Table.first_none hnone hmem
    simp [hrunid] at this
  · exact replays_found hid

theorem replays_customerPower {vmId : Uuid} {action : PowerAction} {reason : Option String}
    {confirmForced : Bool} {o : Operation} (hcall : r.call = .customerPower vmId action reason confirmForced)
    (hrole : requireServiceRole r.principal [.customer] = .ok ()) (hlawful : Lawful r.call) :
    Replays rt api r (.operation o) (CustomerPortalService.requestPowerAction api r.principal r.sourceIp
      vmId action r.idempotencyKey reason confirmForced) w := by
  rw [hcall] at hlawful
  refine replays_role hrole ?_
  rw [if_neg (not_not.mpr hlawful.1)]
  refine replays_query fun w₁ hpasses => ?_
  simp only [Passes, hcall] at hpasses
  obtain ⟨wl, hworkload, horganization⟩ := hpasses
  have hwl : wl.id = vmId := Table.get?_key (Option.filter_eq_some_iff.mp hworkload).1
  simp only [hworkload]
  rw [if_neg hlawful.2]
  refine replays_lookup fun w₂ hrecorded hunique => ?_
  obtain ⟨e, o', heffect, hfound, hid, hfingerprint, hsame, -, hvm⟩ := lookup_found hrecorded hunique
  rw [hcall] at heffect
  cases heffect
  have hfingerprint : o'.requestFingerprint = api.sha256 (CustomerPortalService.powerText vmId action) :=
    hfingerprint
  simp only [hfound]
  rw [if_neg (not_not.mpr hfingerprint), if_neg]
  · exact replays_found hid
  · rintro (h | h)
    · exact h ((hvm vmId action rfl).trans hwl.symm)
    · exact h (hsame.trans horganization.symm)

theorem replays_provision {payload : ProvisioningService.RequestCreate} {q : ProvisioningRequest}
    (hcall : r.call = .provision payload)
    (hrole : requireServiceRole r.principal [.superAdmin] = .ok ()) :
    Replays rt api r (.request q) (ProvisioningService.createRequest rt api r.principal payload
      r.idempotencyKey) w := by
  refine replays_role hrole (replays_lookupRequest fun w₁ hrecorded hunique => ?_)
  obtain ⟨payload', q', hcall', hfound, hid, hfingerprint⟩ := lookup_request hrecorded hunique
  rw [hcall] at hcall'
  cases hcall'
  simp only [hfound]
  rw [if_neg (not_not.mpr hfingerprint)]
  exact replays_found hid

/-- The kind of job a call accepts. -/
def Suits (c : JobCall) : Job → Prop
  | .operation _ => ∃ e, c.effect = some e
  | .request _ => ∃ payload, c = .provision payload

theorem Recorded.suits {db : Db} (h : Recorded api r db j) : Suits r.call j := by
  cases j with
  | operation o =>
    obtain ⟨e, o', heffect, -⟩ := h
    exact ⟨e, heffect⟩
  | request q =>
    obtain ⟨payload, q', hcall, -⟩ := h
    exact ⟨payload, hcall⟩

/-- **Every call** that is sent again. -/
theorem replays_job (hsuits : Suits r.call j) (hrole : requireServiceRole r.principal (roles r.call) = .ok ())
    (hlawful : Lawful r.call) : Replays rt api r j (r.program rt api) w := by
  unfold JobRequest.program
  cases j with
  | request q =>
    obtain ⟨payload, hcall⟩ := hsuits
    rw [hcall] at hrole
    simp only [hcall]
    exact replays_provision hcall hrole
  | operation o =>
    obtain ⟨e, heffect⟩ := hsuits
    cases hcall : r.call with
    | power workloadId action reason =>
      rw [hcall] at hrole
      exact replays_power hcall hrole
    | admin vmId payload =>
      rw [hcall] at hrole
      exact replays_admin hcall hrole
    | backup workloadId payload =>
      rw [hcall] at hrole
      exact replays_backup hcall hrole
    | restore backupRunId payload =>
      rw [hcall] at hrole
      exact replays_restore hcall hrole
    | customerPower vmId action reason confirmForced =>
      rw [hcall] at hrole
      exact replays_customerPower hcall hrole hlawful
    | provision payload =>
      rw [hcall] at heffect
      cases heffect

/-- The whole request, with its answer. -/
theorem replays_message (hsuits : Suits r.call j)
    (hrole : requireServiceRole r.principal (roles r.call) = .ok ()) (hlawful : Lawful r.call)
    (θ : ServiceProcess) :
    wp (serviceMachine rt api) (replaying rt api r j) ((ServiceMessage.job r).program rt api)
      (fun _ θ _ => θ.state.answer = some (.ok ⟨j.id, false⟩)) θ w := by
  refine wp_bind (wp_attempt (wp_mono (fun x θ w hx => ?_) (replays_job hsuits hrole hlawful θ)))
  intro w' _ i θ' w'' u _ hexec
  cases hexec
  exact ⟨rfl, congrArg some hx⟩

end Walks

/-! ### What the requests insert -/

/-- An operation of a request inserts what its call is open to. -/
structure Faithful (api : Api) (m : ServiceMessage) {ρ : Type} (o : ServiceOp ρ) : Prop where
  lawful : ∀ r, m = .job r → o.accepted.isSome = true → Lawful r.call
  submitted : ∀ q steps audit, o.created = some (q, steps, audit) → ∃ r payload, m = .job r ∧
    r.call = .provision payload ∧
      Acceptances.Submitted api r.principal.userId r.idempotencyKey payload q

section Faithful
variable {rt : Runtime} {api : Api} {m : ServiceMessage}

theorem faithful_quiet {ρ : Type} {o : ServiceOp ρ} (ha : o.accepted = none) (hc : o.created = none) :
    Faithful api m o where
  lawful _ _ h := by rw [ha] at h; cases h
  submitted _ _ _ h := by rw [hc] at h; cases h

theorem accepting_faithful {r : JobRequest} (h : Lawful r.call) :
    Acceptances.Accepting (Faithful api (.job r)) where
  quiet _ ha hc _ := faithful_quiet ha hc
  accept a k _ :=
    { lawful := fun r' hr' _ => by cases hr'; exact h
      submitted := fun _ _ _ hc => by cases hc }

theorem faithful_service : (m.program rt api).Only (Faithful api m) := by
  have quiet : Acceptances.Quiet (Faithful api m) := fun o ha hc _ => faithful_quiet ha hc
  cases m with
  | assign | unassign =>
    exact only_bind only_done fun _ => only_perform (faithful_quiet rfl rfl)
  | job r =>
    refine only_bind (only_attempt ?_) fun answer => only_op (faithful_quiet rfl rfl)
    by_cases hlawful : Lawful r.call
    · have accepting : Acceptances.Accepting (Faithful api (.job r)) := accepting_faithful hlawful
      unfold JobRequest.program
      cases hcall : r.call with
      | power workloadId action reason =>
        exact Acceptances.only_power rt api _ _ _ accepting workloadId action reason
      | admin vmId payload => exact Acceptances.only_admin rt api _ _ _ accepting vmId payload
      | backup workloadId payload =>
        exact Acceptances.only_backup api _ _ _ accepting workloadId payload
      | restore backupRunId payload =>
        exact Acceptances.only_restore rt api _ _ _ accepting backupRunId payload
      | customerPower vmId action reason confirmForced =>
        exact Acceptances.only_customerPower api _ _ _ accepting vmId action reason confirmForced
      | provision payload =>
        refine Acceptances.only_provision rt api _ _ quiet payload fun q ids audit k hq => ?_
        exact
          { lawful := fun _ _ h => by cases h
            submitted := fun _ _ _ h => by
              cases h
              exact ⟨r, payload, rfl, hcall, hq⟩ }
    · -- a call that is not open to a customer ends before its insert
      unfold JobRequest.program
      cases hcall : r.call with
      | power | admin | backup | restore | provision =>
        rw [hcall] at hlawful
        exact absurd trivial hlawful
      | customerPower vmId action reason confirmForced =>
        rw [hcall] at hlawful
        refine only_bind only_done fun _ => ?_
        split
        · exact only_done
        next haction =>
          refine only_bind (Acceptances.only_query quiet _) fun workload => ?_
          split
          · exact only_done
          · split
            · exact only_done
            · next hconfirm => exact absurd ⟨not_not.mp haction, hconfirm⟩ hlawful

end Faithful

/-! ### Runs of the platform -/

/-- The rest of the program leaves jobs and runs, in any of its steps. -/
def still : Custom where
  outside w w' := w'.db.operations = w.db.operations ∧ w'.db.requests = w.db.requests ∧
    w'.db.backupRuns = w.db.backupRuns ∧ w'.db.restoreRuns = w.db.restoreRuns

/-- What a request of the platform knows. -/
structure Ready (rt : Runtime) (api : Api) (θ : ServiceProcess) (p : Prog Exn ServiceOp Unit) (w : World) :
    Prop where
  serves : Serves rt api θ p w
  orderly : p.Only (Acceptances.Orderly θ.message)
  faithful : p.Only (Faithful api θ.message)

section Protocols
variable (rt : Runtime) (api : Api)

theorem unique_env {w w' : World} (hI : Unique w.db) (h : still.outside w w') :
    Unique w'.db ∧ Stays w.db w'.db := by
  obtain ⟨hops, hrequests, hbackup, hrestore⟩ := h
  have hsame := sameJobs_of hops hrequests hbackup hrestore
  exact ⟨hsame.unique hI, hsame.stays⟩

theorem Unique.oneKey {db : Db} (h : Unique db) : OneKey db.operations :=
  fun o ho o' ho' huser hkey => h.operations o ho o' ho' (Prod.ext huser hkey)

theorem runner_protocol : Protocol (opMachine rt) still.ofRunners (fun w => Unique w.db)
    (fun _ _ _ => True) (fun w w' => Stays w.db w'.db) where
  refl w := .refl w.db
  start _ _ _ _ := trivial
  step o k i θ θ' w w' x hI _ _ hexec := by
    have hsame := effect_sameJobs (exec_effect rt hexec)
    exact ⟨hsame.unique hI, hsame.stays, trivial⟩
  drop _ _ w hI _ _ := ⟨hI, .refl w.db⟩
  env _ _ hI h := unique_env hI h
  stable _ _ _ _ _ _ := trivial

theorem request_protocol : Protocol (serviceMachine rt api) still.ofRequests (fun w => Unique w.db)
    (Ready rt api) (fun w w' => Stays w.db w'.db) where
  refl w := .refl w.db
  start m w _ _ := ⟨serves_start rt api m w, Acceptances.orderly_service rt api m, faithful_service⟩
  step o k i θ θ' w w' x hI hL _ hexec := by
    have hserves := ((Keys.request_protocol rt api).step o k i θ θ' w w' x hI.oneKey hL.serves trivial
      hexec).2.2
    have heffect := service_effect o i θ.state w
    cases hexec
    obtain ⟨hunique, hstays⟩ := service_stays heffect hL.orderly.1 hI
    exact ⟨hunique, hstays, hserves, hL.orderly.2 _, hL.faithful.2 _⟩
  drop _ _ w hI _ _ := ⟨hI, .refl w.db⟩
  env _ _ hI h := unique_env hI h
  stable θ p w w' hG hL :=
    ⟨(Keys.request_protocol rt api).stable θ p w w' hG.kept hL.serves, hL.orderly, hL.faithful⟩

theorem provisioning_protocol : Protocol (provMachine rt) still.ofProvisioning (fun w => Unique w.db)
    (fun _ _ _ => True) (fun w w' => Stays w.db w'.db) where
  refl w := .refl w.db
  start _ _ _ _ := trivial
  step o k i θ θ' w w' x hI _ _ hexec := by
    have hsame := prov_sameJobs (prov_step hexec).effect
    exact ⟨hsame.unique hI, hsame.stays, trivial⟩
  drop _ _ _ hI _ _ := ⟨hI, .refl _⟩
  env _ _ hI h := unique_env hI h
  stable _ _ _ _ _ _ := trivial

abbrev Knowledge (rt : Runtime) (api : Api) : PlatformProcess → Prog Exn PlatformOp Unit → World → Prop :=
  Beside (Beside (fun _ _ _ => True) (Ready rt api)) (fun _ _ _ => True)

theorem platform_protocol : Protocol (platform rt api)
    ((still.ofRunners.beside still.ofRequests).beside still.ofProvisioning) (fun w => Unique w.db)
    (Knowledge rt api) (fun w w' => Stays w.db w'.db) :=
  ((runner_protocol rt).beside (request_protocol rt api)).beside (provisioning_protocol rt)

end Protocols

/-! ### The acceptance -/

/-- The request a process serves. -/
def serving (s : PlatformSys) (pid : Nat) : Option ServiceMessage :=
  (serviceState s pid).map (·.message)

def Job.find (db : Db) : Job → Option Job
  | .operation o => (db.operations.get? o.id).map .operation
  | .request q => (db.requests.get? q.id).map .request

/-- An action that inserts the job of a request: before it the job is not there, and right after
it the job is as it was accepted. -/
def Accepted (rt : Runtime) (api : Api) (s : PlatformSys) (a : PlatformAction) (r : JobRequest) (j : Job) :
    Prop :=
  ∃ pid i, a = .step pid i ∧ serving s pid = some (.job r) ∧ j.find s.shared.db = none ∧
    j.find (s.next (platform rt api) a).shared.db = some j

section Accepted
variable {rt : Runtime} {api : Api} {r : JobRequest} {j : Job}

/-- A step of a request of the platform is a step of the request. -/
theorem performed_service {θ : ServiceProcess} {θ' : PlatformProcess} {ρ : Type} {o : PlatformOp ρ}
    {k : ρ → Prog Exn PlatformOp Unit} {i : Input} {w w' : World} {x : ρ}
    {L : ServiceProcess → Prog Exn ServiceOp Unit → World → Prop} {p₁ : Prog Exn _ Unit}
    (hp₁ : Prog.node o k = Prog.rename SumOp.left p₁)
    (hp₂ : ∃ p₂, p₁ = Prog.rename SumOp.right p₂ ∧ L θ p₂ w)
    (hexec : (platform rt api).exec o i (.inl (.inr θ)) w = some (θ', w', x)) :
    ∃ (o₂ : ServiceOp ρ) (k₂ : ρ → Prog Exn ServiceOp Unit) (θ₂ : ServiceProcess), L θ (.node o₂ k₂) w ∧
      o = .left (.right o₂) ∧ (∀ y, k y = ((k₂ y).rename SumOp.right).rename SumOp.left) ∧
        θ' = .inl (.inr θ₂) ∧ (serviceMachine rt api).exec o₂ i θ w = some (θ₂, w', x) := by
  obtain ⟨o₁, k₁, rfl, rfl, hk₁⟩ := Prog.rename_node hp₁
  obtain ⟨p₂, hp₂, hL⟩ := hp₂
  obtain ⟨o₂, k₂, rfl, rfl, hk₂⟩ := Prog.rename_node hp₂
  have hexec : (((serviceMachine rt api).exec o₂ i θ w).map (fun out =>
      ((Sum.inr out.1 : OpState ⊕ ServiceProcess), out.2.1, out.2.2))).map (fun out =>
        ((Sum.inl out.1 : PlatformProcess), out.2.1, out.2.2)) = some (θ', w', x) := hexec
  cases hstep : (serviceMachine rt api).exec o₂ i θ w with
  | none =>
    rw [hstep] at hexec
    cases hexec
  | some out =>
    obtain ⟨θ₂, w₂, x₂⟩ := out
    rw [hstep] at hexec
    cases hexec
    refine ⟨o₂, k₂, θ₂, hL, rfl, fun y => ?_, rfl, hstep⟩
    rw [hk₁, hk₂]

theorem hasRun_asks {db : Db} {e : Effect} {o : Operation}
    (h : Asks o (· ∈ db.backupRuns) (· ∈ db.restoreRuns) e) : HasRun e o.id db where
  backup workloadId payload he := by
    subst he
    obtain ⟨-, -, run, hrun, hid, -⟩ := h
    exact ⟨run, hrun, hid⟩
  restore backupRunId payload he := by
    subst he
    obtain ⟨-, run, hrun, hid, -⟩ := h
    exact ⟨run, hrun, hid⟩

theorem asks_customer {B : BackupRun → Prop} {R : RestoreRun → Prop} {e : Effect} {o : Operation}
    (h : Asks o B R e) (vmId : Uuid) (action : PowerAction) (he : e = .customerPower vmId action) :
    o.workloadId = vmId := by
  subst he
  exact h.2

/-- The job of a step of a request is stored for the call of the request. -/
theorem recorded_step {θ θ' : ServiceProcess} {ρ : Type} {o : ServiceOp ρ}
    {k : ρ → Prog Exn ServiceOp Unit} {i : Input} {w w' : World} {x : ρ}
    (hready : Ready rt api θ (.node o k) w) (hmessage : θ.message = .job r)
    (hexec : (serviceMachine rt api).exec o i θ w = some (θ', w', x))
    (hnone : j.find w.db = none) (hsome : j.find w'.db = some j) :
    Recorded api r w'.db j ∧ Lawful r.call := by
  have hcommits := hready.serves.commits hexec
  have hfaithful := hready.faithful.1
  rw [hmessage] at hcommits hfaithful
  have heffect := service_effect o i θ.state w
  have hworld : w' = (o.exec i θ.state w).2.1 := by
    cases hexec
    rfl
  rw [← hworld] at heffect
  cases j with
  | operation q =>
    have hnone : w.db.operations.get? q.id = none := Option.map_eq_none_iff.mp hnone
    have hsome : w'.db.operations.get? q.id = some q := by
      obtain ⟨q', hq', heq⟩ := Option.map_eq_some_iff.mp hsome
      cases heq
      exact hq'
    obtain ⟨e, hcall, hunder, hasks⟩ := hcommits.inserted hnone hsome
    refine ⟨⟨e, q, hcall, hsome, hunder, rfl, hasRun_asks hasks, asks_customer hasks⟩, ?_⟩
    refine hfaithful.lawful r rfl ?_
    generalize w'.db = db' at heffect hsome
    cases heffect with
    | nothing =>
      rw [hnone] at hsome
      cases hsome
    | accepted ha =>
      rw [ha]
      rfl
    | created _ stored =>
      rw [(Acceptances.createRequest_ok stored).2.2] at hsome
      exact absurd (hnone.symm.trans hsome) nofun
    | transacted ht stored =>
      rw [Acceptances.ownership_rest (hready.orderly.1.transacted _ ht) stored] at hsome
      exact absurd (hnone.symm.trans hsome) nofun
  | request q =>
    have hnone : w.db.requests.get? q.id = none := Option.map_eq_none_iff.mp hnone
    have hsome : w'.db.requests.get? q.id = some q := by
      obtain ⟨q', hq', heq⟩ := Option.map_eq_some_iff.mp hsome
      cases heq
      exact hq'
    have unchanged {requests : Table ProvisioningRequest} (h : requests = w.db.requests)
        (h' : requests.get? q.id = some q) : False := by
      rw [h, hnone] at h'
      cases h'
    generalize w'.db = db' at heffect hsome
    cases heffect with
    | nothing => exact (unchanged rfl hsome).elim
    | accepted ha stored => exact (unchanged (by rw [(accept_ok stored).rest]) hsome).elim
    | transacted ht stored =>
      refine (unchanged ?_ hsome).elim
      rw [Acceptances.ownership_rest (hready.orderly.1.transacted _ ht) stored]
    | @created q' steps audit _ hcreated stored =>
      obtain ⟨r', payload, hr', hcall, hsubmitted⟩ := hfaithful.submitted q' steps audit hcreated
      cases hr'
      obtain ⟨hinsert, -, -⟩ := Acceptances.createRequest_ok stored
      have hrow : q = q' := by
        rcases (Table.mem_insert (insertUnless_some hinsert).2).mp (Table.get?_mem hsome) with h | h
        · have hget : w.db.requests.get? q.id = some q := Table.get?_of_mem h
          rw [hnone] at hget
          cases hget
        · exact h
      subst hrow
      refine ⟨⟨payload, q, hcall, hsome, ?_⟩, by rw [hcall]; trivial⟩
      rw [requestColumns, requestKey, hsubmitted.user, hsubmitted.key, hsubmitted.fingerprint]

theorem accepted_recorded {s : PlatformSys} {a : PlatformAction}
    (hs : s.Holds (fun w => Unique w.db) (Knowledge rt api)) (h : Accepted rt api s a r j) :
    Recorded api r (s.next (platform rt api) a).shared.db j ∧ Lawful r.call := by
  obtain ⟨pid, i, rfl, hserving, hnone, hsome⟩ := h
  have hdid := Sys.next_did (platform rt api) s (.step pid i)
  generalize Sys.next (platform rt api) s (.step pid i) = after at hdid hsome ⊢
  have unmoved {w : World} (hw : w.db = s.shared.db) (h : j.find w.db = some j) : False := by
    rw [hw, hnone] at h
    cases h
  cases hdid with
  | nothing => exact (unmoved rfl hsome).elim
  | @ended _ θ p _ hp =>
    have hdrop : ((platform rt api).drop θ s.shared).db = s.shared.db := by
      rcases θ with (θ | θ) | θ <;> rfl
    exact (unmoved hdrop hsome).elim
  | @performed _ _ θ θ' ρ o k w' x hp hexec =>
    have hknows := hs.each pid _ _ hp
    unfold serving serviceState at hserving
    rw [hp] at hserving
    rcases θ with (θ | θ) | θ
    · cases hserving
    · obtain ⟨p₁, hp₁, hp₂⟩ := hknows
      obtain ⟨o₂, k₂, θ₂, hready, -, -, -, hstep⟩ := performed_service hp₁ hp₂ hexec
      exact recorded_step hready (Option.some.inj hserving) hstep hnone hsome
    · cases hserving

end Accepted

/-! ### The replay -/

/-- What an operation of a replay reads passes, and it looks for the job only in time. -/
def Replayable (rt : Runtime) (r : JobRequest) (j : Job) (late : Prop) (db : Db) {ρ : Type} :
    ServiceOp ρ → Prop
  | .query _ => Passes rt r db j
  | .lookup .. | .lookupRequest .. => late
  | _ => True

/-- The same of the operation a process is about to perform, if it serves the replay. -/
def Reading (rt : Runtime) (r : JobRequest) (j : Job) (late : Prop) (pid : Nat) (s : PlatformSys)
    (a : PlatformAction) : Prop :=
  ∀ i, a = .step pid i → serving s pid = some (.job r) →
    match s.procs pid with
    | some (_, .node (.left (.right o)) _) => Replayable rt r j late s.shared.db o
    | _ => True

/-- An action of the replay changes nothing of what is shared: neither the database, nor the calls
made to Proxmox. -/
def Unmoved (rt : Runtime) (api : Api) (r : JobRequest) (pid : Nat) (s : PlatformSys) (a : PlatformAction) :
    Prop :=
  ∀ i, a = .step pid i → serving s pid = some (.job r) →
    (s.next (platform rt api) a).shared = s.shared

/-- What a process that serves a replay keeps to: whatever it still does leads to the answer that
names the job. -/
def Replaying (rt : Runtime) (api : Api) (r : JobRequest) (j : Job) (θ : PlatformProcess)
    (p : Prog Exn PlatformOp Unit) (w : World) : Prop :=
  ∀ θ', θ = .inl (.inr θ') → θ'.message = .job r →
    ∃ p₂ : Prog Exn ServiceOp Unit, p = (p₂.rename SumOp.right).rename SumOp.left ∧
      wp (serviceMachine rt api) (replaying rt api r j) p₂
        (fun _ θ _ => θ.state.answer = some (.ok ⟨j.id, false⟩)) θ' w

section Replay
variable {rt : Runtime} {api : Api} {r : JobRequest} {j : Job} {late : Prop} {pid : Nat}

theorem replaying_may {ρ : Type} {o : ServiceOp ρ} {i : Input} {θ : ServiceProcess} {w : World}
    (h : Replayable rt r j late w.db o) (hlate : late → Recorded api r w.db j) (hI : Unique w.db) :
    (replaying rt api r j).may o i θ w := by
  cases o with
  | query q => exact h
  | lookup userId keyHash k => exact ⟨hlate h, hI⟩
  | lookupRequest userId keyHash k => exact ⟨hlate h, hI⟩
  | _ => trivial

/-- A request of the platform stays one, with its message. -/
theorem exec_service {ρ : Type} {o : PlatformOp ρ} {i : Input} {θ : PlatformProcess} {θ' : ServiceProcess}
    {w w' : World} {x : ρ} (h : (platform rt api).exec o i θ w = some (.inl (.inr θ'), w', x)) :
    ∃ θ₂, θ = .inl (.inr θ₂) ∧ θ₂.message = θ'.message := by
  cases o with
  | left o =>
    rcases θ with θ | θ
    · obtain ⟨⟨θ₁, w₁, x₁⟩, h, heq⟩ := Option.map_eq_some_iff.mp h
      cases heq
      cases o with
      | left o =>
        rcases θ with θ | θ
        · have h : ((opMachine rt).exec o i θ w).map (fun out =>
              ((Sum.inl out.1 : OpState ⊕ ServiceProcess), out.2.1, out.2.2)) =
                some (.inr θ', w', x) := h
          obtain ⟨_, _, heq⟩ := Option.map_eq_some_iff.mp h
          cases heq
        · cases h
      | right o =>
        rcases θ with θ | θ
        · cases h
        · have h : ((serviceMachine rt api).exec o i θ w).map (fun out =>
              ((Sum.inr out.1 : OpState ⊕ ServiceProcess), out.2.1, out.2.2)) =
                some (.inr θ', w', x) := h
          obtain ⟨⟨θ₂, w₂, x₂⟩, h, heq⟩ := Option.map_eq_some_iff.mp h
          cases heq
          cases h
          exact ⟨θ, rfl, rfl⟩
    · cases h
  | right o =>
    rcases θ with θ | θ
    · cases h
    · obtain ⟨_, _, heq⟩ := Option.map_eq_some_iff.mp h
      cases heq

/-- **One operation** of a replay: it changes nothing. -/
theorem replaying_step {ρ : Type} {o : PlatformOp ρ} {k : ρ → Prog Exn PlatformOp Unit} {i : Input}
    {θ : ServiceProcess} {θ' : PlatformProcess} {w w' : World} {x : ρ} (hI : Unique w.db)
    (hlate : late → Recorded api r w.db j) (hmessage : θ.message = .job r)
    (hR : Replaying rt api r j (.inl (.inr θ)) (.node o k) w)
    (hd : ∀ o₂, o = .left (.right o₂) → Replayable rt r j late w.db o₂)
    (hexec : (platform rt api).exec o i (.inl (.inr θ)) w = some (θ', w', x)) :
    Replaying rt api r j θ' (k x) w' ∧ w' = w := by
  obtain ⟨p₂, hp, hwalk⟩ := hR θ rfl hmessage
  obtain ⟨o₂, k₂, θ₂, hwalk, rfl, hk, rfl, hstep⟩ := performed_service
    (L := fun θ p w => wp (serviceMachine rt api) (replaying rt api r j) p
      (fun _ θ _ => θ.state.answer = some (.ok ⟨j.id, false⟩)) θ w) hp ⟨p₂, rfl, hwalk⟩ hexec
  obtain ⟨hsame, hwalk'⟩ := hwalk w (.refl w.db) i θ₂ w' x (replaying_may (hd o₂ rfl) hlate hI) hstep
  refine ⟨fun θ₃ hθ₃ _ => ⟨k₂ x, hk x, ?_⟩, hsame⟩
  cases hθ₃
  exact hwalk'

/-- What holds while a replay is followed: keys stay unique, the job is stored once it has been
accepted, and the process keeps to what a replay does. -/
structure Follows (rt : Runtime) (api : Api) (r : JobRequest) (j : Job) (late : Prop) (pid : Nat)
    (s : PlatformSys) : Prop where
  holds : s.Holds (fun w => Unique w.db) (Knowledge rt api)
  recorded : late → Recorded api r s.shared.db j
  replay : ∀ θ p, s.procs pid = some (θ, p) → Replaying rt api r j θ p s.shared

theorem reading_replayable {s : PlatformSys} {i : Input} {θ : ServiceProcess}
    {ρ : Type} {o : ServiceOp ρ} {k : ρ → Prog Exn PlatformOp Unit}
    (h : Reading rt r j late pid s (.step pid i)) (hp : s.procs pid = some (.inl (.inr θ), .node (.left (.right o)) k))
    (hmessage : θ.message = .job r) : Replayable rt r j late s.shared.db o := by
  have hserving : serving s pid = some (.job r) := by
    unfold serving serviceState
    rw [hp, ← hmessage]
    rfl
  have := h i rfl hserving
  rw [hp] at this
  exact this

theorem follows_next {s : PlatformSys} {a : PlatformAction} (hs : Follows rt api r j late pid s)
    (hsuits : Suits r.call j) (hrole : requireServiceRole r.principal (roles r.call) = .ok ())
    (hlawful : Lawful r.call) (ha : still.conditions.Met s a) (hread : Reading rt r j late pid s a) :
    Follows rt api r j late pid (s.next (platform rt api) a) := by
  obtain ⟨hnext, hstays⟩ := (platform_protocol rt api).holds_next hs.holds (Custom.met_beside ha)
  refine ⟨hnext, fun h => (hs.recorded h).mono hstays, ?_⟩
  refine (platform_protocol rt api).followed_next (R := Replaying rt api r j)
    (d := fun θ p w => ∀ θ₂, θ = .inl (.inr θ₂) → θ₂.message = .job r →
      (late → Recorded api r w.db j) ∧ ∀ ρ (o : ServiceOp ρ) (k : ρ → Prog Exn PlatformOp Unit),
        p = .node (.left (.right o)) k → Replayable rt r j late w.db o)
    (fun m w θ hθ hmessage => ?_) (fun o k i θ θ' w w' x hI hR hd hexec => ?_)
    (fun θ p w w' hG hR θ' hθ hmessage => ?_) hs.holds (Custom.met_beside ha)
    (fun i θ p ha hp θ₂ hθ hmessage => ?_) hs.replay
  · rcases m with (m | m) | m
    · cases hθ
    · have hθ : (⟨m, { userId := m.userId }⟩ : ServiceProcess) = θ := Sum.inr.inj (Sum.inl.inj hθ)
      subst hθ
      cases hmessage
      exact ⟨_, rfl, replays_message hsuits hrole hlawful _⟩
    · cases hθ
  · intro θ₃ hθ₃ hmessage
    subst hθ₃
    obtain ⟨θ₂, rfl, hsame⟩ := exec_service hexec
    have hmessage₂ := hsame.trans hmessage
    obtain ⟨hlate, hreads⟩ := hd θ₂ rfl hmessage₂
    exact (replaying_step hI hlate hmessage₂ hR (fun o₂ ho => hreads _ o₂ k (by rw [ho])) hexec).1 θ₃ rfl
      hmessage
  · obtain ⟨p₂, hp, hwalk⟩ := hR θ' hθ hmessage
    exact ⟨p₂, hp, wp_rely (replaying_closed rt api r j) (fun _ _ _ _ _ h => h) hG hwalk⟩
  · subst ha hθ
    refine ⟨hs.recorded, fun ρ o k hp₂ => ?_⟩
    subst hp₂
    exact reading_replayable hread hp hmessage

/-- An action of the replay while it is followed. -/
theorem follows_unmoved {s : PlatformSys} {a : PlatformAction} (hs : Follows rt api r j late pid s)
    (hread : Reading rt r j late pid s a) : Unmoved rt api r pid s a := by
  intro i ha hserving
  subst ha
  have hdid := Sys.next_did (platform rt api) s (.step pid i)
  generalize Sys.next (platform rt api) s (.step pid i) = after at hdid ⊢
  cases hdid with
  | nothing => rfl
  | @ended pid' θ p _ hp hends =>
    have hpid : pid = pid' := by
      rcases hends with h | ⟨_, _, h, -⟩ <;> cases h
      rfl
    unfold serving serviceState at hserving
    rw [hpid, hp] at hserving
    rcases θ with (θ | θ) | θ
    · cases hserving
    · rfl
    · cases hserving
  | @performed _ _ θ θ' ρ o k w' x hp hexec =>
    have hR := hs.replay _ _ hp
    unfold serving serviceState at hserving
    rw [hp] at hserving
    rcases θ with (θ | θ) | θ
    · cases hserving
    · have hmessage : θ.message = .job r := Option.some.inj hserving
      refine (replaying_step hs.holds.shared hs.recorded hmessage hR (fun o₂ ho => ?_) hexec).2
      subst ho
      exact reading_replayable hread hp hmessage
    · cases hserving

/-- A replay that is done, with its answer. -/
def Done (s : PlatformSys) (pid : Nat) (r : JobRequest) (answer : Option (Except Exn JobAnswer)) : Prop :=
  ∃ θ x, s.procs pid = some (.inl (.inr θ), .done x) ∧ θ.message = .job r ∧ θ.state.answer = answer

theorem follows_done {s : PlatformSys} (hs : Follows rt api r j late pid s)
    {answer : Option (Except Exn JobAnswer)} (h : Done s pid r answer) :
    answer = some (.ok ⟨j.id, false⟩) := by
  obtain ⟨θ, x, hp, hmessage, hanswer⟩ := h
  obtain ⟨p₂, hp₂, hwalk⟩ := hs.replay _ _ hp θ rfl hmessage
  have hdone := Prog.rename_done (Prog.rename_done hp₂).symm
  subst hdone
  exact hanswer.symm.trans hwalk

/-- A run in which the replay is followed. -/
theorem follows_run {s : PlatformSys} {actions : List PlatformAction} (hs : Follows rt api r j late pid s)
    (hsuits : Suits r.call j) (hrole : requireServiceRole r.principal (roles r.call) = .ok ())
    (hlawful : Lawful r.call) (hrun : Along (Sys.next (platform rt api)) still.conditions.Met s actions)
    (hread : Along (Sys.next (platform rt api)) (Reading rt r j late pid) s actions) :
    Follows rt api r j late pid (runFrom (Sys.next (platform rt api)) s actions) ∧
      Along (Sys.next (platform rt api)) (Unmoved rt api r pid) s actions := by
  induction actions generalizing s with
  | nil => exact ⟨hs, trivial⟩
  | cons a rest ih =>
    obtain ⟨hend, hunmoved⟩ := ih (follows_next hs hsuits hrole hlawful hrun.1 hread.1) hrun.2 hread.2
    exact ⟨hend, follows_unmoved hs hread.1, hunmoved⟩

end Replay

/-- **A replay of an accepted request** changes nothing and is answered with its job, in every run
in which it looks for the job once that is stored and what it has read before passes. The first
process, other requests and the runners may be anywhere meanwhile. -/
theorem replayed (rt : Runtime) (api : Api) (w : World) (hw : Unique w.db)
    (before after : List PlatformAction) (a : PlatformAction)
    (hrun : Along (Sys.next (platform rt api)) still.conditions.Met (Sys.idle w) (before ++ a :: after))
    (r r' : JobRequest) (j : Job) (pid : Nat)
    (haccepted : Accepted rt api (runFrom (Sys.next (platform rt api)) (Sys.idle w) before) a r j)
    (hsame : Same r r') (hrole : requireServiceRole r'.principal (roles r'.call) = .ok ())
    (hearly : Along (Sys.next (platform rt api)) (Reading rt r' j False pid) (Sys.idle w) (before ++ [a]))
    (hlate : Along (Sys.next (platform rt api)) (Reading rt r' j True pid)
      (runFrom (Sys.next (platform rt api)) (Sys.idle w) (before ++ [a])) after) :
    Along (Sys.next (platform rt api)) (Unmoved rt api r' pid) (Sys.idle w) (before ++ a :: after) ∧
      ∀ answer, Done (runFrom (Sys.next (platform rt api)) (Sys.idle w) (before ++ a :: after)) pid r'
        answer → answer = some (.ok ⟨j.id, false⟩) := by
  rw [List.append_cons] at hrun ⊢
  obtain ⟨hbefore, hafter⟩ := along_append.mp hrun
  obtain ⟨hfirst, -⟩ := along_append.mp hbefore
  have hP := platform_protocol rt api
  -- the job that is stored suits the replay
  have hs := hP.holds_run (Sys.holds_idle hw) (Along.mono (fun _ _ => Custom.met_beside) hfirst)
  obtain ⟨hrecorded, hlawful⟩ := accepted_recorded hs haccepted
  rw [← hsame.call] at hlawful
  have hrecorded := hrecorded.same hsame
  have hidle : Follows rt api r' j False pid (Sys.idle w) := ⟨Sys.holds_idle hw, False.elim, fun _ _ h => by cases h⟩
  obtain ⟨hmiddle, hunmoved⟩ := follows_run hidle hrecorded.suits hrole hlawful hbefore hearly
  have hmiddle : Follows rt api r' j True pid
      (runFrom (Sys.next (platform rt api)) (Sys.idle w) (before ++ [a])) := by
    refine ⟨hmiddle.holds, fun _ => ?_, hmiddle.replay⟩
    rw [runFrom_append]
    exact hrecorded
  obtain ⟨hend, hunmoved'⟩ := follows_run hmiddle hrecorded.suits hrole hlawful hafter hlate
  refine ⟨along_append.mpr ⟨hunmoved, hunmoved'⟩, fun answer hdone => ?_⟩
  rw [runFrom_append] at hdone
  exact follows_done hend hdone

/-! A backup that is requested again, and an update that is. -/

section Decide

instance (db : Db) : Decidable (Unique db) :=
  decidable_of_iff ((∀ o ∈ db.operations.rows, ∀ o' ∈ db.operations.rows, operationKey o = operationKey o' →
        o = o') ∧ ∀ q ∈ db.requests.rows, ∀ q' ∈ db.requests.rows, requestKey q = requestKey q' → q = q')
    ⟨fun h => ⟨h.1, h.2⟩, fun h => ⟨h.operations, h.requests⟩⟩

instance {ρ : Type} (o : RunnerOp ρ) (θ : OpState) (w : World) : Decidable (still.runner o θ w) :=
  .isTrue trivial

instance {ρ : Type} (o : ServiceOp ρ) (θ : ServiceProcess) (w : World) : Decidable (still.service o θ w) :=
  .isTrue trivial

instance {ρ : Type} (o : ProvOp ρ) (θ : ProvState) (w : World) : Decidable (still.provisioning o θ w) :=
  .isTrue trivial

instance (w w' : World) : Decidable (still.outside w w') :=
  inferInstanceAs (Decidable (_ ∧ _ ∧ _ ∧ _))

instance (rt : Runtime) (r : JobRequest) (db : Db) (o : Operation) : Decidable (Passes rt r db (.operation o)) :=
  show Decidable (match r.call with
    | .power workloadId action _ =>
      ∃ wl, liveWorkload workloadId db = some wl ∧ ¬ (wl.kind = .lxc ∧ action = .reset)
    | .admin vmId payload =>
      ∃ wl, liveWorkload vmId db = some wl ∧ OperationService.checkPayload rt wl payload = .ok ()
    | .backup workloadId payload =>
      (∃ wl, liveWorkload workloadId db = some wl ∧ wl.clusterId = o.clusterId) ∧
        ∃ target, (db.backupTargets.get? payload.backupTargetId).filter (·.isEnabled) = some target ∧
          target.clusterId = o.clusterId
    | .restore backupRunId _ =>
      ∃ source, BackupService.restoreSource backupRunId db = some source ∧
        source.operation.status = .succeeded ∧ source.backup.snapshotVolumeId.getD "" ≠ "" ∧
          source.target.isEnabled = true
    | .customerPower vmId .. =>
      ∃ wl, CustomerPortalService.ownedVm r.principal vmId db = some wl ∧
        wl.organizationId = o.organizationId
    | .provision _ => True) from
  match r.call with
  | .power .. | .admin .. => inferInstanceAs (Decidable (∃ _, _ ∧ _))
  | .backup .. => inferInstanceAs (Decidable ((∃ _, _ ∧ _) ∧ ∃ _, _ ∧ _))
  | .restore .. => inferInstanceAs (Decidable (∃ _, _ ∧ _))
  | .customerPower .. => inferInstanceAs (Decidable (∃ _, _ ∧ _))
  | .provision _ => .isTrue trivial

instance (rt : Runtime) (r : JobRequest) (o : Operation) (late : Prop) [Decidable late] (db : Db) {ρ : Type} :
    (op : ServiceOp ρ) → Decidable (Replayable rt r (.operation o) late db op)
  | .query _ => inferInstanceAs (Decidable (Passes rt r db (.operation o)))
  | .lookup .. | .lookupRequest .. => inferInstanceAs (Decidable late)
  | .queryRun _ | .uuid4 _ | .uuid4s _ | .connect _ | .call .. | .random _ | .accept .. | .create ..
  | .transact .. | .answer .. => .isTrue trivial

/-- What a process reads is replayable, whatever it serves. -/
def ReadingAny (rt : Runtime) (r : JobRequest) (j : Job) (late : Prop) (pid : Nat) (s : PlatformSys) :
    PlatformAction → Prop
  | .step q _ => q = pid →
    match s.procs pid with
    | some (_, .node (.left (.right o)) _) => Replayable rt r j late s.shared.db o
    | _ => True
  | _ => True

theorem ReadingAny.reading {rt : Runtime} {r : JobRequest} {j : Job} {late : Prop} {pid : Nat} {s : PlatformSys}
    {a : PlatformAction} (h : ReadingAny rt r j late pid s a) : Reading rt r j late pid s a := by
  intro i ha _
  subst ha
  exact h rfl

instance (rt : Runtime) (r : JobRequest) (o : Operation) (late : Prop) [Decidable late] (pid : Nat)
    (s : PlatformSys) : (a : PlatformAction) → Decidable (ReadingAny rt r (.operation o) late pid s a)
  | .step q _ =>
    show Decidable (q = pid → match s.procs pid with
      | some (_, .node (.left (.right op)) _) => Replayable rt r (.operation o) late s.shared.db op
      | _ => True) from
    match s.procs pid with
    | some (_, .node (.left (.right _)) _) => inferInstanceAs (Decidable (q = pid → Replayable ..))
    | none | some (_, .done _) | some (_, .node (.right _) _) | some (_, .node (.left (.left _)) _) =>
      .isTrue fun _ => trivial
  | .spawn .. | .crash _ | .env _ => .isTrue trivial

end Decide

/-- Proxmox configures the guest. -/
def configured : Input :=
  { sampleInput "stopped" with
    answers := fun
      | .configureGuest .. => .ok ()
      | r => sampleAnswers "stopped" r }

def asked (pid : Nat) (r : JobRequest) : PlatformAction := .spawn pid (.inl (.inr (.job r)))

/-- A process takes some actions. -/
def acts (pid count : Nat) : List PlatformAction := List.replicate count (.step pid configured)

/-- The backup up to its insert; then it is requested again. -/
def beforeBackup : List PlatformAction := asked 0 backupRequest :: acts 0 7
def afterBackup : List PlatformAction := acts 0 2 ++ asked 1 backupRequest :: acts 1 5

theorem backup_replayed :
    Along (Sys.next (platform asciiRuntime plainApi)) (Unmoved asciiRuntime plainApi backupRequest 1)
        (Sys.idle quietWorld) (beforeBackup ++ .step 0 configured :: afterBackup) ∧
      ∀ answer, Done (runFrom (Sys.next (platform asciiRuntime plainApi)) (Sys.idle quietWorld)
        (beforeBackup ++ .step 0 configured :: afterBackup)) 1 backupRequest answer →
          answer = some (.ok ⟨100, false⟩) := by
  refine replayed asciiRuntime plainApi quietWorld (by decide) beforeBackup afterBackup (.step 0 configured)
    (by decide +kernel) backupRequest backupRequest (.operation insertedBackup) 1
    ⟨0, configured, rfl, rfl, rfl, rfl⟩ ⟨rfl, rfl, rfl⟩ rfl ?_ ?_
  · refine Along.mono (P := ReadingAny _ _ _ _ _) (fun _ _ => ReadingAny.reading) ?_
    decide +kernel
  · refine Along.mono (P := ReadingAny _ _ _ _ _) (fun _ _ => ReadingAny.reading) ?_
    decide +kernel

def specUpdate : JobRequest := ⟨administrator, "192.0.2.1", "key", .admin 1 (.spec 2 4 none 1 none)⟩

/-- The operation it inserts. -/
def insertedUpdate : Operation :=
  queuedOperation 100 (String.ofList (Text.uuid 100)) .vmSpecUpdate administrator "192.0.2.1" none 1 1
    (plainApi.keyHash "key") (plainApi.sha256 (Effect.text (.spec 1 2 4 none false)))
    (OperationService.AdminPayload.requested (.spec 2 4 none 1 none))

/-- The update up to its insert; then it is run, and requested again. -/
def beforeUpdate : List PlatformAction := asked 0 specUpdate :: acts 0 5
/-- The update is carried out before it is requested again. -/
def afterUpdate : List PlatformAction :=
  acts 0 2 ++ .spawn 1 (.inl (.inl ⟨.power, 100⟩)) :: acts 1 12 ++ asked 2 specUpdate :: acts 2 2

/-- **An update is not replayed**: it has changed the version it was requested for. -/
theorem update_not_replayed : Unique quietWorld.db ∧
    Along (Sys.next (platform asciiRuntime plainApi)) still.conditions.Met (Sys.idle quietWorld)
      (beforeUpdate ++ .step 0 configured :: afterUpdate) ∧
    Accepted asciiRuntime plainApi
      (runFrom (Sys.next (platform asciiRuntime plainApi)) (Sys.idle quietWorld) beforeUpdate)
      (.step 0 configured) specUpdate (.operation insertedUpdate) ∧
    requireServiceRole specUpdate.principal (roles specUpdate.call) = .ok () ∧
    Done (runFrom (Sys.next (platform asciiRuntime plainApi)) (Sys.idle quietWorld)
      (beforeUpdate ++ .step 0 configured :: afterUpdate)) 2 specUpdate
        (some (.error (.app ⟨409, "WORKLOAD_VERSION_CONFLICT", "The VM inventory changed.", []⟩))) := by
  refine ⟨by decide, by decide +kernel, ⟨0, configured, rfl, rfl, ?_, rfl⟩, rfl, ⟨_, _, rfl, rfl, rfl⟩⟩
  rfl

end PveMaster.Replay
