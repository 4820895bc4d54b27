import PveMaster.Operations.Effects
import PveMaster.Requests.Acceptances
import PveMaster.Requests.Fingerprints

/-! One key, one effect.

Five functions look for an operation under the caller's key and compare its fingerprint with
the one of the call. The constraint on keys admits one operation for each of them, whatever
function inserts it, and a fingerprint tells the effects of all five apart. -/
namespace PveMaster

/-- What a call that starts an operation asks for. The provisioning of a guest has a table and
keys of its own. -/
def JobCall.effect : JobCall → Option Effect
  | .power workloadId action _ => some (.power workloadId action)
  | .admin vmId (.spec cpuCores memoryGib diskGib _ reason) =>
    some (.spec vmId cpuCores memoryGib diskGib reason.isSome)
  | .admin vmId (.delete _ reason) => some (.delete vmId reason.isSome)
  | .backup workloadId payload => some (.backup workloadId payload)
  | .restore backupRunId payload => some (.restore backupRunId payload)
  | .customerPower vmId action _ _ => some (.customerPower vmId action)
  | .provision _ => none

namespace Keys
open Prog ServiceProg

/-! ### What is stored under a key -/

/-- The rows of an operation say what was asked for. -/
def Asks (o : Operation) (backups : BackupRun → Prop) (restores : RestoreRun → Prop) : Effect → Prop
  | .power workloadId action | .customerPower workloadId action =>
    o.operationType = .power action ∧ o.workloadId = workloadId
  | .spec vmId cpuCores memoryGib diskGib reasonRecorded =>
    o.operationType = .vmSpecUpdate ∧ o.workloadId = vmId ∧
      o.result = [("cpu_cores", .int cpuCores), ("memory_bytes", .int (memoryGib * OperationService.gib)),
        ("disk_bytes", (diskGib.map fun d => Json.int (d * OperationService.gib)).getD .null),
        ("reason_recorded", .bool reasonRecorded)]
  | .delete vmId reasonRecorded =>
    o.operationType = .vmDelete ∧ o.workloadId = vmId ∧
      o.result = [("reason_recorded", .bool reasonRecorded)]
  | .backup workloadId payload =>
    o.operationType = .workloadBackup ∧ o.workloadId = workloadId ∧
      ∃ run, backups run ∧ run.operationId = o.id ∧ run.backupTargetId = payload.backupTargetId ∧
        run.mode = payload.mode ∧ run.compression = payload.compression
  | .restore backupRunId payload =>
    o.operationType = .workloadRestore ∧
      ∃ run, restores run ∧ run.operationId = o.id ∧ run.backupRunId = backupRunId ∧
        run.targetNode = payload.targetNode ∧ run.targetVmid = payload.targetVmid ∧
          run.targetName = payload.targetName

theorem asks_mono {o : Operation} {B B' : BackupRun → Prop} {R R' : RestoreRun → Prop} {e : Effect}
    (hB : ∀ run, B run → B' run) (hR : ∀ run, R run → R' run) (h : Asks o B R e) : Asks o B' R' e := by
  cases e with
  | backup workloadId payload =>
    obtain ⟨htype, hid, run, hrun, hrest⟩ := h
    exact ⟨htype, hid, run, hB run hrun, hrest⟩
  | restore backupRunId payload =>
    obtain ⟨htype, run, hrun, hrest⟩ := h
    exact ⟨htype, run, hR run hrun, hrest⟩
  | power | spec | delete | customerPower => exact h

/-- An operation that was accepted under the key of a call, for the same effect. -/
structure Under (api : Api) (r : JobRequest) (e : Effect) (o : Operation) : Prop where
  user : o.requestedById = r.principal.userId
  key : o.idempotencyKeyHash = api.keyHash r.idempotencyKey
  fingerprint : o.requestFingerprint = api.sha256 e.text

/-- The columns of an operation that nobody writes again. -/
structure SameKey (o o' : Operation) : Prop where
  user : o'.requestedById = o.requestedById
  key : o'.idempotencyKeyHash = o.idempotencyKeyHash
  fingerprint : o'.requestFingerprint = o.requestFingerprint

theorem SameKey.refl (o : Operation) : SameKey o o := ⟨rfl, rfl, rfl⟩

/-- Operations stay, under their keys: no row is ever deleted, and nobody writes these columns
again. -/
def Kept (db db' : Db) : Prop :=
  ∀ k o, db.operations.get? k = some o → ∃ o', db'.operations.get? k = some o' ∧ SameKey o o'

theorem Kept.refl (db : Db) : Kept db db := fun _ o h => ⟨o, h, .refl o⟩

theorem Kept.trans {db db' db'' : Db} (h : Kept db db') (h' : Kept db' db'') : Kept db db'' := by
  intro k o ho
  obtain ⟨o', ho', hsame⟩ := h k o ho
  obtain ⟨o'', ho'', hsame'⟩ := h' k o' ho'
  exact ⟨o'', ho'', hsame'.user.trans hsame.user, hsame'.key.trans hsame.key,
    hsame'.fingerprint.trans hsame.fingerprint⟩

theorem kept_same {db db' : Db} (h : db'.operations = db.operations) : Kept db db' :=
  fun _ o ho => ⟨o, by rw [h]; exact ho, .refl o⟩

theorem Under.mono {api : Api} {r : JobRequest} {e : Effect} {o o' : Operation} (h : Under api r e o)
    (hsame : SameKey o o') : Under api r e o' :=
  ⟨hsame.user.trans h.user, hsame.key.trans h.key, hsame.fingerprint.trans h.fingerprint⟩

/-- A key is used once by a user, whatever it is used for. -/
def OneKey (ops : Table Operation) : Prop := ∀ o ∈ ops, ∀ o' ∈ ops,
  o.requestedById = o'.requestedById → o.idempotencyKeyHash = o'.idempotencyKeyHash → o = o'

/-! ### What a request commits -/

/-- A request inserts no operation, or one for what it asks. -/
inductive Commits (api : Api) (m : ServiceMessage) (db db' : Db) : Prop
  | same (operations : db'.operations = db.operations)
  | accepted {r : JobRequest} {e : Effect} {a : Acceptance} (message : m = .job r)
      (effect : r.call.effect = some e) (accepts : Accepts a db db') (under : Under api r e a.operation)
      (asks : Asks a.operation (a.backupRun = some ·) (a.restoreRun = some ·) e)

theorem accepts_kept {db db' : Db} {a : Acceptance} (h : Accepts a db db') : Kept db db' := by
  intro k o ho
  refine ⟨o, ?_, .refl o⟩
  rw [h.get?, if_neg, ho]
  rintro rfl
  rw [h.fresh] at ho
  cases ho

theorem Commits.kept {api : Api} {m : ServiceMessage} {db db' : Db} (h : Commits api m db db') :
    Kept db db' := by
  cases h with
  | same operations => exact kept_same operations
  | accepted _ _ accepts => exact accepts_kept accepts

/-- The constraint on keys admits no second operation. -/
theorem Commits.oneKey {api : Api} {m : ServiceMessage} {db db' : Db} (h : Commits api m db db')
    (hI : OneKey db.operations) : OneKey db'.operations := by
  cases h with
  | same operations =>
    rw [operations]
    exact hI
  | @accepted r e a _ _ accepts =>
    obtain ⟨hclash, hinsert⟩ := insertUnless_some accepts.operations
    have other {o : Operation} (ho : o ∈ db.operations) (huser : o.requestedById = a.operation.requestedById)
        (hkey : o.idempotencyKeyHash = a.operation.idempotencyKeyHash) : False := by
      have := hclash o ho
      simp [Operation.clashes, huser, hkey] at this
    intro o ho o' ho' huser hkey
    rcases (Table.mem_insert hinsert).mp ho with ho | rfl
    · rcases (Table.mem_insert hinsert).mp ho' with ho' | rfl
      · exact hI o ho o' ho' huser hkey
      · exact (other ho huser hkey).elim
    · rcases (Table.mem_insert hinsert).mp ho' with ho' | rfl
      · exact (other ho' huser.symm hkey.symm).elim
      · rfl

/-- Others keep the operations; a request commits what it should. This is what each request is
proved to do, and all it may rely on. -/
def contract (api : Api) (m : ServiceMessage) : Contract ServiceOp ServiceProcess World Input where
  may _ _ _ _ := True
  rely w w' := Kept w.db w'.db
  guar w w' := Commits api m w.db w'.db

theorem contract_closed (api : Api) (m : ServiceMessage) : (contract api m).Closed where
  refl w := .refl w.db
  trans _ _ _ := Kept.trans

/-- The job of an answer is stored under the key of the call, for the same effect. -/
def Answers (api : Api) (r : JobRequest) (e : Effect) (answer : Except Exn JobAnswer) (db : Db) : Prop :=
  ∀ job, answer = .ok job → ∃ o, db.operations.get? job.jobId = some o ∧ Under api r e o

theorem answers_error {api : Api} {r : JobRequest} {e : Effect} {x : Exn} {db : Db} :
    Answers api r e (.error x) db := fun job h => by cases h

theorem Answers.mono {api : Api} {r : JobRequest} {e : Effect} {answer : Except Exn JobAnswer}
    {db db' : Db} (h : Answers api r e answer db) (hk : Kept db db') : Answers api r e answer db' := by
  intro job hjob
  obtain ⟨o, ho, hunder⟩ := h job hjob
  obtain ⟨o', ho', hsame⟩ := hk _ o ho
  exact ⟨o', ho', hunder.mono hsame⟩

/-! ### Walks through the requests -/

section Walks
variable (rt : Runtime) (api : Api) {r : JobRequest} {e : Effect} {α β ρ : Type} {w : World}

/-- From a state on, the program commits and answers what it should. -/
abbrev Walks (r : JobRequest) (p : ServiceProg α) (Q : Except Exn α → World → Prop) (w : World) : Prop :=
  ∀ θ, wp (serviceMachine rt api) (contract api (.job r)) p (fun x _ w => Q x w) θ w

/-- What a job request is answered with. -/
abbrev Answered (r : JobRequest) (e : Effect) : Except Exn JobAnswer → World → Prop :=
  fun x w => Answers api r e x w.db

variable {rt api} {Q : Except Exn β → World → Prop}

theorem walks_raise {x : Exn} : Walks rt api r (raise x) (Answered api r e) w :=
  fun _ => answers_error

theorem walks_check {x : Except Exn α} {f : α → ServiceProg JobAnswer}
    (h : ∀ a, x = .ok a → Walks rt api r (f a) (Answered api r e) w) :
    Walks rt api r (ofExcept x >>= f) (Answered api r e) w := by
  intro θ
  refine wp_bind (wp_ofExcept.mpr ?_)
  cases x with
  | ok a => exact h a rfl θ
  | error x => exact answers_error

theorem walks_query {q : Db → α} {f : α → ServiceProg β}
    (h : ∀ w', Kept w.db w'.db → Walks rt api r (f (q w'.db)) Q w') :
    Walks rt api r (query q >>= f) Q w := by
  intro θ w' hr i θ' w'' x _ hexec
  cases hexec
  exact ⟨.same rfl, h w' hr _⟩

theorem walks_queryRun {q : Db → α} {f : α → ServiceProg β}
    (h : ∀ w', Kept w.db w'.db → Walks rt api r (f (q w'.db)) Q w') :
    Walks rt api r (queryRun q >>= f) Q w := by
  intro θ w' hr i θ' w'' x _ hexec
  cases hexec
  exact ⟨.same rfl, h w' hr _⟩

theorem walks_lookup {userId : Uuid} {keyHash : Digest} {f : Option Operation → ServiceProg β}
    (h : ∀ w', Walks rt api r (f (operationOf userId keyHash w'.db)) Q w') :
    Walks rt api r (lookup userId keyHash >>= f) Q w := by
  intro θ w' _ i θ' w'' x _ hexec
  cases hexec
  exact ⟨.same rfl, h w' _⟩

theorem walks_uuid4 {f : Uuid → ServiceProg β} (h : ∀ id w', Walks rt api r (f id) Q w') :
    Walks rt api r (uuid4 >>= f) Q w := by
  intro θ w' _ i θ' w'' x _ hexec
  cases hexec
  exact ⟨.same rfl, h _ _ _⟩

/-- An operation that inserts no operation: reads, draws and answers. -/
def quiet (o : ServiceOp ρ) : Prop := o.accepted = none ∧ o.transaction = none

theorem quiet_commits {m : ServiceMessage} {i : Input} {now : Instant} {o : ServiceOp ρ} {db db' : Db}
    (he : ServiceEffect i now o db db') (h : quiet o) : Commits api m db db' := by
  cases he with
  | nothing => exact .same rfl
  | accepted ha => rw [h.1] at ha; cases ha
  | created _ stored => exact .same (by rw [(Acceptances.createRequest_ok stored).2.2])
  | transacted ht => rw [h.2] at ht; cases ht

/-- A part of a request that inserts nothing. -/
theorem walks_quiet {p : ServiceProg α} {f : α → ServiceProg JobAnswer} (hp : p.Only quiet)
    (h : ∀ a w', Walks rt api r (f a) (Answered api r e) w') :
    Walks rt api r (p >>= f) (Answered api r e) w := by
  intro θ
  refine wp_bind ?_
  induction p generalizing θ w with
  | done x =>
    cases x with
    | ok a => exact h a w θ
    | error x => exact answers_error
  | node o k ih =>
    intro w' _ i θ' w'' x _ hexec
    have heffect := service_effect o i θ.state w'
    cases hexec
    exact ⟨quiet_commits heffect hp.1, ih _ (hp.2 _) _⟩

/-- An operation that was found under the key, with the fingerprint of the call. -/
theorem walks_found {o : Operation} {b : Bool} {w₀ : World} (hk : Kept w₀.db w.db)
    (ho : operationOf r.principal.userId (api.keyHash r.idempotencyKey) w₀.db = some o)
    (hfingerprint : o.requestFingerprint = api.sha256 e.text) :
    Walks rt api r (pure ⟨o.id, b⟩) (Answered api r e) w := by
  intro θ job hjob
  cases hjob
  obtain ⟨hmem, hfound⟩ := Table.first_some ho
  have hfound : o.requestedById = r.principal.userId ∧
    o.idempotencyKeyHash = api.keyHash r.idempotencyKey := by simpa using hfound
  obtain ⟨o', ho', hsame⟩ := hk o.id o (Table.get?_of_mem hmem)
  exact ⟨o', ho', Under.mono ⟨hfound.1, hfound.2, hfingerprint⟩ hsame⟩

/-- The insert of what is asked for. -/
theorem walks_store {a : Acceptance} {flushError commitError : Exn} (heffect : r.call.effect = some e)
    (hunder : Under api r e a.operation)
    (hasks : Asks a.operation (a.backupRun = some ·) (a.restoreRun = some ·) e) :
    Walks rt api r (store a flushError commitError) (Answered api r e) w := by
  intro θ w' _ i θ' w'' x _ hexec
  have hexec : some ({ θ with state := θ.state },
    (commitAs i Refusal.database (·.accept a) w' (id : Except Refusal Unit → _)).1,
    (commitAs i Refusal.database (·.accept a) w' (id : Except Refusal Unit → _)).2) =
      some (θ', w'', x) := hexec
  unfold commitAs at hexec
  cases hreject : i.reject with
  | some y =>
    rw [hreject] at hexec
    cases hexec
    exact ⟨.same rfl, answers_error⟩
  | none =>
    rw [hreject] at hexec
    cases hstored : w'.db.accept a with
    | error y =>
      simp only [hstored] at hexec
      cases hexec
      refine ⟨.same rfl, ?_⟩
      cases y <;> exact answers_error
    | ok db' =>
      simp only [hstored] at hexec
      cases hexec
      have haccepts := accept_ok hstored
      refine ⟨.accepted rfl heffect haccepts hunder hasks, fun job hjob => ?_⟩
      cases hjob
      refine ⟨a.operation, ?_, hunder⟩
      show db'.operations.get? a.operation.id = some a.operation
      rw [haccepts.get?, if_pos rfl]

theorem live_id {id : Uuid} {db : Db} {wl : Workload} (h : liveWorkload id db = some wl) : wl.id = id :=
  Table.get?_key (Option.filter_eq_some_iff.mp h).1

theorem walks_power {workloadId : Uuid} {action : PowerAction} {reason : Option String}
    (hcall : r.call = .power workloadId action reason) :
    Walks rt api r (OperationService.requestPowerAction rt api r.principal r.sourceIp workloadId action
      r.idempotencyKey reason) (Answered api r (.power workloadId action)) w := by
  have heffect : r.call.effect = some (.power workloadId action) := by rw [hcall]; rfl
  refine walks_check fun _ _ => walks_query fun w₁ _ => ?_
  cases hworkload : liveWorkload workloadId w₁.db with
  | none => exact walks_raise
  | some workload =>
    simp only
    split
    · exact walks_raise
    refine walks_lookup fun w₂ => ?_
    split
    · next existing hexisting =>
      split
      · exact walks_raise
      · next hfingerprint => exact walks_found (.refl _) hexisting (not_not.mp hfingerprint)
    refine walks_query fun w₃ _ => ?_
    split
    · exact walks_raise
    refine walks_uuid4 fun id w₄ => walks_uuid4 fun taskId w₅ => ?_
    exact walks_store heffect ⟨rfl, rfl, rfl⟩ ⟨rfl, live_id hworkload⟩

theorem walks_admin {vmId : Uuid} {payload : OperationService.AdminPayload} (hcall : r.call = .admin vmId payload)
    (heffect : r.call.effect = some e) :
    Walks rt api r (OperationService.requestAdminAction rt api r.principal r.sourceIp vmId payload
      r.idempotencyKey) (Answered api r e) w := by
  have htext : e.text = JsonText.dumps (OperationService.adminDict vmId payload) := by
    rw [hcall] at heffect
    cases payload <;> cases heffect <;> rfl
  refine walks_check fun _ _ => walks_query fun w₁ _ => ?_
  cases hworkload : liveWorkload vmId w₁.db with
  | none => exact walks_raise
  | some workload =>
    refine walks_check fun _ _ => walks_lookup fun w₂ => ?_
    split
    · next existing hexisting =>
      split
      · exact walks_raise
      · next hfingerprint =>
        exact walks_found (.refl _) hexisting (by rw [htext]; exact not_not.mp hfingerprint)
    refine walks_query fun w₃ _ => ?_
    split
    · exact walks_raise
    refine walks_uuid4 fun id w₄ => walks_uuid4 fun taskId w₅ => ?_
    refine walks_store heffect ⟨rfl, rfl, by rw [htext]; rfl⟩ ?_
    rw [hcall] at heffect
    cases payload <;> cases heffect <;> exact ⟨rfl, live_id hworkload, rfl⟩

theorem walks_backup {workloadId : Uuid} {payload : BackupService.BackupRequest}
    (hcall : r.call = .backup workloadId payload) :
    Walks rt api r (BackupService.requestBackup api r.principal r.sourceIp workloadId payload
      r.idempotencyKey) (Answered api r (.backup workloadId payload)) w := by
  have heffect : r.call.effect = some (.backup workloadId payload) := by rw [hcall]; rfl
  refine walks_check fun _ _ => walks_query fun w₁ _ => ?_
  cases hworkload : liveWorkload workloadId w₁.db with
  | none => exact walks_raise
  | some workload =>
    have hid := live_id hworkload
    have htext : (Effect.backup workloadId payload).text =
        JsonText.dumps (BackupService.backupDict workload.id payload) := by rw [hid]; rfl
    refine walks_query fun w₂ _ => ?_
    cases htarget : (w₂.db.backupTargets.get? payload.backupTargetId).filter (·.isEnabled) with
    | none =>
      simp only
      exact walks_raise
    | some target =>
      simp only
      split
      · exact walks_raise
      refine walks_lookup fun w₃ => ?_
      split
      · next existing hexisting =>
        split
        · exact walks_raise
        · next hfingerprint =>
          refine walks_queryRun fun w₄ hk => ?_
          split
          · exact walks_raise
          · exact walks_found hk hexisting (by rw [htext]; exact not_not.mp hfingerprint)
      refine walks_query fun w₄ _ => ?_
      split
      · exact walks_raise
      refine walks_uuid4 fun id w₅ => walks_uuid4 fun taskId w₆ => walks_uuid4 fun runId w₇ => ?_
      exact walks_store heffect ⟨rfl, rfl, by rw [htext]; rfl⟩
        ⟨rfl, hid, _, rfl, rfl, rfl, rfl, rfl⟩

theorem restoreSource_id {runId : Uuid} {db : Db} {source : BackupService.RestoreSource}
    (h : BackupService.restoreSource runId db = some source) : source.backup.id = runId := by
  obtain ⟨backup, hbackup, h⟩ := Option.bind_eq_some_iff.mp h
  obtain ⟨operation, -, h⟩ := Option.bind_eq_some_iff.mp h
  obtain ⟨target, -, h⟩ := Option.bind_eq_some_iff.mp h
  obtain ⟨cluster, -, h⟩ := Option.bind_eq_some_iff.mp h
  obtain ⟨workload, -, h⟩ := Option.bind_eq_some_iff.mp h
  cases h
  exact Table.get?_key hbackup

theorem walks_restore {backupRunId : Uuid} {payload : BackupService.RestoreRequest}
    (hcall : r.call = .restore backupRunId payload) :
    Walks rt api r (BackupService.requestRestore rt api r.principal r.sourceIp backupRunId payload
      r.idempotencyKey) (Answered api r (.restore backupRunId payload)) w := by
  have heffect : r.call.effect = some (.restore backupRunId payload) := by rw [hcall]; rfl
  refine walks_check fun _ _ => walks_query fun w₁ _ => ?_
  cases hsource : BackupService.restoreSource backupRunId w₁.db with
  | none => exact walks_raise
  | some source =>
    have hid := restoreSource_id hsource
    have htext : (Effect.restore backupRunId payload).text =
        JsonText.dumps (BackupService.restoreDict source.backup.id payload) := by rw [hid]; rfl
    simp only
    split
    · exact walks_raise
    split
    · exact walks_raise
    refine walks_lookup fun w₂ => ?_
    split
    · next existing hexisting =>
      split
      · exact walks_raise
      · next hfingerprint =>
        refine walks_queryRun fun w₃ hk => ?_
        split
        · exact walks_raise
        · exact walks_found hk hexisting (by rw [htext]; exact not_not.mp hfingerprint)
    refine walks_quiet (Acceptances.only_checkTarget rt (fun _ ha _ ht => ⟨ha, ht⟩) source.cluster payload) fun _ w₃ => ?_
    refine walks_uuid4 fun id w₄ => walks_uuid4 fun taskId w₅ => walks_uuid4 fun restoreId w₆ => ?_
    exact walks_store heffect ⟨rfl, rfl, by rw [htext]; rfl⟩
      ⟨rfl, _, rfl, rfl, hid, rfl, rfl, rfl⟩

theorem walks_customerPower {vmId : Uuid} {action : PowerAction} {reason : Option String}
    {confirmForced : Bool} (hcall : r.call = .customerPower vmId action reason confirmForced) :
    Walks rt api r (CustomerPortalService.requestPowerAction api r.principal r.sourceIp vmId action
      r.idempotencyKey reason confirmForced) (Answered api r (.customerPower vmId action)) w := by
  have heffect : r.call.effect = some (.customerPower vmId action) := by rw [hcall]; rfl
  refine walks_check fun _ _ => ?_
  split
  · exact walks_raise
  refine walks_query fun w₁ _ => ?_
  cases hworkload : CustomerPortalService.ownedVm r.principal vmId w₁.db with
  | none => exact walks_raise
  | some workload =>
    have hid : workload.id = vmId := Table.get?_key (Option.filter_eq_some_iff.mp hworkload).1
    simp only
    split
    · exact walks_raise
    refine walks_lookup fun w₂ => ?_
    split
    · next existing hexisting =>
      split
      · exact walks_raise
      · next hfingerprint =>
        split
        · exact walks_raise
        · exact walks_found (.refl _) hexisting (not_not.mp hfingerprint)
    refine walks_query fun w₃ _ => ?_
    split
    · exact walks_raise
    refine walks_uuid4 fun id w₄ => walks_uuid4 fun taskId w₅ => ?_
    exact walks_store heffect ⟨rfl, rfl, rfl⟩ ⟨rfl, hid⟩

/-- **Every call that starts an operation** answers with what is stored under its key. -/
theorem walks_job (heffect : r.call.effect = some e) :
    Walks rt api r (r.program rt api) (Answered api r e) w := by
  have heffect' := heffect
  unfold JobRequest.program
  cases hcall : r.call with
  | power workloadId action reason =>
    rw [hcall] at heffect'
    cases heffect'
    exact walks_power hcall
  | admin vmId payload => exact walks_admin hcall heffect
  | backup workloadId payload =>
    rw [hcall] at heffect'
    cases heffect'
    exact walks_backup hcall
  | restore backupRunId payload =>
    rw [hcall] at heffect'
    cases heffect'
    exact walks_restore hcall
  | customerPower vmId action reason confirmForced =>
    rw [hcall] at heffect'
    cases heffect'
    exact walks_customerPower hcall
  | provision payload =>
    rw [hcall] at heffect'
    cases heffect'

end Walks

/-! ### What the runners commit -/

theorem sameKey_flushed {l c : Option Operation} (o : Operation) :
    SameKey o (flushed Operation.merge l c o) := by
  unfold flushed
  split
  · split
    · exact ⟨rfl, rfl, rfl⟩
    · exact .refl o
  · exact .refl o

section Flush
variable {db db' : Db} {l c : Option Operation}

theorem flush_kept (h : db'.operations = flushRow Operation.merge l c db.operations) : Kept db db' := by
  have hkey (l c r : Operation) : Keyed.key (Operation.merge l c r) = Keyed.key r := rfl
  intro k o ho
  refine ⟨flushed Operation.merge l c o, ?_, sameKey_flushed o⟩
  rw [h, get?_flushRow hkey, ho]
  rfl

theorem flush_oneKey (h : db'.operations = flushRow Operation.merge l c db.operations)
    (hI : OneKey db.operations) : OneKey db'.operations := by
  have hkey (l c r : Operation) : Keyed.key (Operation.merge l c r) = Keyed.key r := rfl
  rw [h]
  intro o ho o' ho' huser hhash
  obtain ⟨q, hq, rfl⟩ := (mem_flushRow hkey).mp ho
  obtain ⟨q', hq', rfl⟩ := (mem_flushRow hkey).mp ho'
  rw [(sameKey_flushed q).user, (sameKey_flushed q').user] at huser
  rw [(sameKey_flushed q).key, (sameKey_flushed q').key] at hhash
  rw [hI q hq q' hq' huser hhash]

end Flush

/-! ### Runs of the system -/

/-- An operation of a request that starts no operation. -/
structure Harmless (m : ServiceMessage) {ρ : Type} (o : ServiceOp ρ) : Prop where
  accepted : o.accepted = none
  transacted : ∀ t, o.transaction = some t → Acceptances.OwnershipChange m t

theorem harmless_commits {api : Api} {m : ServiceMessage} {i : Input} {now : Instant} {ρ : Type}
    {o : ServiceOp ρ} {db db' : Db} (he : ServiceEffect i now o db db') (h : Harmless m o) :
    Commits api m db db' := by
  cases he with
  | nothing => exact .same rfl
  | accepted ha => rw [h.accepted] at ha; cases ha
  | created _ stored => exact .same (by rw [(Acceptances.createRequest_ok stored).2.2])
  | transacted ht stored =>
    exact .same (by rw [Acceptances.ownership_rest (h.transacted _ ht) stored])

/-- A request that starts an operation, and what is left of its program; or one that does not
start any. -/
inductive Serves (rt : Runtime) (api : Api) (θ : ServiceProcess) (p : Prog Exn ServiceOp Unit) (w : World) :
    Prop
  | asks {r : JobRequest} {e : Effect} (message : θ.message = .job r) (effect : r.call.effect = some e)
      (walk : wp (serviceMachine rt api) (contract api (.job r)) p
        (fun _ θ w => ∀ x, θ.state.answer = some x → Answers api r e x w.db) θ w)
  | other (idle : ∀ r e, θ.message = .job r → r.call.effect ≠ some e)
      (harmless : p.Only (Harmless θ.message))

section Systems
variable (rt : Runtime) (api : Api)

theorem serves_start (m : ServiceMessage) (w : World) :
    Serves rt api ((serviceMachine rt api).start m).1 ((serviceMachine rt api).start m).2 w := by
  have quiet_harmless : Acceptances.Quiet (Harmless m) := fun o ha _ ht =>
    { accepted := ha
      transacted := fun t h => by rw [ht] at h; cases h }
  cases m with
  | assign principal workloadId organizationId =>
    refine .other (fun r e h => by cases h) (only_bind only_done fun _ => only_perform ⟨rfl, fun t h => ?_⟩)
    cases h
    exact .assigned principal workloadId organizationId
  | unassign principal workloadId =>
    refine .other (fun r e h => by cases h) (only_bind only_done fun _ => only_perform ⟨rfl, fun t h => ?_⟩)
    cases h
    exact .unassigned principal workloadId
  | job r =>
    cases heffect : r.call.effect with
    | some e =>
      refine .asks rfl heffect (wp_bind (wp_attempt (wp_mono (fun x θ w hx => ?_) (walks_job heffect _))))
      intro w' hr i θ' w'' u _ hexec
      cases hexec
      refine ⟨.same rfl, fun y hy => ?_⟩
      cases hy
      exact hx.mono hr
    | none =>
      refine .other (fun r' e h => ?_) (only_bind (only_attempt ?_) fun answer => only_op (quiet_harmless _ rfl rfl rfl))
      · cases h
        rw [heffect]
        nofun
      · unfold JobRequest.program
        cases hcall : r.call with
        | provision payload =>
          exact Acceptances.only_provision rt api r.principal r.idempotencyKey quiet_harmless payload
            (fun _ _ _ _ _ => ⟨rfl, fun t h => by cases h⟩)
        | admin vmId payload =>
          rw [hcall] at heffect
          cases payload <;> cases heffect
        | power | backup | restore | customerPower =>
          rw [hcall] at heffect
          cases heffect

/-- What the rest of the program may do: leave the operations as they are. -/
def outside {Op : Type → Type} {Θ μ : Type} : Conditions Exn Op Θ World Input μ where
  env w w' := w'.db.operations = w.db.operations

variable {rt api} in
/-- What a step of a request commits. -/
theorem Serves.commits {θ θ' : ServiceProcess} {ρ : Type} {o : ServiceOp ρ} {k : ρ → Prog Exn ServiceOp Unit}
    {i : Input} {w w' : World} {x : ρ} (h : Serves rt api θ (.node o k) w)
    (hexec : (serviceMachine rt api).exec o i θ w = some (θ', w', x)) :
    Commits api θ.message w.db w'.db := by
  cases h with
  | asks message effect walk =>
    rw [message]
    exact (walk w (.refl w.db) i θ' w' x trivial hexec).1
  | other idle harmless =>
    have heffect := service_effect o i θ.state w
    cases hexec
    exact harmless_commits heffect harmless.1

theorem request_protocol : Protocol (serviceMachine rt api) outside (fun w => OneKey w.db.operations)
    (Serves rt api) (fun w w' => Kept w.db w'.db) where
  refl w := .refl w.db
  start m w _ _ := serves_start rt api m w
  step o k i θ θ' w w' x hI hL _ hexec := by
    have hmessage : θ'.message = θ.message := by
      cases hexec
      rfl
    have hcommits := hL.commits hexec
    refine ⟨hcommits.oneKey hI, hcommits.kept, ?_⟩
    cases hL with
    | asks message effect walk =>
      exact .asks (hmessage.trans message) effect (walk w (.refl w.db) i θ' w' x trivial hexec).2
    | other idle harmless =>
      refine .other ?_ ?_
      · rw [hmessage]
        exact idle
      · rw [hmessage]
        exact harmless.2 x
  drop _ _ w hI _ _ := ⟨hI, .refl w.db⟩
  env w w' hI h := by
    have h : w'.db.operations = w.db.operations := h
    exact ⟨by rw [h]; exact hI, kept_same h⟩
  stable θ p w w' hG hL := by
    cases hL with
    | asks message effect walk =>
      refine .asks message effect (wp_rely (contract_closed api _) (fun _ θ w w' hr h x hx => ?_) hG walk)
      exact (h x hx).mono hr
    | other idle harmless => exact .other idle harmless

theorem runner_protocol : Protocol (opMachine rt) outside (fun w => OneKey w.db.operations)
    (fun _ _ _ => True) (fun w w' => Kept w.db w'.db) where
  refl w := .refl w.db
  start _ _ _ _ := trivial
  step o k i θ θ' w w' x hI _ _ hexec := by
    obtain ⟨l, c, hops⟩ := effect_operations (exec_effect rt hexec)
    exact ⟨flush_oneKey hops hI, flush_kept hops, trivial⟩
  drop _ _ w hI _ _ := ⟨hI, .refl w.db⟩
  env w w' hI h := by
    have h : w'.db.operations = w.db.operations := h
    exact ⟨by rw [h]; exact hI, kept_same h⟩
  stable _ _ _ _ _ _ := trivial

theorem outside_met {s : JobSys} {a : JobAction} (h : outside.Met s a) :
    (Conditions.beside outside outside).Met s a := by
  refine Conditions.met_mono (fun m w _ => ?_) (fun θ p i w _ => ?_) (fun θ p w _ => ?_)
    (fun _ _ => Or.inl) h
  · cases m <;> trivial
  · cases θ <;> exact fun _ _ => trivial
  · cases θ <;> exact fun _ _ => trivial

end Systems

/-- The request a process serves, while it does. -/
def served (s : JobSys) (pid : Nat) : Option ServiceMessage :=
  match s.procs pid with
  | some (.inr θ, _) => some θ.message
  | _ => none

/-- An action that inserts an operation for a request. -/
def Inserts (rt : Runtime) (api : Api) (s : JobSys) (a : JobAction) (r : JobRequest) (o : Operation) : Prop :=
  ∃ pid i, a = .step pid i ∧ served s pid = some (.job r) ∧ s.shared.db.operations.get? o.id = none ∧
    (s.next (jobMachine rt api) a).shared.db.operations.get? o.id = some o

/-- A request that has ended with an answer, which the caller gets. -/
def Answer (s : JobSys) (pid : Nat) (r : JobRequest) (job : JobAnswer) : Prop :=
  ∃ θ x, s.procs pid = some (.inr θ, .done x) ∧ θ.message = .job r ∧ θ.state.answer = some (.ok job)

/-- What a later state makes of an operation that a request has inserted. -/
structure OneEffect (api : Api) (r : JobRequest) (o : Operation) (s : JobSys) : Prop where
  there : ∃ o' ∈ s.shared.db.operations, o'.id = o.id
  only : ∀ o' ∈ s.shared.db.operations, o'.requestedById = r.principal.userId →
    o'.idempotencyKeyHash = api.keyHash r.idempotencyKey → o'.id = o.id
  answered : ∀ pid r' created e, Answer s pid r' ⟨o.id, created⟩ → r'.call.effect = some e →
    r'.principal.userId = r.principal.userId ∧ r'.idempotencyKey = r.idempotencyKey ∧
      r.call.effect = some e

section Runs
variable {rt : Runtime} {api : Api} {s : JobSys} {a : JobAction} {r : JobRequest} {o : Operation}

abbrev Knows (rt : Runtime) (api : Api) :
    OpState ⊕ ServiceProcess → Prog Exn (SumOp RunnerOp ServiceOp) Unit → World → Prop :=
  Beside (fun _ _ _ => True) (Serves rt api)

/-- An operation that a commit inserts is what its request asks for. -/
theorem Commits.inserted {db db' : Db} (h : Commits api (.job r) db db')
    (hnone : db.operations.get? o.id = none) (hsome : db'.operations.get? o.id = some o) :
    ∃ e, r.call.effect = some e ∧ Under api r e o ∧
      Asks o (· ∈ db'.backupRuns) (· ∈ db'.restoreRuns) e := by
  cases h with
  | same operations =>
    rw [operations, hnone] at hsome
    cases hsome
  | @accepted r' e acc message effect accepts under asks =>
    cases message
    have hrow : acc.operation = o := by
      rw [accepts.get?] at hsome
      split at hsome
      · exact Option.some.inj hsome
      · rw [hnone] at hsome
        cases hsome
    subst hrow
    refine ⟨e, effect, under, ?_⟩
    have hbackup (run : BackupRun) (h : acc.backupRun = some run) : run ∈ db'.backupRuns :=
      (mem_insertRun accepts.backupRuns run).mpr (Or.inr h)
    have hrestore (run : RestoreRun) (h : acc.restoreRun = some run) : run ∈ db'.restoreRuns :=
      (mem_insertRun accepts.restoreRuns run).mpr (Or.inr h)
    exact asks_mono hbackup hrestore asks

/-- What an action inserts is what its request asks for. -/
theorem inserts_asks (hs : s.Holds (fun w => OneKey w.db.operations) (Knows rt api))
    (h : Inserts rt api s a r o) :
    ∃ e, r.call.effect = some e ∧ Under api r e o ∧
      Asks o (· ∈ (s.next (jobMachine rt api) a).shared.db.backupRuns)
        (· ∈ (s.next (jobMachine rt api) a).shared.db.restoreRuns) e := by
  obtain ⟨pid, i, rfl, hserved, hnone, hsome⟩ := h
  have hdid := Sys.next_did (jobMachine rt api) s (.step pid i)
  generalize Sys.next (jobMachine rt api) s (.step pid i) = after at hdid hsome ⊢
  unfold served at hserved
  cases hdid with
  | nothing =>
    rw [hnone] at hsome
    cases hsome
  | @ended _ θ p _ hp =>
    cases θ <;>
    · have hsome : s.shared.db.operations.get? o.id = some o := hsome
      rw [hnone] at hsome
      cases hsome
  | @performed _ _ θ θ' ρ op k w' x hp hexec =>
    rw [hp] at hserved
    cases θ with
    | inl θ => cases hserved
    | inr θ =>
      have hmessage : θ.message = .job r := Option.some.inj hserved
      obtain ⟨p, hp₂, hserves⟩ := hs.each pid _ _ hp
      obtain ⟨op₂, k₂, rfl, rfl, -⟩ := Prog.rename_node hp₂
      have hexec : ((serviceMachine rt api).exec op₂ i θ s.shared).map (fun out =>
        ((Sum.inr out.1 : OpState ⊕ ServiceProcess), out.2.1, out.2.2)) = some (θ', w', x) := hexec
      obtain ⟨⟨θ₂, w₂, x₂⟩, hperformed, heq⟩ := Option.map_eq_some_iff.mp hexec
      cases heq
      have hcommits := hserves.commits hperformed
      rw [hmessage] at hcommits
      exact hcommits.inserted hnone hsome

/-- **One key, one effect**: an operation is inserted for what its request asks, it stays the
only one under its key, and no request for anything else is ever answered with it. -/
theorem one_key_one_effect (rt : Runtime) (api : Api) (hsha : Function.Injective api.sha256)
    (hkey : Function.Injective api.keyHash) (w : World) (hw : OneKey w.db.operations)
    (before after : List JobAction) (a : JobAction)
    (hrun : Along (Sys.next (jobMachine rt api)) outside.Met (Sys.idle w) (before ++ a :: after))
    (r : JobRequest) (o : Operation)
    (hinserts : Inserts rt api (runFrom (Sys.next (jobMachine rt api)) (Sys.idle w) before) a r o) :
    (∃ e, r.call.effect = some e ∧
      let db := (runFrom (Sys.next (jobMachine rt api)) (Sys.idle w) (before ++ [a])).shared.db
      Asks o (· ∈ db.backupRuns) (· ∈ db.restoreRuns) e) ∧
    OneEffect api r o (runFrom (Sys.next (jobMachine rt api)) (Sys.idle w) (before ++ a :: after)) := by
  have hP : Protocol (jobMachine rt api) _ _ _ _ := (runner_protocol rt).beside (request_protocol rt api)
  have hmet := Along.mono (fun _ _ => outside_met) hrun
  obtain ⟨hbefore, ha, hafter⟩ := along_append.mp hmet
  have hs₀ := hP.holds_run (Sys.holds_idle hw) hbefore
  have hs₁ := (hP.holds_next hs₀ ha).1
  rw [runFrom_append, runFrom_append]
  generalize runFrom (Sys.next (jobMachine rt api)) (Sys.idle w) before = s₀ at *
  obtain ⟨e, heffect, hunder, hasks⟩ := inserts_asks hs₀ hinserts
  refine ⟨⟨e, heffect, hasks⟩, ?_⟩
  show OneEffect api r o (runFrom (Sys.next (jobMachine rt api)) (s₀.next (jobMachine rt api) a) after)
  obtain ⟨pid, i, rfl, -, -, hsome⟩ := hinserts
  generalize s₀.next (jobMachine rt api) (.step pid i) = s₁ at *
  -- the operation stays, under its key
  obtain ⟨o', ho', hunder'⟩ : ∃ o', (runFrom (Sys.next (jobMachine rt api)) s₁ after).shared.db.operations.get? o.id =
      some o' ∧ Under api r e o' := by
    refine hP.keeps_run (J := fun w => ∃ o', w.db.operations.get? o.id = some o' ∧ Under api r e o')
      (fun w w' hk => ?_) hs₁ ⟨o, hsome, hunder⟩ hafter
    rintro ⟨q, hq, hq'⟩
    obtain ⟨q', hq'', hsame⟩ := hk _ q hq
    exact ⟨q', hq'', hq'.mono hsame⟩
  have hs₂ := hP.holds_run hs₁ hafter
  generalize runFrom (Sys.next (jobMachine rt api)) s₁ after = s₂ at *
  refine ⟨⟨o', Table.get?_mem ho', Table.get?_key ho'⟩, fun q hq huser hhash => ?_,
    fun pid r' created e' hanswer heffect' => ?_⟩
  · rw [hs₂.shared q hq o' (Table.get?_mem ho') (huser.trans hunder'.user.symm) (hhash.trans hunder'.key.symm)]
    exact Table.get?_key ho'
  · obtain ⟨θ, x, hp, hmessage, hstate⟩ := hanswer
    obtain ⟨p, hp₂, hserves⟩ := hs₂.each pid _ _ hp
    cases Prog.rename_done hp₂
    cases hserves with
    | other idle harmless => exact absurd heffect' (idle r' e' hmessage)
    | @asks r₁ e₁ message effect walk =>
      rw [message] at hmessage
      cases hmessage
      rw [effect] at heffect'
      cases heffect'
      obtain ⟨q, hq, hunderq⟩ := walk _ hstate _ rfl
      rw [ho'] at hq
      cases hq
      have hsame : e = e' := Effect.text_inj (hsha (hunder'.fingerprint.symm.trans hunderq.fingerprint))
      exact ⟨hunderq.user.symm.trans hunder'.user, hkey (hunderq.key.symm.trans hunder'.key), by
        rw [heffect, hsame]⟩

end Runs

/-! A backup that is requested, and requested again. -/

section Decide

instance (ops : Table Operation) : Decidable (OneKey ops) :=
  inferInstanceAs (Decidable (∀ o ∈ ops.rows, ∀ o' ∈ ops.rows, _ → _ → o = o'))

instance {Op : Type → Type} {Θ μ : Type} (m : μ) (w : World) :
    Decidable ((outside : Conditions Exn Op Θ World Input μ).spawn m w) := .isTrue trivial

instance {Op : Type → Type} {Θ μ : Type} (θ : Θ) (p : Prog Exn Op Unit) (i : Input) (w : World) :
    Decidable ((outside : Conditions Exn Op Θ World Input μ).step θ p i w) := .isTrue trivial

instance {Op : Type → Type} {Θ μ : Type} (θ : Θ) (p : Prog Exn Op Unit) (w : World) :
    Decidable ((outside : Conditions Exn Op Θ World Input μ).crash θ p w) := .isTrue trivial

instance {Op : Type → Type} {Θ μ : Type} (w w' : World) :
    Decidable ((outside : Conditions Exn Op Θ World Input μ).env w w') :=
  inferInstanceAs (Decidable (w'.db.operations = w.db.operations))

end Decide

theorem plainApi_injective : Function.Injective plainApi.sha256 ∧ Function.Injective plainApi.keyHash := by
  have htext : Function.Injective (List.map Char.toNat) :=
    List.map_injective_iff.mpr fun a b h => Char.toNat_inj.mp h
  exact ⟨htext, fun s t h => String.toList_inj.mp (htext h)⟩

/-- The request of a backup. -/
def backupRequest : JobRequest :=
  ⟨administrator, "192.0.2.1", "key", .backup 1 (.of 7)⟩

/-- A process takes some actions. -/
def acts (pid count : Nat) : List JobAction := List.replicate count (.step pid (sampleInput "stopped"))

/-- The request up to its insert, and what comes after it. -/
def beforeInsert : List JobAction := .spawn 0 (.inr (.job backupRequest)) :: acts 0 7
def afterInsert : List JobAction := acts 0 1 ++ .spawn 1 (.inr (.job backupRequest)) :: acts 1 5

/-- The operation it inserts. -/
def insertedBackup : Operation :=
  queuedOperation 100 (String.ofList (Text.uuid 100)) .workloadBackup administrator "192.0.2.1" none 1 1
    (plainApi.keyHash "key") (plainApi.sha256 (Effect.text (.backup 1 (.of 7))))
    [("backup_target_id", uuidJson 7), ("storage_id", .str "pbs"), ("mode", .str "snapshot"),
      ("compression", .str "zstd"), ("workload_kind", .str "QEMU")]

theorem backup_once :
    OneEffect plainApi backupRequest insertedBackup
      (runFrom (Sys.next (jobMachine asciiRuntime plainApi)) (Sys.idle quietWorld)
        (beforeInsert ++ .step 0 (sampleInput "stopped") :: afterInsert)) := by
  refine (one_key_one_effect asciiRuntime plainApi plainApi_injective.1 plainApi_injective.2 quietWorld
    (by decide) beforeInsert afterInsert (.step 0 (sampleInput "stopped")) (by decide +kernel)
    backupRequest insertedBackup ⟨0, sampleInput "stopped", rfl, rfl, ?_, ?_⟩).2
  · decide +kernel
  · decide +kernel

end Keys
end PveMaster
