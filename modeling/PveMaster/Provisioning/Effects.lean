import PveMaster.Ipam.Moves
import PveMaster.Provisioning.System

/-! What one operation of the provisioning runner can do, said once.

`ProvEffect` lists the changes an operation can make to its session and to the
database. Every invariant of the runner is a case analysis of it. -/
namespace PveMaster

/-! ### Classes of operations -/

/-- What an operation can assign to the session's rows: what it is given to assign, or what its
own transaction assigns. -/
def ProvOp.edits {ρ : Type} : ProvOp ρ → ProvEdit → Prop
  | .assign e', e | .commit e' _, e => e = e'
  | .selectTarget .., e => e = .nothing ∨ ∃ id, e = .nodeReserved id
  | .releaseNodeCapacity, e => e = .nothing ∨ e = .capacityReleased
  | .assignOrganization _, e | .recordPartialWorkload, e => e = .nothing ∨ ∃ id, e = .workload id
  | _, e => e = .nothing

/-- The operations that commit, other than `_claim` and `_release_claim`. -/
def ProvOp.commits {ρ : Type} : ProvOp ρ → Bool
  | .commit .. | .selectTarget .. | .releaseNodeCapacity | .reserveIp .. | .confirmIp _
  | .quarantineIp | .assignOrganization _ | .recordPartialWorkload => true
  | _ => false

/-- The time a `_claim` goes by, which the runner has read before and not in the transaction. -/
def ProvOp.claims {ρ : Type} : ProvOp ρ → Option Instant
  | .claim time => some time
  | _ => none

def ProvOp.loads {ρ : Type} : ProvOp ρ → Bool
  | .load => true
  | _ => false

def ProvOp.assigns {ρ : Type} : ProvOp ρ → Bool
  | .assignOrganization _ => true
  | _ => false

/-! ### The changes -/

/-- What a transaction does to the workloads and their owners: nothing, the assignment of the
request's own workload, or a new workload that belongs to nobody. -/
inductive OwnerStep {ρ : Type} (o : ProvOp ρ) (θ : ProvState) (db db' : Db) : Prop
  | same (workloads : db'.workloads = db.workloads) (assignments : db'.assignments = db.assignments)
  | assigned {r : ProvisioningRequest} {actor : User} {i : Input} {now : Instant} {id : Uuid}
      (assigns : o.assigns = true) (request : θ.current.request = some r)
      (h : assignedWorkload db r actor i now = .ok (db', id))
  /-- A workload without an owner may be new. -/
  | recorded (owners : ∀ id, db'.ownerOf id = db.ownerOf id ∨
        db.ownerOf id = none ∧ db'.ownerOf id = some none)
      (assignments : db'.assignments = db.assignments)

/-- What a transaction writes besides the rows of the session. No transaction of the runner writes
the rows of another request in this way. -/
structure Writes {ρ : Type} (o : ProvOp ρ) (θ : ProvState) (db db' : Db) : Prop where
  requests : db'.requests = db.requests
  steps : db'.steps = db.steps
  ipam : Ipam.Consistent db.ipam → Ipam.Moves db.ipam db'.ipam
  owners : OwnerStep o θ db db'
  rest : db' = { db with
    ipam := db'.ipam
    nodes := db'.nodes
    workloads := db'.workloads
    assignments := db'.assignments
    auditLogs := db'.auditLogs }

inductive ProvEffect (settings : Settings) (θ : ProvState) (db : Db) {ρ : Type} (o : ProvOp ρ) :
    ProvState → Db → Prop
  | assigned {e : ProvEdit} (edits : o.edits e) :
      ProvEffect settings θ db o (θ.assign settings e) db
  /-- A transaction that failed, once it had assigned. -/
  | failed {e : ProvEdit} (edits : o.edits e) :
      ProvEffect settings θ db o (θ.assign settings e).expire db
  | committed {e : ProvEdit} {db' : Db} (edits : o.edits e) (commits : o.commits = true)
      (live : θ.expired = false) (writes : Writes o θ db db') :
      ProvEffect settings θ db o (θ.assign settings e).saved ((θ.assign settings e).flush db')
  | claimed {time : Instant} {r : ProvisioningRequest} (claims : o.claims = some time)
      (found : db.requests.get? θ.requestId = some r) (claimable : r.claimable time = true) :
      ProvEffect settings θ db o { θ with lease := some (settings.leaseDeadline time) }
        { db with requests := db.requests.update θ.requestId (claimed settings time θ.runnerId) }
  | loaded (loads : o.loads = true) : ProvEffect settings θ db o (loadRequest θ db) db
  | stepsLoaded (idle : o.edits .nothing) : ProvEffect settings θ db o (loadSteps θ db) db
  | released (idle : o.edits .nothing) :
      ProvEffect settings θ db o { θ.expire with lease := none }
        { db with requests := db.requests.update θ.requestId (released θ.runnerId) }

section Session
variable {settings : Settings} {θ θ' : ProvState} {db db' : Db} {ρ : Type} {o : ProvOp ρ}

theorem ProvEffect.requestId (he : ProvEffect settings θ db o θ' db') : θ'.requestId = θ.requestId := by
  cases he <;> rfl

/-- Only a load replaces the request of a session; the others leave it or assign to it. -/
theorem ProvEffect.request (he : ProvEffect settings θ db o θ' db') (hloads : o.loads = false)
    {c : ProvisioningRequest} (hc : θ.current.request = some c) :
    ∃ c', θ'.current.request = some c' ∧ (c' = c ∨ ∃ e : ProvEdit, c' = e.onRequest settings c) := by
  have hassign (e : ProvEdit) : ∃ c', (θ.assign settings e).current.request = some c' ∧
      (c' = c ∨ ∃ e : ProvEdit, c' = e.onRequest settings c) := by
    refine ⟨e.onRequest settings c, ?_, Or.inr ⟨e, rfl⟩⟩
    show θ.current.request.map _ = _
    rw [hc]
    rfl
  cases he with
  | assigned => exact hassign _
  | failed => exact hassign _
  | committed => exact hassign _
  | loaded loads =>
    rw [loads] at hloads
    cases hloads
  | _ => exact ⟨c, hc, Or.inl rfl⟩

theorem ProvEffect.row (he : ProvEffect settings θ db o θ' db') (hloads : o.loads = false)
    (h : ∃ c, θ.current.request = some c) : ∃ c, θ'.current.request = some c := by
  obtain ⟨c, hc⟩ := h
  obtain ⟨c', hc', -⟩ := he.request hloads hc
  exact ⟨c', hc'⟩

end Session

theorem Table.each_self {ρ κ : Type} [Keyed ρ κ] [DecidableEq κ] (t : Table ρ) :
    t.each (fun r => r) = t := by
  have hrow (r : ρ) : Table.amend (Keyed.key r) (fun r => r) r = r := by
    unfold Table.amend
    split <;> rfl
  obtain ⟨rows, distinct⟩ := t
  simp only [Table.each, hrow, List.map_id']

theorem ProvState.assign_nothing (settings : Settings) (θ : ProvState) :
    θ.assign settings .nothing = θ := by
  obtain ⟨requestId, runnerId, loaded, ⟨request, steps⟩, expired, lease, ended⟩ := θ
  have hsteps : steps.each ProvEdit.nothing.onStep = steps := Table.each_self steps
  have hrequest : request.map (ProvEdit.nothing.onRequest settings) = request := by
    cases request <;> rfl
  simp only [ProvState.assign, hsteps, hrequest]

/-! ### The request's row -/

/-- What a flush makes of a request's row. -/
theorem flush_request (θ : ProvState) (db : Db) (k : Uuid) :
    (θ.flush db).requests.get? k =
      match θ.loaded.request, θ.current.request with
      | some l, some c =>
        if l.id = k then (db.requests.get? k).map (ProvisioningRequest.merge l c)
        else db.requests.get? k
      | _, _ => db.requests.get? k := by
  show (θ.flushRequests db.requests).get? k = _
  unfold ProvState.flushRequests
  cases hl : θ.loaded.request with
  | none => rfl
  | some l =>
    cases hc : θ.current.request with
    | none => rfl
    | some c =>
      by_cases hk : l.id = k
      · simp only [if_pos hk]
        rw [← hk]
        exact Table.get?_update_self _ _ (fun _ => rfl)
      · simp only [if_neg hk]
        exact Table.get?_update_of_ne _ (Ne.symm hk)

theorem clearInitialPassword_keeps (now : Instant) (r : ProvisioningRequest) :
    (clearInitialPassword now r).id = r.id ∧ (clearInitialPassword now r).status = r.status ∧
      (clearInitialPassword now r).runnerId = r.runnerId ∧
      (clearInitialPassword now r).leaseExpiresAt = r.leaseExpiresAt := by
  unfold clearInitialPassword
  split <;> exact ⟨rfl, rfl, rfl, rfl⟩

section Edits
variable (settings : Settings) (e : ProvEdit) (r : ProvisioningRequest)

@[simp] theorem onRequest_id : (e.onRequest settings r).id = r.id := by
  cases e with
  | passwordCleared now => exact (clearInitialPassword_keeps now r).1
  | settled review error finished cleared => exact (clearInitialPassword_keeps cleared _).1
  | _ => rfl

/-- An assignment leaves the status, or ends the request. -/
theorem onRequest_status : (e.onRequest settings r).status = r.status ∨
    (e.onRequest settings r).status.terminal = true := by
  cases e with
  | passwordCleared now => exact Or.inl (clearInitialPassword_keeps now r).2.1
  | settled review error finished cleared =>
    right
    show (clearInitialPassword cleared _).status.terminal = true
    rw [(clearInitialPassword_keeps cleared _).2.1]
    cases review <;> rfl
  | completed finished => exact Or.inr rfl
  | _ => exact Or.inl rfl

/-- An assignment leaves the runner, or takes it away. -/
theorem onRequest_runner : (e.onRequest settings r).runnerId = r.runnerId ∨
    (e.onRequest settings r).runnerId = none := by
  cases e with
  | passwordCleared now => exact Or.inl (clearInitialPassword_keeps now r).2.2.1
  | settled review error finished cleared => exact Or.inr (clearInitialPassword_keeps cleared _).2.2.1
  | completed finished => exact Or.inr rfl
  | revoked => exact Or.inr rfl
  | _ => exact Or.inl rfl

end Edits

section Effects
variable {settings : Settings} {θ : ProvState} {w : World} {ρ : Type} {o : ProvOp ρ}

/-- What an operation leaves behind: the effect, and a clock that has not been set. -/
structure ProvLeaves {α : Type} (settings : Settings) (o : ProvOp ρ) (θ : ProvState) (w : World)
    (out : ProvState × World × α) : Prop where
  effect : ProvEffect settings θ w.db o out.1 out.2.1.db
  clock : out.2.1.clock = w.clock
  calls : out.2.1.calls = w.calls

theorem ProvEffect.none (idle : o.edits .nothing) : ProvEffect settings θ w.db o θ w.db := by
  have : ProvEffect settings θ w.db o (θ.assign settings .nothing) w.db := .assigned idle
  rwa [ProvState.assign_nothing] at this

theorem ProvEffect.rolledBack (idle : o.edits .nothing) :
    ProvEffect settings θ w.db o θ.expire w.db := by
  have : ProvEffect settings θ w.db o (θ.assign settings .nothing).expire w.db := .failed idle
  rwa [ProvState.assign_nothing] at this

theorem ProvLeaves.none {α : Type} {a : α} (idle : o.edits .nothing) :
    ProvLeaves settings o θ w (θ, w, a) := ⟨.none idle, rfl, rfl⟩

/-- What a commit can come to. -/
theorem commit_cases (θ : ProvState) (i : Input) (w : World) (db : Db) :
    (θ.expired = true ∧ θ.commit i w db = (θ, w, .error .sessionState)) ∨
    (∃ e, θ.commit i w db = (θ.expire, w.unlock θ.runnerId, .error e) ∧ θ.expired = false ∧
      (i.reject = some e ∨ i.reject = Option.none ∧ e = .integrity ∧ θ.movesVmid = true ∧
        ¬ UqProvisioningActiveVmid (θ.flush db).requests)) ∨
    (θ.expired = false ∧ i.reject = Option.none ∧
      (θ.movesVmid = true → UqProvisioningActiveVmid (θ.flush db).requests) ∧
      θ.commit i w db = (θ.saved, (w.setDb (θ.flush db)).unlock θ.runnerId, .ok ())) := by
  unfold ProvState.commit
  simp only
  split
  · next hexpired => exact Or.inl ⟨hexpired, rfl⟩
  · next hlive =>
    replace hlive : θ.expired = false := by simpa using hlive
    right
    split
    · next e hreject => exact Or.inl ⟨e, rfl, hlive, Or.inl hreject⟩
    · next hreject =>
      split
      · next hmoves =>
        exact Or.inl ⟨.integrity, rfl, hlive, Or.inr ⟨hreject, rfl, hmoves.1, hmoves.2⟩⟩
      · next hmoves =>
        refine Or.inr ⟨hlive, hreject, fun hm => ?_, rfl⟩
        by_contra hu
        exact hmoves ⟨hm, hu⟩

theorem commit_leaves (i : Input) {e : ProvEdit} {db : Db} (edits : o.edits e)
    (commits : o.commits = true) (writes : Writes o θ w.db db) :
    ProvLeaves settings o θ w ((θ.assign settings e).commit i w db) := by
  rcases commit_cases (θ.assign settings e) i w db with ⟨-, h⟩ | ⟨x, h, -⟩ | ⟨hlive, -, -, h⟩
  · rw [h]
    exact ⟨.assigned edits, rfl, rfl⟩
  · rw [h]
    exact ⟨.failed edits, rfl, rfl⟩
  · rw [h]
    exact ⟨.committed edits commits hlive writes, rfl, rfl⟩

theorem commit_leaves_plain (i : Input) {db : Db} (edits : o.edits .nothing)
    (commits : o.commits = true) (writes : Writes o θ w.db db) :
    ProvLeaves settings o θ w (θ.commit i w db) := by
  have : ProvLeaves settings o θ w ((θ.assign settings .nothing).commit i w db) :=
    commit_leaves i edits commits writes
  rwa [ProvState.assign_nothing] at this

theorem ProvLeaves.committing {α : Type} {a : α} {out : ProvState × World × Except Exn Unit}
    (h : ProvLeaves settings o θ w out) : ProvLeaves settings o θ w (committing a out) := by
  obtain ⟨θ', w', r⟩ := out
  cases r <;> exact ⟨h.effect, h.clock, h.calls⟩

theorem raising_leaves {α : Type} (idle : o.edits .nothing) (e : Exn) :
    ProvLeaves settings o θ w (θ.raising (α := α) w e) := by
  unfold ProvState.raising
  split
  · exact ⟨.rolledBack idle, rfl, rfl⟩
  · exact .none idle

/-- A transaction that leaves the workloads and their owners. -/
theorem writes_other {db' : Db} (rest : db' = { w.db with nodes := db'.nodes
                                                          auditLogs := db'.auditLogs }) :
    Writes o θ w.db db' where
  requests := by rw [rest]
  steps := by rw [rest]
  ipam _ := by rw [rest]; exact .refl _
  owners := .same (by rw [rest]) (by rw [rest])
  rest := by rw [rest]

/-! ### Each operation -/

theorem claim_leaves (time : Instant) (i : Input) :
    ProvLeaves settings (.claim time) θ w (claim settings time i θ w) := by
  unfold claim
  split
  · exact .none rfl
  · next r hr =>
    split
    · next hclaimable =>
      split
      · exact .none rfl
      · exact ⟨.claimed rfl hr hclaimable, rfl, rfl⟩
    · exact .none rfl

theorem selectTarget_leaves (memory disk : Int) (i : Input) :
    ProvLeaves settings (.selectTarget memory disk) θ w (selectTarget settings memory disk i θ w) := by
  unfold selectTarget
  split
  · exact .none (Or.inl rfl)
  · split
    · exact .none (Or.inl rfl)
    · next node _ =>
      refine ProvLeaves.committing (commit_leaves i (Or.inr ⟨node.id, rfl⟩) rfl ?_)
      exact writes_other rfl

theorem releaseNodeCapacity_leaves (i : Input) :
    ProvLeaves settings .releaseNodeCapacity θ w (releaseNodeCapacity settings i θ w) := by
  unfold releaseNodeCapacity
  split
  · exact .none (Or.inl rfl)
  · split
    · exact .none (Or.inl rfl)
    · split
      · split
        · exact .none (Or.inl rfl)
        · exact commit_leaves i (Or.inr rfl) rfl (writes_other rfl)
      · exact .none (Or.inl rfl)

/-- A call of the IPAM service writes its own tables only, and the rest is what it was. -/
structure OnlyIpam (db db' : Db) : Prop where
  rest : db' = { db with ipam := db'.ipam }

theorem onlyIpam_of {α : Type} {db : Db} {x : Except Exn (Outcome α)}
    (h : ∀ o, x = .ok o → OnlyIpam db o.db) : OnlyIpam db (Outcome.of db x).db :=
  Outcome.of_cases (P := OnlyIpam db) ⟨rfl⟩ h

theorem OnlyIpam.writes {db db' : Db} (h : OnlyIpam db db')
    (ipam : Ipam.Consistent db.ipam → Ipam.Moves db.ipam db'.ipam) : Writes o θ db db' where
  requests := by rw [h.rest]
  steps := by rw [h.rest]
  ipam := ipam
  owners := .same (by rw [h.rest]) (by rw [h.rest])
  rest := by rw [h.rest]

theorem reserveForProvisioning_only (svc : IpamService) (db : Db) (poolId requestId : Uuid)
    (requested : Option Address) (draws : Draws) :
    OnlyIpam db (svc.reserveForProvisioning db poolId requestId requested draws).db := by
  refine onlyIpam_of fun o h => ?_
  obtain ⟨pool, -, h⟩ := bind_ok.mp h
  split at h
  · simp only [bind_ok, pure_ok] at h
    obtain ⟨_, _, rfl⟩ := h
    exact ⟨rfl⟩
  · simp only [bind_ok, raiseIf_ok, onIntegrity_ok, pure_ok, Prod.exists] at h
    obtain ⟨_, _, _, _, _, _, _, rfl⟩ := h
    exact ⟨rfl⟩

theorem confirmProvisioningIp_only (db : Db) (requestId workloadId : Uuid) (draws : Draws) :
    OnlyIpam db (IpamService.confirmProvisioningIp db requestId workloadId draws).db := by
  refine onlyIpam_of fun o h => ?_
  split at h
  · split at h
    · cases h
      exact ⟨rfl⟩
    · cases h
  · simp only [bind_ok, pure_ok] at h
    obtain ⟨_, _, _, _, rfl⟩ := h
    exact ⟨rfl⟩

theorem quarantineProvisioningIp_only (db : Db) (requestId : Uuid) (draws : Draws) :
    OnlyIpam db (IpamService.quarantineProvisioningIp db requestId draws).db := by
  refine onlyIpam_of fun o h => ?_
  split at h
  · cases h
    exact ⟨rfl⟩
  · simp only [bind_ok, pure_ok] at h
    obtain ⟨_, _, _, _, rfl⟩ := h
    exact ⟨rfl⟩

theorem reserveIp_leaves (svc : IpamService) (poolId : Uuid) (requested : Option Address)
    (i : Input) :
    ProvLeaves settings (.reserveIp svc poolId requested) θ w
      (reserveIp svc poolId requested i θ w) := by
  unfold reserveIp
  simp only
  split
  · exact raising_leaves (o := .reserveIp svc poolId requested) rfl _
  · split
    · exact .none rfl
    · have hcommit : ∀ db, Writes (.reserveIp svc poolId requested) θ w.db db → ProvLeaves settings (.reserveIp svc poolId requested) θ w
          (θ.commit i w db) := fun _ => commit_leaves_plain i rfl rfl
      have hcommit := hcommit _
        ((reserveForProvisioning_only svc w.db poolId θ.requestId requested (i.draws w)).writes
          fun hc => Ipam.reserveForProvisioning_moves hc poolId θ.requestId requested)
      split
      · next h => rw [h] at hcommit; exact ⟨hcommit.effect, hcommit.clock, hcommit.calls⟩
      · next h => rw [h] at hcommit; exact ⟨hcommit.effect, hcommit.clock, hcommit.calls⟩

theorem confirmIp_leaves (workloadId : Uuid) (i : Input) :
    ProvLeaves settings (.confirmIp workloadId) θ w (confirmIp workloadId i θ w) := by
  unfold confirmIp
  simp only
  split
  · exact raising_leaves (o := .confirmIp workloadId) rfl _
  · split
    · exact .none rfl
    · exact commit_leaves_plain i rfl rfl
        ((confirmProvisioningIp_only w.db θ.requestId workloadId (i.draws w)).writes
          fun hc => Ipam.confirmProvisioningIp_moves hc θ.requestId workloadId)

theorem quarantineIp_leaves (i : Input) :
    ProvLeaves settings .quarantineIp θ w (quarantineIp i θ w) := by
  unfold quarantineIp
  simp only
  split
  · exact raising_leaves (o := .quarantineIp) rfl _
  · split
    · exact .none rfl
    · exact commit_leaves_plain i rfl rfl
        ((quarantineProvisioningIp_only w.db θ.requestId (i.draws w)).writes
          fun _ => Ipam.quarantineProvisioningIp_moves θ.requestId)

theorem assignedWorkload_writes {db db' : Db} {r : ProvisioningRequest} {actor : User} {i : Input}
    {now : Instant} {id : Uuid} (hr : θ.current.request = some r)
    (h : assignedWorkload db r actor i now = .ok (db', id)) :
    Writes (.assignOrganization actor) θ db db' := by
  have hassigned := h
  unfold assignedWorkload at h
  simp only [bind_ok, pure_ok, Prod.exists, Prod.mk.injEq] at h
  obtain ⟨workloads, workload, -, assignments, -, rfl, -⟩ := h
  exact ⟨rfl, rfl, fun _ => .refl _, .assigned rfl hr hassigned, rfl⟩

theorem assignOrganization_leaves (actor : User) (i : Input) :
    ProvLeaves settings (.assignOrganization actor) θ w
      (assignOrganization settings actor i θ w) := by
  unfold assignOrganization
  split
  · exact .none (Or.inl rfl)
  · next hr =>
    split
    · exact raising_leaves (o := .assignOrganization actor) (Or.inl rfl) _
    · next id hassigned =>
      exact ProvLeaves.committing
        (commit_leaves i (Or.inr ⟨id, rfl⟩) rfl (assignedWorkload_writes hr hassigned))

/-- A workload that is inserted without an owner, unless there is one. -/
theorem insertPartial_owners {t t' : Table Workload} {r : ProvisioningRequest} {vmid : Int}
    {node : ProvisioningNode} {i : Input} {now : Instant} (h : insertPartial t r vmid node i now = .ok t')
    (id : Uuid) : (t'.get? id).map Workload.organizationId = (t.get? id).map Workload.organizationId ∨
      t.get? id = none ∧ (t'.get? id).map Workload.organizationId = some none := by
  obtain ⟨cores, -, h⟩ := bind_ok.mp h
  obtain ⟨memory, -, h⟩ := bind_ok.mp h
  obtain ⟨disk, -, h⟩ := bind_ok.mp h
  split at h
  · cases h
    exact Or.inl rfl
  · have hinsert := orRaise_ok.mp h
    by_cases hid : id = i.uuid 0
    · right
      rw [hid]
      exact ⟨Table.get?_eq_none.mpr (Table.insert_some hinsert).2, by
        rw [show t'.get? (i.uuid 0) = some _ from Table.get?_insert_same hinsert]
        rfl⟩
    · left
      rw [Table.get?_insert_of_ne hinsert hid]

theorem markPartial_owners {db db' : Db} {workloads : Table Workload} {r : ProvisioningRequest}
    {vmid : Int} {now : Instant} {id : Uuid} (h : markPartial db workloads r vmid now = some (db', id)) :
    (∀ k, db'.ownerOf k = (workloads.get? k).map Workload.organizationId) ∧
      db' = { db with workloads := db'.workloads, auditLogs := db'.auditLogs } := by
  unfold markPartial at h
  split at h
  · cases h
  · next workload _ =>
    split at h
    · cases h
    · cases h
      refine ⟨fun k => ?_, rfl⟩
      show ((workloads.update workload.id _).get? k).map Workload.organizationId = _
      by_cases hk : k = workload.id
      · have hupdated := Table.get?_update_self
          (f := fun v : Workload => { v with isPresent := true, observedAt := now }) workloads
          workload.id (fun _ => rfl)
        rw [hk, hupdated, Option.map_map]
        rfl
      · rw [Table.get?_update_of_ne _ hk]

theorem partialWorkload_writes {db db' : Db} {r : ProvisioningRequest} {i : Input} {now : Instant}
    {id : Uuid} (h : partialWorkload θ db r i now = .ok (some (db', id))) : Writes o θ db db' := by
  unfold partialWorkload at h
  split at h
  · split at h
    · cases h
    · obtain ⟨workloads, hinsert, h⟩ := bind_ok.mp h
      obtain ⟨howners, hrest⟩ := markPartial_owners (pure_ok.mp h)
      refine ⟨by rw [hrest], by rw [hrest], fun _ => by rw [hrest]; exact .refl _, ?_, by rw [hrest]⟩
      refine .recorded (fun k => ?_) (by rw [hrest])
      rw [howners k]
      refine (insertPartial_owners hinsert k).imp_right fun hnew => ⟨?_, hnew.2⟩
      unfold Db.ownerOf
      rw [hnew.1]
      rfl
  · cases h

theorem recordPartialWorkload_leaves (i : Input) :
    ProvLeaves settings .recordPartialWorkload θ w (recordPartialWorkload settings i θ w) := by
  unfold recordPartialWorkload
  split
  · exact .none (Or.inl rfl)
  · split
    · exact ⟨.rolledBack (Or.inl rfl), rfl, rfl⟩
    · exact commit_leaves_plain i (Or.inl rfl) rfl (writes_other rfl)
    · next id hpartial =>
      exact commit_leaves i (Or.inr ⟨id, rfl⟩) rfl (partialWorkload_writes hpartial)

theorem releaseClaim_leaves (i : Input) :
    ProvLeaves settings .releaseClaim θ w
      ((releaseClaim i θ w).1, (releaseClaim i θ w).2, ()) := by
  unfold releaseClaim
  split
  · exact ⟨.rolledBack rfl, rfl, rfl⟩
  · exact ⟨.released rfl, rfl, rfl⟩

theorem lock?_some {w w' : World} {key : Int} {holder : Uuid} (h : w.lock? key holder = some w') :
    w' = { w with locks := w.locks ++ [(key, holder)] } := by
  unfold World.lock? at h
  split at h
  · cases h
  · exact (Option.some.inj h).symm

/-- The call to Proxmox an operation makes. -/
def ProvOp.called {ρ : Type} (o : ProvOp ρ) (i : Input) (θ : ProvState) : List Called :=
  match o with
  | .call r => [⟨.provisioning θ.requestId, r, i.answers r⟩]
  | _ => []

/-- What one operation does to its session and to the state around it. -/
structure ProvStep (settings : Settings) (o : ProvOp ρ) (i : Input) (θ : ProvState) (w : World)
    (θ' : ProvState) (w' : World) : Prop where
  effect : ProvEffect settings θ w.db o θ' w'.db
  clock : w'.clock = w.clock
  calls : w'.calls = w.calls ++ o.called i θ

/-- **Every operation of the runner has one of the listed effects**, and only a call to
Proxmox is logged. -/
theorem prov_step {i : Input} {θ' : ProvState} {w' : World} {r : ρ}
    (h : o.exec settings i θ w = some (θ', w', r)) : ProvStep settings o i θ w θ' w' := by
  have leaves {out : ProvState × World × ρ} (hout : some out = some (θ', w', r))
      (hl : ProvLeaves settings o θ w out) (hcalled : o.called i θ = []) :
      ProvStep settings o i θ w θ' w' := by
    cases hout
    exact ⟨hl.effect, hl.clock, by rw [hcalled, List.append_nil]; exact hl.calls⟩
  cases o with
  | claim time => exact leaves h (claim_leaves time i) rfl
  | load => exact leaves h ⟨.loaded rfl, rfl, rfl⟩ rfl
  | loadSteps => exact leaves h ⟨.stepsLoaded rfl, rfl, rfl⟩ rfl
  | lock key =>
    obtain ⟨w₁, hlock, hout⟩ := Option.map_eq_some_iff.mp h
    rw [lock?_some hlock] at hout
    cases hout
    exact ⟨.none rfl, rfl, (List.append_nil _).symm⟩
  | assign e => exact leaves h ⟨.assigned rfl, rfl, rfl⟩ rfl
  | commit e audit => exact leaves h (commit_leaves i rfl rfl (writes_other rfl)) rfl
  | selectTarget memory disk => exact leaves h (selectTarget_leaves memory disk i) rfl
  | releaseNodeCapacity => exact leaves h (releaseNodeCapacity_leaves i) rfl
  | reserveIp svc poolId requested => exact leaves h (reserveIp_leaves svc poolId requested i) rfl
  | confirmIp workloadId => exact leaves h (confirmIp_leaves workloadId i) rfl
  | quarantineIp => exact leaves h (quarantineIp_leaves i) rfl
  | assignOrganization actor => exact leaves h (assignOrganization_leaves actor i) rfl
  | recordPartialWorkload => exact leaves h (recordPartialWorkload_leaves i) rfl
  | releaseClaim => exact leaves h (releaseClaim_leaves i) rfl
  | call r =>
    cases h
    exact ⟨.none rfl, rfl, rfl⟩
  | _ => exact leaves h (.none rfl) rfl

end Effects

end PveMaster
