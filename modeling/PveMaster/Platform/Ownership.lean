import PveMaster.Operations.Assignments
import PveMaster.Operations.Conduct
import PveMaster.Platform.System

/-! The owner of a guest that is deleted.

A deletion is accepted for an unassigned workload, and only `unassign` looks at the
operations that are active: `assign` and `_assign_organization` do not, and the runner does
not read the owner again. So a guest is unassigned when it is deleted as long as its
workload is at the acceptance, none is assigned while a deletion of it is active, and no
runner goes on with a deletion that has ended. -/
namespace PveMaster.Ownership

open Assignments Conduct

/-! ### What holds of the tables -/

/-- A deletion that has not ended, so a runner may still call Proxmox for it. -/
def Deleting (o : Operation) : Prop := o.operationType = .vmDelete ∧ o.status.terminal = false

/-- No deletion of the workload is active: the moment at which assigning it is safe. -/
def Undisturbed (db : Db) (workloadId : Uuid) : Prop :=
  ∀ o ∈ db.operations, Deleting o → o.workloadId ≠ workloadId

/-- The assignments that are not revoked are those the workloads tell of, and a workload that is
being deleted has none. This is what every step keeps under the conditions of the run. -/
structure Owned (db : Db) : Prop where
  assigned : ∀ a ∈ db.assignments, a.revokedAt = none →
    db.ownerOf a.workloadId = some (some a.organizationId)
  once : ∀ a ∈ db.assignments, ∀ b ∈ db.assignments, a.revokedAt = none → b.revokedAt = none →
    a.workloadId = b.workloadId → a = b
  deleting : ∀ o ∈ db.operations, Deleting o → db.ownerOf o.workloadId = some none

/-- An operation stays, with its type and its workload. -/
def Keeps (db db' : Db) : Prop :=
  ∀ k o, db.operations.get? k = some o → ∃ o', db'.operations.get? k = some o' ∧
    o'.operationType = o.operationType ∧ o'.workloadId = o.workloadId

/-- Operations stay where nothing happens. -/
theorem Keeps.refl (db : Db) : Keeps db db := fun _ o h => ⟨o, h, rfl, rfl⟩

/-- The workload belongs to nobody, in either of the two records. -/
structure Unassigned (db : Db) (workloadId : Uuid) : Prop where
  owner : ∀ wl, db.workloads.get? workloadId = some wl → wl.organizationId = none
  assignment : ∀ a ∈ db.assignments, a.workloadId = workloadId → a.revokedAt ≠ none

/-- A deletion that is under way is of a workload without an owner. -/
theorem Owned.unassigned {db : Db} (h : Owned db) {o : Operation} (ho : o ∈ db.operations)
    (hd : Deleting o) : Unassigned db o.workloadId := by
  have howner := h.deleting o ho hd
  refine ⟨fun wl hwl => ?_, fun a ha hid hrevoked => ?_⟩
  · unfold Db.ownerOf at howner
    rw [hwl] at howner
    exact Option.some.inj howner
  · have hassigned := h.assigned a ha hrevoked
    rw [hid, howner] at hassigned
    cases hassigned

/-- What leaves the owners, and at most ends deletions. -/
theorem Owned.keep {db db' : Db} (h : Owned db) (hassignments : db'.assignments = db.assignments)
    (howner : ∀ id, db.ownerOf id ≠ none → db'.ownerOf id = db.ownerOf id)
    (hops : ∀ o' ∈ db'.operations, Deleting o' →
      ∃ o ∈ db.operations, Deleting o ∧ o.workloadId = o'.workloadId) : Owned db' where
  assigned a ha hr := by
    rw [hassignments] at ha
    have hassigned := h.assigned a ha hr
    rw [howner _ (by rw [hassigned]; nofun), hassigned]
  once := by
    rw [hassignments]
    exact h.once
  deleting o' ho' hd := by
    obtain ⟨o, ho, hd, hid⟩ := hops o' ho' hd
    have hnone := h.deleting o ho hd
    rw [← hid, howner _ (by rw [hnone]; nofun), hnone]

/-! ### Changes of ownership -/

section Assign
variable {db : Db} {f : Workload → Workload}

/-- The owners after one workload has been given another. -/
theorem ownerOf_update {workloadId : Uuid} {db' : Db} (hworkloads : db'.workloads = db.workloads.update workloadId f)
    (hid : ∀ wl, (f wl).id = wl.id) (id : Uuid) : db'.ownerOf id =
      if id = workloadId then (db.workloads.get? id).map (fun wl => (f wl).organizationId)
      else db.ownerOf id := by
  unfold Db.ownerOf
  rw [hworkloads]
  split
  · next h =>
    rw [h, Table.get?_update_self _ _ hid, Option.map_map]
    rfl
  · next h => rw [Table.get?_update_of_ne _ h]

/-- A workload without an active assignment gets an owner and an assignment. -/
theorem owned_assigned {db' : Db} {assignments : Table WorkloadAssignment} {a : WorkloadAssignment}
    (h : Owned db) (hinsert : db.assignments.insert a = some assignments)
    (hnone : activeAssignment db.assignments a.workloadId = none)
    (hassignments : db'.assignments = assignments)
    (hself : db'.ownerOf a.workloadId = some (some a.organizationId))
    (hothers : ∀ id, id ≠ a.workloadId → db.ownerOf id ≠ none → db'.ownerOf id = db.ownerOf id)
    (hops : db'.operations = db.operations) (hfree : Undisturbed db a.workloadId) : Owned db' := by
  have unassigned {b : WorkloadAssignment} (hb : b ∈ db.assignments) (hr : b.revokedAt = none) :
      b.workloadId ≠ a.workloadId := by
    intro hid
    have := Table.first_none hnone hb
    simp [hid, hr] at this
  refine ⟨fun b hb hr => ?_, fun b hb c hc hrb hrc hid => ?_, fun o ho hd => ?_⟩
  · rw [hassignments] at hb
    rcases (Table.mem_insert hinsert).mp hb with hb | rfl
    · have hassigned := h.assigned b hb hr
      rw [hothers _ (unassigned hb hr) (by rw [hassigned]; nofun), hassigned]
    · exact hself
  · rw [hassignments] at hb hc
    rcases (Table.mem_insert hinsert).mp hb with hb | rfl
    · rcases (Table.mem_insert hinsert).mp hc with hc | rfl
      · exact h.once b hb c hc hrb hrc hid
      · exact absurd hid (unassigned hb hrb)
    · rcases (Table.mem_insert hinsert).mp hc with hc | rfl
      · exact absurd hid.symm (unassigned hc hrc)
      · rfl
  · rw [hops] at ho
    have hnone := h.deleting o ho hd
    rw [hothers _ (hfree o ho hd) (by rw [hnone]; nofun), hnone]

/-- A workload loses its owner and its active assignment. -/
theorem owned_unassigned {db' : Db} (h : Owned db) (workloadId : Uuid)
    (revoke : WorkloadAssignment → WorkloadAssignment)
    (hrevoke : ∀ a, (revoke a).id = a.id ∧ (revoke a).revokedAt ≠ none)
    (hassignments : db'.assignments = match activeAssignment db.assignments workloadId with
      | some assignment => db.assignments.update assignment.id revoke
      | none => db.assignments)
    (hself : ∀ o, db.ownerOf workloadId = some o → db'.ownerOf workloadId = some none)
    (hothers : ∀ id, id ≠ workloadId → db'.ownerOf id = db.ownerOf id)
    (hops : db'.operations = db.operations) : Owned db' := by
  have kept {a : WorkloadAssignment} (ha : a ∈ db'.assignments) (hr : a.revokedAt = none) :
      a ∈ db.assignments ∧ a.workloadId ≠ workloadId := by
    rw [hassignments] at ha
    split at ha
    · next assignment hactive =>
      obtain ⟨hmem, hfound⟩ := Table.first_some hactive
      have hfound : assignment.workloadId = workloadId ∧ assignment.revokedAt = none := by
        simpa using hfound
      have hupdated := (Table.mem_update_of_get (Table.get?_of_mem hmem) (hrevoke assignment).1).mp ha
      rcases hupdated with ⟨ha, hne⟩ | rfl
      · refine ⟨ha, fun hid => hne ?_⟩
        rw [h.once a ha assignment hmem hr hfound.2 (hid.trans hfound.1.symm)]
      · exact absurd hr (hrevoke assignment).2
    · next hnone =>
      refine ⟨ha, fun hid => ?_⟩
      have := Table.first_none hnone ha
      simp [hid, hr] at this
  refine ⟨fun a ha hr => ?_, fun a ha b hb hra hrb hid => ?_, fun o ho hd => ?_⟩
  · obtain ⟨ha, hne⟩ := kept ha hr
    rw [hothers _ hne]
    exact h.assigned a ha hr
  · exact h.once a (kept ha hra).1 b (kept hb hrb).1 hra hrb hid
  · rw [hops] at ho
    have hnone := h.deleting o ho hd
    by_cases hid : o.workloadId = workloadId
    · rw [hid] at hnone ⊢
      exact hself _ hnone
    · rw [hothers _ hid, hnone]

end Assign

section Transactions
variable {db db' : Db} {workloadId organizationId : Uuid} {principal : Principal} {i : Input}
  {now : Instant}

/-- A workload that is locked is the one that was named. -/
theorem lockedWorkload_ok {wl : Workload} (h : WorkloadService.lockedWorkload db workloadId = .ok wl) :
    db.workloads.get? workloadId = some wl ∧ wl.id = workloadId := by
  have hfilter := orRaise_ok.mp h
  have hfound := (Option.filter_eq_some_iff.mp hfilter).1
  exact ⟨hfound, Table.get?_key hfound⟩

/-- `assign`, of a workload no deletion of which is active. -/
theorem assigned_owned (h : Owned db) (hfree : Undisturbed db workloadId)
    (hok : WorkloadService.assigned principal workloadId organizationId i now db = .ok db') :
    Owned db' := by
  obtain ⟨workload, hlocked, hok⟩ := bind_ok.mp hok
  obtain ⟨hworkload, hid⟩ := lockedWorkload_ok hlocked
  obtain ⟨organization, -, hok⟩ := bind_ok.mp hok
  obtain ⟨_, -, hok⟩ := bind_ok.mp hok
  simp only at hok
  split at hok
  · obtain ⟨_, -, hok⟩ := bind_ok.mp hok
    cases hok
    exact h
  · next hnone =>
    obtain ⟨_, -, hok⟩ := bind_ok.mp hok
    obtain ⟨assignments, hinsert, hok⟩ := bind_ok.mp hok
    have hinsert := orRaise_ok.mp hinsert
    have hworkloads : db'.workloads = db.workloads.update workload.id (fun w =>
        { w with organizationId := some organization.id, version := w.version + 1 }) := by
      cases hok
      rfl
    have howner := ownerOf_update hworkloads (fun _ => rfl)
    rw [← hid] at hfree hworkload
    refine owned_assigned h hinsert hnone ?_ ?_ (fun id hne _ => ?_) ?_ hfree
    · cases hok
      rfl
    · rw [howner, if_pos rfl, hworkload]
      rfl
    · rw [howner, if_neg hne]
    · cases hok
      rfl

/-- Taking a workload from its owner keeps what holds of the tables. -/
theorem unassigned_owned (h : Owned db)
    (hok : WorkloadService.unassigned principal workloadId i now db = .ok db') : Owned db' := by
  obtain ⟨workload, hlocked, hok⟩ := bind_ok.mp hok
  obtain ⟨hworkload, hid⟩ := lockedWorkload_ok hlocked
  split at hok
  · cases hok
    exact h
  · obtain ⟨_, -, hok⟩ := bind_ok.mp hok
    have hworkloads : db'.workloads = db.workloads.update workload.id (fun w =>
        { w with organizationId := none, version := w.version + 1 }) := by
      cases hok
      rfl
    have howner := ownerOf_update hworkloads (fun _ => rfl)
    rw [← hid] at hworkload
    refine owned_unassigned h workload.id (fun a =>
      { a with revokedById := some principal.userId, revokedAt := some now })
      (fun _ => ⟨rfl, Option.some_ne_none _⟩) ?_ (fun o _ => ?_) (fun id hne => ?_) ?_
    · cases hok
      rfl
    · rw [howner, if_pos rfl, hworkload]
      rfl
    · rw [howner, if_neg hne]
    · cases hok
      rfl

/-- `_assign_organization`, of a workload no deletion of which is active. -/
theorem assignedWorkload_owned {r : ProvisioningRequest} {actor : User} {id : Uuid} (h : Owned db)
    (hfree : ∀ vmid wl, r.targetVmid = some vmid → workloadOf db.workloads r vmid = some wl →
      Undisturbed db wl.id)
    (hok : assignedWorkload db r actor i now = .ok (db', id)) : Owned db' := by
  obtain ⟨⟨workloads, workload⟩, hensure, hok⟩ := bind_ok.mp hok
  obtain ⟨assignments, hassignment, hok⟩ := bind_ok.mp hok
  have hworkloads : db'.workloads = workloads.update workload.id (fun v =>
      { v with organizationId := some r.organizationId, isPresent := true }) := by
    cases hok
    rfl
  have hassignments : db'.assignments = assignments := by
    cases hok
    rfl
  have hops : db'.operations = db.operations := by
    cases hok
    rfl
  -- the workload is there, or it is inserted with its owner
  obtain ⟨hthere, hothers, hfree⟩ : workloads.get? workload.id = some workload ∧
      (∀ k, db.ownerOf k ≠ none → (workloads.get? k).map Workload.organizationId = db.ownerOf k) ∧
      Undisturbed db workload.id := by
    obtain ⟨vmid, hvmid, hensure⟩ := bind_ok.mp hensure
    split at hensure
    · next found hfound =>
      obtain ⟨_, -, hensure⟩ := bind_ok.mp hensure
      cases hensure
      exact ⟨Table.get?_of_mem (Table.first_some hfound).1, fun _ _ => rfl,
        hfree vmid workload (orRaise_ok.mp hvmid) hfound⟩
    · obtain ⟨node, -, hensure⟩ := bind_ok.mp hensure
      obtain ⟨cores, -, hensure⟩ := bind_ok.mp hensure
      obtain ⟨memory, -, hensure⟩ := bind_ok.mp hensure
      obtain ⟨disk, -, hensure⟩ := bind_ok.mp hensure
      obtain ⟨inserted, hinsert, hensure⟩ := bind_ok.mp hensure
      have hinsert := orRaise_ok.mp hinsert
      cases hensure
      have hfresh : db.workloads.get? (i.uuid 0) = none :=
        Table.get?_eq_none.mpr (Table.insert_some hinsert).2
      have hnobody : db.ownerOf (i.uuid 0) = none := by
        unfold Db.ownerOf
        rw [hfresh]
        rfl
      refine ⟨Table.get?_insert_same hinsert, fun k hk => ?_, fun o ho hd hid => ?_⟩
      · rw [Table.get?_insert_of_ne hinsert]
        · rfl
        · intro hk'
          have hk' : k = i.uuid 0 := hk'
          exact hk (hk' ▸ hnobody)
      · have hid : o.workloadId = i.uuid 0 := hid
        have hnone := h.deleting o ho hd
        rw [hid, hnobody] at hnone
        cases hnone
  have howner (k : Uuid) : db'.ownerOf k =
      if k = workload.id then some (some r.organizationId)
      else (workloads.get? k).map Workload.organizationId := by
    have hupdate := @ownerOf_update { db with workloads := workloads } _ _ _ hworkloads (fun _ => rfl) k
    rw [hupdate]
    split
    · next hk =>
      rw [hk, hthere]
      rfl
    · rfl
  unfold ensureAssignment at hassignment
  split at hassignment
  · next assignment hactive =>
    -- the workload is assigned to this organization already
    obtain ⟨_, hsame, hassignment⟩ := bind_ok.mp hassignment
    have hsame : assignment.organizationId = r.organizationId := not_not.mp (raiseIf_ok.mp hsame)
    cases hassignment
    obtain ⟨hmem, hfound⟩ := Table.first_some hactive
    have hfound : assignment.workloadId = workload.id ∧ assignment.revokedAt = none := by
      simpa using hfound
    have hassigned := h.assigned assignment hmem hfound.2
    refine h.keep hassignments (fun k hk => ?_) fun o ho hd => ⟨o, by rw [← hops]; exact ho, hd, rfl⟩
    rw [howner k]
    split
    · next hk' => rw [hk', ← hfound.1, hassigned, hsame]
    · exact hothers k hk
  · next hnone =>
    have hinsert := orRaise_ok.mp hassignment
    refine owned_assigned h hinsert hnone hassignments ?_ (fun k hne hk => ?_) hops hfree
    · exact (howner _).trans (if_pos rfl)
    · exact (howner k).trans ((if_neg hne).trans (hothers k hk))

end Transactions

/-! ### The runners -/

/-- The operation is a deletion, whatever its status. -/
def Doomed (db : Db) (operationId : Uuid) : Prop :=
  ∃ o, db.operations.get? operationId = some o ∧ o.operationType = .vmDelete

/-- An operation that is a deletion stays one. -/
theorem Doomed.mono {db db' : Db} {k : Uuid} (h : Doomed db k) (hk : Keeps db db') : Doomed db' k := by
  obtain ⟨o, ho, htype⟩ := h
  obtain ⟨o', ho', htype', -⟩ := hk k o ho
  exact ⟨o', ho', htype'.trans htype⟩

/-- What a session holds agrees with the rows: the type of its operation, and its workload. -/
structure Agrees (θ : OpState) (db : Db) : Prop where
  sound : θ.Sound
  operation : ∀ l, θ.loaded.operation = some l → ∃ o, db.operations.get? θ.operationId = some o ∧
    o.operationType = l.operationType
  workload : ∀ wl, θ.loaded.workload = some wl → ∃ o, db.operations.get? θ.operationId = some o ∧
    o.workloadId = wl.id
  kept : θ.current.workload.map (fun wl => (wl.id, wl.organizationId)) =
    θ.loaded.workload.map (fun wl => (wl.id, wl.organizationId))

section Runners
variable {now : Instant} {ρ : Type} {op : RunnerOp ρ} {θ θ' : OpState} {db db' : Db}

/-- What a session knows of its operation stays true. -/
theorem Agrees.mono (h : Agrees θ db) (hk : Keeps db db') : Agrees θ db' where
  sound := h.sound
  operation l hl := by
    obtain ⟨o, ho, htype⟩ := h.operation l hl
    obtain ⟨o', ho', htype', -⟩ := hk _ o ho
    exact ⟨o', ho', htype'.trans htype⟩
  workload wl hwl := by
    obtain ⟨o, ho, hid⟩ := h.workload wl hwl
    obtain ⟨o', ho', -, hid'⟩ := hk _ o ho
    exact ⟨o', ho', hid'.trans hid⟩
  kept := h.kept

/-- A session that has loaded nothing agrees with any rows. -/
theorem agrees_start (m : OpMessage) (db : Db) :
    Agrees { kind := m.task, operationId := m.operationId } db where
  sound := sound_start _ _
  operation _ hl := by cases hl
  workload _ hwl := by cases hwl
  kept := rfl

/-- The operation a session goes on with. -/
theorem Agrees.current (h : Agrees θ db) {c : Operation} (hc : θ.current.operation = some c) :
    ∃ o, db.operations.get? θ.operationId = some o ∧ o.operationType = c.operationType := by
  obtain ⟨t, held⟩ := h.sound.held
  rw [held] at hc
  obtain ⟨l, hl, rfl⟩ := Option.map_eq_some_iff.mp hc
  rw [beat_operationType]
  exact h.operation l hl

/-- The workload in the session is that of the operation. -/
theorem Agrees.currentWorkload (h : Agrees θ db) {wl : Workload} (hwl : θ.current.workload = some wl) :
    ∃ o, db.operations.get? θ.operationId = some o ∧ o.workloadId = wl.id := by
  have hkept := h.kept
  rw [hwl] at hkept
  obtain ⟨l, hl, heq⟩ := Option.map_eq_some_iff.mp hkept.symm
  rw [← (Prod.mk.inj heq).1]
  exact h.workload l hl

/-- A session that is saved holds as loaded what it held as assigned. -/
theorem Agrees.saved (h : Agrees θ db) : Agrees θ.saved db where
  sound := .of_named fun _ ho => h.sound.current_named ho
  operation _ hl := h.current hl
  workload _ hwl := h.currentWorkload hwl
  kept := rfl

theorem Agrees.finished (h : Agrees θ db) (f : Finish) : Agrees (θ.finished f).saved db where
  sound := sound_finished h.sound f
  operation l hl := by
    obtain ⟨c, hc, rfl⟩ := Option.map_eq_some_iff.mp hl
    obtain ⟨o, ho, htype⟩ := h.current hc
    exact ⟨o, ho, htype⟩
  workload _ hwl := h.currentWorkload hwl
  kept := rfl

theorem Agrees.started (h : Agrees θ db) : Agrees (θ.started now).saved db where
  sound := .of_named fun o ho => by
    obtain ⟨c, hc, rfl⟩ := Option.map_eq_some_iff.mp ho
    have hid := h.sound.current_named hc
    exact hid
  operation l hl := by
    obtain ⟨c, hc, rfl⟩ := Option.map_eq_some_iff.mp hl
    obtain ⟨o, ho, htype⟩ := h.current hc
    exact ⟨o, ho, htype⟩
  workload _ hwl := h.currentWorkload hwl
  kept := rfl

/-- A session knows what it has loaded. -/
theorem agrees_load {s : OpSession} {o : Operation} (loads : Loads θ db s o) :
    Agrees (θ.load s) db where
  sound := loads.load_sound
  operation l hl := by
    have hl : s.operation = some l := hl
    rw [loads.row] at hl
    cases hl
    exact ⟨o, by rw [← loads.found, loads.named]; rfl, rfl⟩
  workload wl hwl := by
    refine ⟨o, by rw [← loads.found, loads.named]; rfl, ?_⟩
    exact (Table.get?_key (loads.workload wl hwl)).symm
  kept := rfl

/-- A flush leaves the owner of every workload. -/
theorem ownerOf_flush (h : θ.current.workload.map (fun wl => (wl.id, wl.organizationId)) =
    θ.loaded.workload.map (fun wl => (wl.id, wl.organizationId))) (id : Uuid) :
    (θ.flush db).ownerOf id = db.ownerOf id := by
  have hget : (θ.flush db).workloads.get? id = (db.workloads.get? id).map
      (flushed Workload.merge θ.loaded.workload θ.current.workload) := by
    have hkey (l c r : Workload) : Keyed.key (Workload.merge l c r) = Keyed.key r := rfl
    exact get?_flushRow hkey id
  unfold Db.ownerOf
  rw [hget, Option.map_map]
  congr 1
  funext wl
  show (flushed Workload.merge θ.loaded.workload θ.current.workload wl).organizationId = wl.organizationId
  unfold flushed
  split
  · next l c hl hc =>
    rw [hl, hc] at h
    have hsame : c.organizationId = l.organizationId := (Prod.mk.inj (Option.some.inj h)).2
    split
    · show written l.organizationId c.organizationId wl.organizationId = _
      rw [hsame, written_unchanged]
    · rfl
  · rfl

/-- A row that is a deletion after a step of a runner was one before. -/
theorem deleting_before {own : Prop} {o o' : Operation} (h : RowStep op own o o')
    (hd : Deleting o') : Deleting o := by
  refine ⟨h.type.symm.trans hd.1, ?_⟩
  rcases h.status with hsame | ⟨-, hstep⟩
  · rw [← hsame]
    exact hd.2
  · have hopen := hd.2
    generalize o'.status = after at hstep hopen
    cases hstep with
    | kept => exact hopen
    | started _ unfinished => exact unfinished
    | refused _ unfinished => exact unfinished
    | @finished f hf => rw [f.terminal] at hopen; cases hopen

/-- **What an operation of a runner does to the owners**: nothing. -/
theorem effect_owned (he : OpEffect now op θ db θ' db') (hI : Owned db) (ha : Agrees θ db)
    (hassigned : ∀ e, op.assigned = some e → Gentle e) :
    Owned db' ∧ Keeps db db' ∧ Agrees θ' db' := by
  have hkeeps : Keeps db db' := by
    intro k o ho
    obtain ⟨g, hg, hstep⟩ := effect_row he ha.sound k
    exact ⟨g o, by rw [hg, ho]; rfl, (hstep o ho).type, (hstep o ho).workload⟩
  have hrows : ∀ o' ∈ db'.operations, Deleting o' →
      ∃ o ∈ db.operations, Deleting o ∧ o.workloadId = o'.workloadId := by
    intro o' ho' hd
    obtain ⟨g, hg, hstep⟩ := effect_row he ha.sound o'.id
    have hget : db'.operations.get? o'.id = some o' := Table.get?_of_mem ho'
    rw [hget] at hg
    obtain ⟨o, ho, rfl⟩ := Option.map_eq_some_iff.mp hg.symm
    exact ⟨o, Table.get?_mem ho, deleting_before (hstep o ho) hd, (hstep o ho).workload.symm⟩
  have flush {t : OpState} (hkept : t.current.workload.map (fun wl => (wl.id, wl.organizationId)) =
      t.loaded.workload.map (fun wl => (wl.id, wl.organizationId)))
      (hassignments : db'.assignments = db.assignments)
      (hworkloads : db'.workloads = (t.flush db).workloads) : Owned db' := by
    refine hI.keep hassignments (fun id _ => ?_) hrows
    have hflush : (t.flush db).ownerOf id = db.ownerOf id := ownerOf_flush hkept id
    unfold Db.ownerOf at hflush ⊢
    rw [hworkloads, hflush]
  cases he with
  | @assigned e hedit =>
    refine ⟨hI, hkeeps, ?_⟩
    have hgentle : Gentle e := by
      rcases hedit with rfl | hedit
      · exact gentle_nothing
      · exact hassigned e hedit
    refine ⟨(effect_sound (.assigned hedit : OpEffect now op θ db _ _) ha.sound).1, ha.operation, ha.workload, ?_⟩
    show (θ.current.workload.map e.workload).map _ = θ.loaded.workload.map _
    rw [Option.map_map, ← ha.kept]
    congr 1
    funext wl
    exact Prod.ext (hgentle.workload wl).1 (hgentle.workload wl).2
  | rolledBack =>
    exact ⟨hI, hkeeps, .of_named ha.sound.named, ha.operation, ha.workload, rfl⟩
  | saved => exact ⟨flush ha.kept rfl rfl, hkeeps, ha.saved.mono hkeeps⟩
  | @submitted task tasks =>
    have hsaved : Agrees (θ.withTask task).saved db :=
      ⟨.of_named fun _ ho => ha.sound.current_named ho, ha.saved.operation, ha.saved.workload, rfl⟩
    exact ⟨flush ha.kept rfl rfl, hkeeps, hsaved.mono hkeeps⟩
  | @finished f => exact ⟨flush (t := θ.finished f) ha.kept rfl rfl, hkeeps, (ha.finished f).mono hkeeps⟩
  | loaded _ loads => exact ⟨hI, hkeeps, agrees_load loads⟩
  | @started _ s o loads =>
    exact ⟨flush (t := (θ.load s).started now) rfl rfl rfl, hkeeps, (agrees_load loads).started.mono hkeeps⟩
  | @refused _ s o loads f failed =>
    exact ⟨flush (t := (θ.load s).finished f) rfl rfl rfl, hkeeps, ((agrees_load loads).finished f).mono hkeeps⟩

end Runners

/-! ### The way to a deletion

A delivery reads its operation right after its admission, and deletes a guest only if the
operation says so. -/

/-- Where a delivery stands: before its admission, right behind it, or further on. What it may do
to a guest depends on whether its operation is a deletion. -/
inductive Course (rt : Runtime) (θ : OpState) (p : OpProg Unit) (db : Db) : Prop
  | waiting (m : OpMessage) (program : p = m.program rt)
  | admitted (k : OpSession → OpProg Unit) (program : p = .node .session k)
      (rest : Modest (Doomed db θ.operationId) (k θ.current))
  | onward (rest : Modest (Doomed db θ.operationId) p)

section Course
variable {rt : Runtime} {θ θ' : OpState} {p : OpProg Unit} {db db' : Db}

theorem modest_mono {D D' : Prop} {α : Type} {p : OpProg α} (h : D → D') (hp : Modest D p) : Modest D' p :=
  hp.mono fun _ ho => ⟨ho.entered, ho.assigned, fun hd => h (ho.deletion hd)⟩

/-- A runner stays on its way to a deletion, whatever others do. -/
theorem Course.mono (h : Course rt θ p db) (hk : Keeps db db') : Course rt θ p db' := by
  cases h with
  | waiting m program => exact .waiting m program
  | admitted k program rest => exact .admitted k program (modest_mono (·.mono hk) rest)
  | onward rest => exact .onward (modest_mono (·.mono hk) rest)

/-- What an admitted admin action goes on with. -/
theorem modest_admin {D : Prop} {x : Option Operation}
    (h : ∀ o, x = some o → o.operationType = .vmDelete → D) : Modest D (do
      let operation ← OpProg.row x
      match operation.action with
      | .admin action => PowerRunner.runAdminAction rt operation action
      | _ => Prog.raise .valueError) := by
  cases x with
  | none => exact Prog.only_done
  | some o =>
    show Modest D (match o.action with
      | .admin action => PowerRunner.runAdminAction rt o action
      | _ => Prog.raise .valueError)
    split
    · next action haction =>
      refine modest_runAdminAction o action fun client workload => ?_
      cases action with
      | updateSpec => exact modest_updateSpec client workload o
      | delete =>
        refine modest_delete (h o rfl ?_) client workload o
        rw [o.consistent] at haction
        cases htype : o.operationType <;> rw [htype] at haction <;> cases haction
    · exact Prog.only_done

/-- What an admission goes on with. -/
theorem course_entered (m : OpMessage) {f : Except Exn Admission → OpProg Unit}
    (h : m.program rt = .node .enter f) (ha : Agrees θ db) (r : Except Exn Admission) :
    Course rt θ (f r) db := by
  obtain ⟨kind, k⟩ := m
  cases kind with
  | backup => exact .onward (modest_backup h r)
  | restore => exact .onward (modest_restore h r)
  | power =>
    have h : PowerRunner.run rt = .node .enter f := h
    cases h
    cases r with
    | error e => exact .onward Prog.only_done
    | ok admission =>
      cases admission with
      | ended => exact .onward Prog.only_done
      | proceed b =>
        refine .onward (Prog.only_bind modest_session fun s => Prog.only_bind Prog.only_done fun o => ?_)
        exact modest_action b o
      | admin =>
        refine .admitted _ rfl (modest_admin fun c hc htype => ?_)
        obtain ⟨o, ho, hsame⟩ := ha.current hc
        exact ⟨o, ho, hsame.trans htype⟩

end Course

/-! ### Runs of the platform -/

/-- The workload that a request gives to an organization. -/
def ServiceMessage.assigned : ServiceMessage → Option Uuid
  | .assign _ workloadId _ => some workloadId
  | _ => none

/-- Deletions are accepted for unassigned workloads, no workload with an active deletion is
assigned, and no guest is deleted for an operation that has ended. -/
def undisturbed : Custom where
  runner o θ w := deletes o = true →
    ∃ op, w.db.operations.get? θ.operationId = some op ∧ op.status.terminal = false
  service o θ w :=
    (∀ a, o.accepted = some a → a.operation.operationType = .vmDelete →
      w.db.ownerOf a.operation.workloadId = some none) ∧
    (∀ id, ServiceMessage.assigned θ.message = some id → o.transaction.isSome = true →
      Undisturbed w.db id)
  provisioning o θ w := o.assigns = true → ∀ r, θ.current.request = some r →
    ∀ vmid, r.targetVmid = some vmid → ∀ wl, workloadOf w.db.workloads r vmid = some wl →
      Undisturbed w.db wl.id
  outside w w' := w'.db.operations = w.db.operations ∧ w'.db.assignments = w.db.assignments ∧
    ∀ wl ∈ w.db.workloads, w'.db.ownerOf wl.id = some wl.organizationId

section Protocols
variable (rt : Runtime) (api : Api)

/-- What else happens keeps it as well, under its condition. -/
theorem owned_env {w w' : World} (hI : Owned w.db) (h : undisturbed.outside w w') :
    Owned w'.db ∧ Keeps w.db w'.db := by
  obtain ⟨hops, hassignments, howners⟩ := h
  refine ⟨hI.keep hassignments (fun id hid => ?_) fun o ho hd => ⟨o, by rw [← hops]; exact ho, hd, rfl⟩,
    fun k o ho => ⟨o, by rw [hops]; exact ho, rfl, rfl⟩⟩
  unfold Db.ownerOf at hid
  cases hwl : w.db.workloads.get? id with
  | none =>
    rw [hwl] at hid
    exact absurd rfl hid
  | some wl =>
    have howner := howners wl (Table.get?_mem hwl)
    have hkey : wl.id = id := Table.get?_key hwl
    rw [hkey] at howner
    rw [howner]
    unfold Db.ownerOf
    rw [hwl]
    rfl

/-- **What an operation of a request does to the owners.** -/
theorem service_owned {i : Input} {now : Instant} {ρ : Type} {o : ServiceOp ρ} {db db' : Db}
    {m : ServiceMessage} (he : ServiceEffect i now o db db') (ho : Acceptances.Orderly m o)
    (hI : Owned db)
    (hfree : ∀ a, o.accepted = some a → a.operation.operationType = .vmDelete →
      db.ownerOf a.operation.workloadId = some none)
    (hquiet : ∀ id, ServiceMessage.assigned m = some id → o.transaction.isSome = true →
      Undisturbed db id) : Owned db' ∧ Keeps db db' := by
  cases he with
  | nothing => exact ⟨hI, .refl _⟩
  | @accepted a _ haccepted stored =>
    have h := accept_ok stored
    have hinsert := (insertUnless_some h.operations).2
    have howner (id : Uuid) : db'.ownerOf id = db.ownerOf id := by
      rw [h.rest]
      rfl
    refine ⟨⟨?_, ?_, fun q hq hd => ?_⟩, fun id q hq => ⟨q, ?_, rfl, rfl⟩⟩
    · rw [h.rest]
      exact hI.assigned
    · rw [h.rest]
      exact hI.once
    · rw [howner]
      rcases (Table.mem_insert hinsert).mp hq with hq | rfl
      · exact hI.deleting q hq hd
      · exact hfree a haccepted hd.1
    · rw [h.get?, if_neg, hq]
      rintro rfl
      rw [h.fresh] at hq
      cases hq
  | created _ stored =>
    rw [(Acceptances.createRequest_ok stored).2.2]
    exact ⟨⟨hI.assigned, hI.once, hI.deleting⟩, .refl _⟩
  | @transacted t _ ht stored =>
    have hchange := ho.transacted t ht
    refine ⟨?_, ?_⟩
    · cases hchange with
      | assigned principal workloadId organizationId =>
        exact assigned_owned hI (hquiet workloadId rfl (by rw [ht]; rfl)) stored
      | unassigned principal workloadId => exact unassigned_owned hI stored
    · rw [Acceptances.ownership_rest hchange stored]
      exact .refl _

/-- What the runners keep: that a workload being deleted has no owner. -/
theorem runner_protocol : Protocol (opMachine rt) undisturbed.ofRunners (fun w => Owned w.db)
    (fun θ p w => Agrees θ w.db ∧ Course rt θ p w.db) (fun w w' => Keeps w.db w'.db) where
  refl w := .refl w.db
  start m w _ _ := ⟨agrees_start m w.db, .waiting m rfl⟩
  step o k i θ θ' w w' r hI hL _ hexec := by
    obtain ⟨hagrees, hcourse⟩ := hL
    have heffect := exec_effect rt hexec
    have hid := (effect_sound heffect hagrees.sound).2.1
    cases hcourse with
    | waiting m program =>
      obtain ⟨kind, id⟩ := m
      obtain ⟨f, hf⟩ := program_enter rt kind id
      rw [hf] at program
      cases program
      obtain ⟨howned, hkeeps, hagrees'⟩ := effect_owned heffect hI hagrees fun e he => by cases he
      exact ⟨howned, hkeeps, hagrees', course_entered ⟨kind, id⟩ hf hagrees' r⟩
    | admitted f program rest =>
      cases program
      have hout : RunnerOp.session.exec rt i θ w = (θ', w', r) := Option.some.inj hexec
      cases hout
      exact ⟨hI, .refl _, hagrees, .onward rest⟩
    | onward rest =>
      obtain ⟨howned, hkeeps, hagrees'⟩ := effect_owned heffect hI hagrees rest.1.assigned
      refine ⟨howned, hkeeps, hagrees', .onward ?_⟩
      rw [hid]
      exact modest_mono (·.mono hkeeps) (rest.2 r)
  drop _ _ w hI _ _ := ⟨hI, .refl w.db⟩
  env w w' hI h := owned_env hI h
  stable _ _ _ _ hG hL := ⟨hL.1.mono hG, hL.2.mono hG⟩

/-- And what the requests do. -/
theorem request_protocol : Protocol (serviceMachine rt api) undisturbed.ofRequests
    (fun w => Owned w.db) (fun θ p _ => p.Only (Acceptances.Orderly θ.message))
    (fun w w' => Keeps w.db w'.db) where
  refl w := .refl w.db
  start m _ _ _ := Acceptances.orderly_service rt api m
  step o k i θ θ' w w' r hI hL hc hexec := by
    have heffect := service_effect o i θ.state w
    cases hexec
    obtain ⟨howned, hkeeps⟩ := service_owned heffect hL.1 hI hc.1 hc.2
    exact ⟨howned, hkeeps, hL.2 _⟩
  drop _ _ w hI _ _ := ⟨hI, .refl w.db⟩
  env w w' hI h := owned_env hI h
  stable _ _ _ _ _ hL := hL

/-- And the provisioning runner, where it gives no owner to a workload that is being deleted. -/
theorem provisioning_protocol : Protocol (provMachine rt) undisturbed.ofProvisioning
    (fun w => Owned w.db) (fun _ _ _ => True) (fun w w' => Keeps w.db w'.db) where
  refl w := .refl w.db
  start _ _ _ _ := trivial
  step o k i θ θ' w w' r hI _ hc hexec := by
    have heffect := (prov_step hexec).effect
    refine (fun h => ⟨h.1, h.2, trivial⟩ : Owned w'.db ∧ Keeps w.db w'.db → _) ?_
    generalize w'.db = db' at heffect ⊢
    cases heffect with
    | assigned | failed | loaded | stepsLoaded => exact ⟨hI, .refl _⟩
    | claimed | released => exact ⟨⟨hI.assigned, hI.once, hI.deleting⟩, .refl _⟩
    | @committed e db₁ edits commits live writes =>
      have hops : db₁.operations = w.db.operations := by rw [writes.rest]
      have hkeeps : Keeps w.db ((θ.assign rt.settings e).flush db₁) := by
        intro id q hq
        exact ⟨q, by rw [← hq, ← hops]; rfl, rfl, rfl⟩
      refine (fun h => ⟨⟨h.assigned, h.once, h.deleting⟩, hkeeps⟩ : Owned db₁ → _) ?_
      cases writes.owners with
      | same hworkloads hassignments =>
        refine hI.keep hassignments (fun id _ => ?_) fun q hq hd => ⟨q, by rw [← hops]; exact hq, hd, rfl⟩
        unfold Db.ownerOf
        rw [hworkloads]
      | assigned assigns request h =>
        exact assignedWorkload_owned hI (fun vmid wl hvmid hwl => hc assigns _ request vmid hvmid wl hwl) h
      | recorded owners hassignments =>
        refine hI.keep hassignments (fun id hid => ?_) fun q hq hd => ⟨q, by rw [← hops]; exact hq, hd, rfl⟩
        exact (owners id).resolve_right fun hnew => hid hnew.1
  drop _ _ w hI _ _ := ⟨hI, .refl _⟩
  env w w' hI h := owned_env hI h
  stable _ _ _ _ _ _ := trivial

end Protocols

/-- A delivery deletes the guest of its operation's workload, and that is unassigned. -/
def DeletesUnassigned (s : PlatformSys) : PlatformAction → Prop
  | .step pid _ =>
    match s.procs pid with
    | some (.inl (.inl θ), .node (.left (.left o)) _) => deletes o = true →
        ∃ op ∈ s.shared.db.operations, op.id = θ.operationId ∧ Unassigned s.shared.db op.workloadId ∧
          ∀ wl, θ.current.workload = some wl → wl.id = op.workloadId
    | _ => True
  | _ => True

/-- In such a state every deletion that is submitted is of a workload without an owner. -/
theorem deletes_holds {rt : Runtime} {L : ServiceProcess → Prog Exn ServiceOp Unit → World → Prop}
    {L' : ProvState → Prog Exn ProvOp Unit → World → Prop} {s : PlatformSys} {a : PlatformAction}
    (hs : s.Holds (fun w => Owned w.db)
      (Beside (Beside (fun θ p w => Agrees θ w.db ∧ Course rt θ p w.db) L) L'))
    (ha : undisturbed.conditions.Met s a) : DeletesUnassigned s a := by
  cases a with
  | spawn | crash | env => trivial
  | step pid i =>
    unfold DeletesUnassigned
    dsimp only
    split
    · next θ _ o k hp =>
      intro hd
      obtain ⟨p₁, hp₁, p₂, hp₂, hagrees, hcourse⟩ := hs.each pid _ _ hp
      obtain ⟨o₁, k₁, rfl, ho₁, -⟩ := Prog.rename_node hp₁
      obtain ⟨o₂, k₂, rfl, ho₂, -⟩ := Prog.rename_node hp₂
      rw [ho₂] at ho₁
      cases ho₁
      simp only [Conditions.Met, hp] at ha
      obtain ⟨op, hop, hopen⟩ := ha hd
      have hdoomed : Doomed s.shared.db θ.operationId := by
        cases hcourse with
        | waiting m program =>
          obtain ⟨kind, id⟩ := m
          obtain ⟨f, hf⟩ := program_enter rt kind id
          rw [hf] at program
          cases program
          cases hd
        | admitted f program _ =>
          cases program
          cases hd
        | onward rest => exact rest.1.deletion hd
      obtain ⟨op', hop', htype⟩ := hdoomed
      rw [hop] at hop'
      cases hop'
      refine ⟨op, Table.get?_mem hop, Table.get?_key hop,
        hs.shared.unassigned (Table.get?_mem hop) ⟨htype, hopen⟩, fun wl hwl => ?_⟩
      obtain ⟨op', hop', hid⟩ := hagrees.currentWorkload hwl
      rw [hop] at hop'
      cases hop'
      exact hid.symm
    · trivial

/-- **A guest is unassigned when it is deleted**, in every run of requests, runners and
provisioning that leaves the deletions undisturbed. -/
theorem deleted_unassigned (rt : Runtime) (api : Api) (w : World) (hw : Owned w.db)
    (actions : List PlatformAction)
    (hrun : Along (Sys.next (platform rt api)) undisturbed.conditions.Met (Sys.idle w) actions) :
    Along (Sys.next (platform rt api)) DeletesUnassigned (Sys.idle w) actions := by
  have hP := ((runner_protocol rt).beside (request_protocol rt api)).beside (provisioning_protocol rt)
  exact along_of_invariant (fun s a hs ha => (hP.holds_next hs (Custom.met_beside ha)).1)
    (fun s a hs ha => deletes_holds hs ha) (Sys.holds_idle hw) hrun

/-! A deletion as it is requested and run, and one whose workload is assigned meanwhile. -/

section Decide

instance (o : Operation) : Decidable (Deleting o) := inferInstanceAs (Decidable (_ ∧ _))

instance (db : Db) (id : Uuid) : Decidable (Undisturbed db id) :=
  inferInstanceAs (Decidable (∀ o ∈ db.operations.rows, _ → _))

instance (db : Db) (id : Uuid) : Decidable (Unassigned db id) :=
  decidable_of_iff ((∀ wl, db.workloads.get? id = some wl → wl.organizationId = none) ∧
      ∀ a ∈ db.assignments.rows, a.workloadId = id → a.revokedAt ≠ none)
    ⟨fun h => ⟨h.1, h.2⟩, fun h => ⟨h.owner, h.assignment⟩⟩

instance (db : Db) : Decidable (Owned db) :=
  decidable_of_iff ((∀ a ∈ db.assignments.rows, a.revokedAt = none →
        db.ownerOf a.workloadId = some (some a.organizationId)) ∧
      (∀ a ∈ db.assignments.rows, ∀ b ∈ db.assignments.rows, a.revokedAt = none →
        b.revokedAt = none → a.workloadId = b.workloadId → a = b) ∧
      ∀ o ∈ db.operations.rows, Deleting o → db.ownerOf o.workloadId = some none)
    ⟨fun h => ⟨h.1, h.2.1, h.2.2⟩, fun h => ⟨h.assigned, h.once, h.deleting⟩⟩

instance {ρ : Type} (o : RunnerOp ρ) (θ : OpState) (w : World) :
    Decidable (undisturbed.runner o θ w) :=
  inferInstanceAs (Decidable (_ → ∃ op, w.db.operations.get? θ.operationId = some op ∧ _))

instance {ρ : Type} (o : ServiceOp ρ) (θ : ServiceProcess) (w : World) :
    Decidable (undisturbed.service o θ w) := inferInstanceAs (Decidable (_ ∧ _))

instance {ρ : Type} (o : ProvOp ρ) (θ : ProvState) (w : World) :
    Decidable (undisturbed.provisioning o θ w) :=
  inferInstanceAs (Decidable (_ → ∀ r, θ.current.request = some r → _))

instance (w w' : World) : Decidable (undisturbed.outside w w') :=
  inferInstanceAs (Decidable (_ ∧ _ ∧ ∀ wl ∈ w.db.workloads.rows, _))

/-- A run deletes unassigned guests only. -/
instance (s : PlatformSys) (a : PlatformAction) : Decidable (DeletesUnassigned s a) :=
  match a with
  | .step pid _ =>
    show Decidable (match s.procs pid with
      | some (.inl (.inl θ), .node (.left (.left o)) _) => deletes o = true →
          ∃ op ∈ s.shared.db.operations, op.id = θ.operationId ∧
            Unassigned s.shared.db op.workloadId ∧
              ∀ wl, θ.current.workload = some wl → wl.id = op.workloadId
      | _ => True) from
    match s.procs pid with
    | some (.inl (.inl _), .node (.left (.left _)) _) =>
      inferInstanceAs (Decidable (_ → ∃ op ∈ s.shared.db.operations.rows, _ ∧ _ ∧ _))
    | none => .isTrue trivial
    | some (.inl (.inl _), .done _) => .isTrue trivial
    | some (.inl (.inl _), .node (.left (.right _)) _) => .isTrue trivial
    | some (.inl (.inl _), .node (.right _) _) => .isTrue trivial
    | some (.inl (.inr _), _) => .isTrue trivial
    | some (.inr _, _) => .isTrue trivial
  | .spawn .. | .crash _ | .env _ => .isTrue trivial

end Decide

/-- The sample world, with an organization. -/
def servedWorld : World :=
  { quietWorld with db := { quietWorld.db with organizations := .single ⟨1, true⟩ } }

/-- A process takes some actions, while its guest is stopped. -/
def taken (pid count : Nat) : List PlatformAction :=
  List.replicate count (.step pid (sampleInput "stopped"))

def deletion : PlatformMessage := .inl (jobOf "key" (.admin 1 (.delete "vm" none)))

/-- What the deletion is published as. -/
def delivery : PlatformMessage := .inl (.inl ⟨.power, 100⟩)

/-- A deletion that is requested and run. -/
def deleted : List PlatformAction :=
  .spawn 0 deletion :: taken 0 8 ++ .spawn 1 delivery :: taken 1 8

theorem deleted_unassigned_vm :
    Along (Sys.next (platform asciiRuntime plainApi)) DeletesUnassigned (Sys.idle servedWorld) deleted :=
  deleted_unassigned asciiRuntime plainApi servedWorld (by decide) deleted (by decide +kernel)

/-- The workload is assigned once its deletion has been accepted. -/
def deletedAssigned : List PlatformAction :=
  .spawn 0 deletion :: taken 0 8 ++ .spawn 2 (.inl (.inr (.assign administrator 1 1))) :: taken 2 2 ++
    .spawn 1 delivery :: taken 1 8

/-- **An assigned guest is deleted.** -/
theorem assigned_guest_deleted : Owned servedWorld.db ∧
    ¬ Along (Sys.next (platform asciiRuntime plainApi)) DeletesUnassigned (Sys.idle servedWorld)
      deletedAssigned := by
  refine ⟨by decide, ?_⟩
  decide +kernel

end PveMaster.Ownership
