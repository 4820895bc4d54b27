import PveMaster.Clusters.Inventory
import PveMaster.Foundation.Register

/-! A workload's organization and its assignments.

`organization_id` decides what a customer sees, the assignments that are not revoked decide
whether an organization can be deleted. `assign`, `unassign` and `_assign_organization` write
both, `_record_partial_workload`, `import_workloads` and the removal of a cluster neither.
Each is executed here as a whole, one after the other. -/
namespace PveMaster.Agreement
open Register

/-- An assignment, as an entry for its workload, open while it is not revoked. -/
def entryOf (a : WorkloadAssignment) : Entry Uuid Uuid := ⟨a.workloadId, a.organizationId, a.revokedAt.isNone⟩

def ownerIn (t : Table Workload) (k : Uuid) : Option Uuid := ((t.get? k).map Workload.organizationId).join

/-- What the workloads and the assignments say of the owners: the two records that are to agree.
-/
def register (db : Db) : Register Uuid Uuid Uuid where
  owner := ownerIn db.workloads
  entry k := (db.assignments.get? k).map entryOf

/-! ### The executions -/

/-- What writes one of them, each executed as a whole. -/
inductive Execution where
  | assign (principal : Principal) (workloadId organizationId : Uuid) (i : Input) (now : Instant)
  | unassign (principal : Principal) (workloadId : Uuid) (i : Input) (now : Instant)
  | importWorkloads (rt : Runtime) (principal : Principal) (clusterId : Uuid)
      (client : Except AppError Unit) (guests : Except Exn (List ClusterService.GuestResponse))
      (ids : List Uuid) (now : Instant)
  /-- A runner, with whatever its session holds. -/
  | assignOrganization (settings : Settings) (actor : User) (i : Input) (θ : ProvState) (now : Instant)
  | recordPartialWorkload (settings : Settings) (i : Input) (θ : ProvState) (now : Instant)
  | deleteCluster (principal : Principal) (clusterId : Uuid) (now : Instant)
  /-- A transaction on other tables. -/
  | other (f : Db → Db)

/-- What a transaction leaves: nothing, if it raises. -/
def committed (db : Db) : Except Exn Db → Db
  | .ok db' => db'
  | .error _ => db

def Execution.perform (db : Db) : Execution → Db
  | .assign principal workloadId organizationId i now => committed db do
    requireServiceRole principal [.superAdmin, .operator]
    WorkloadService.assigned principal workloadId organizationId i now db
  | .unassign principal workloadId i now => committed db do
    requireServiceRole principal [.superAdmin, .operator]
    WorkloadService.unassigned principal workloadId i now db
  | .importWorkloads rt principal clusterId client guests ids now =>
    committed db (ClusterService.importWorkloads rt principal clusterId client guests ids now db)
  | .assignOrganization settings actor i θ now =>
    (PveMaster.assignOrganization settings actor i θ ⟨db, now, [], []⟩).2.1.db
  | .recordPartialWorkload settings i θ now =>
    (PveMaster.recordPartialWorkload settings i θ ⟨db, now, [], []⟩).2.1.db
  | .deleteCluster principal clusterId now =>
    committed db (ClusterService.deleted principal clusterId now db)
  | .other f => { f db with workloads := db.workloads, assignments := db.assignments }

def run (db : Db) (executions : List Execution) : Db := executions.foldl Execution.perform db

/-- A database in which there is no workload yet, and no assignment. -/
def fresh (db : Db) : Db := { db with workloads := .empty, assignments := .empty }

/-! ### The owners in a table -/

section Owners
variable {t t' : Table Workload}

theorem ownerIn_some {k : Uuid} {wl : Workload} (h : t.get? k = some wl) : ownerIn t k = wl.organizationId := by
  unfold ownerIn
  rw [h]
  rfl

theorem ownerIn_none {k : Uuid} (h : t.get? k = none) : ownerIn t k = none := by
  unfold ownerIn
  rw [h]
  rfl

/-- The owners after one workload has been given another. -/
theorem ownerIn_update {workloadId : Uuid} {f : Workload → Workload} {wl : Workload}
    (hid : ∀ wl, (f wl).id = wl.id) (hget : t.get? workloadId = some wl) (k : Uuid) :
    ownerIn (t.update workloadId f) k = if k = workloadId then (f wl).organizationId else ownerIn t k := by
  split
  · next h =>
    rw [h]
    exact ownerIn_some (Table.get?_update_same hget (hid wl))
  · next h =>
    unfold ownerIn
    rw [Table.get?_update_of_ne _ h]

/-- A workload nobody owns is inserted. -/
theorem ownerIn_insert {wl : Workload} (h : t.insert wl = some t') (hnobody : wl.organizationId = none) (k : Uuid) :
    ownerIn t' k = ownerIn t k := by
  by_cases hk : k = wl.id
  · have hfresh : t.get? wl.id = none := Table.get?_eq_none.mpr (Table.insert_some h).2
    have hget : t'.get? wl.id = some wl := Table.get?_insert_same h
    rw [hk, ownerIn_some hget, ownerIn_none hfresh, hnobody]
  · unfold ownerIn
    rw [Table.get?_insert_of_ne h hk]

theorem ownerIn_alike (h : Table.Alike Workload.organizationId t t') (k : Uuid) : ownerIn t' k = ownerIn t k :=
  congrArg Option.join (h k)

theorem ownerIn_each {f : Workload → Workload} (hid : ∀ wl, (f wl).id = wl.id)
    (howner : ∀ wl, (f wl).organizationId = wl.organizationId) (k : Uuid) :
    ownerIn (t.each f) k = ownerIn t k := by
  refine ownerIn_alike (fun k => ?_) k
  rw [Table.get?_each t hid, Option.map_map]
  congr 1
  funext wl
  exact howner wl

end Owners

/-! ### What an execution does to the register -/

section Moves
variable {db db' : Db} {i : Input} {now : Instant}

theorem opened_iff {id k v : Uuid} : (register db).Opened id k v ↔
    ∃ a, db.assignments.get? id = some a ∧ a.workloadId = k ∧ a.organizationId = v ∧ a.revokedAt = none := by
  show (db.assignments.get? id).map entryOf = some ⟨k, v, true⟩ ↔ _
  rw [Option.map_eq_some_iff]
  refine exists_congr fun a => and_congr_right fun _ => ?_
  simp [entryOf]

theorem active_opened {workloadId : Uuid} {a : WorkloadAssignment}
    (h : activeAssignment db.assignments workloadId = some a) :
    (register db).Opened a.id workloadId a.organizationId := by
  obtain ⟨hmem, hfound⟩ := Table.first_some h
  have hfound : a.workloadId = workloadId ∧ a.revokedAt = none := by simpa using hfound
  exact opened_iff.mpr ⟨a, Table.get?_of_mem hmem, hfound.1, rfl, hfound.2⟩

theorem inactive_unopened {workloadId : Uuid} (h : activeAssignment db.assignments workloadId = none)
    (id v : Uuid) : ¬ (register db).Opened id workloadId v := by
  intro hopened
  obtain ⟨a, hget, hid, -, hrevoked⟩ := opened_iff.mp hopened
  have := Table.first_none h (Table.get?_mem hget)
  simp [hid, hrevoked] at this

theorem moves_of_owners (howner : ∀ k, ownerIn db'.workloads k = ownerIn db.workloads k)
    (hassignments : db'.assignments = db.assignments) : (register db).Moves (register db') := by
  refine .nothing howner (fun k => ?_)
  show (db'.assignments.get? k).map entryOf = _
  rw [hassignments]
  rfl

theorem moves_refl (db : Db) : (register db).Moves (register db) := .nothing (fun _ => rfl) (fun _ => rfl)

/-- A workload without an active assignment gets one, and its organization. -/
theorem moves_opens {a : WorkloadAssignment} (hinsert : db.assignments.insert a = some db'.assignments)
    (hopen : a.revokedAt = none) (hnone : activeAssignment db.assignments a.workloadId = none)
    (howner : ∀ k, (register db').owner k =
      if k = a.workloadId then some a.organizationId else (register db).owner k) :
    (register db).Moves (register db') := by
  have hfresh : db.assignments.get? a.id = none := Table.get?_eq_none.mpr (Table.insert_some hinsert).2
  refine .opens a.id a.workloadId a.organizationId ?_ (inactive_unopened hnone) howner (fun k => ?_)
  · show (db.assignments.get? a.id).map entryOf = none
    rw [hfresh]
    rfl
  · show (db'.assignments.get? k).map entryOf = _
    split
    · next h =>
      have hget : db'.assignments.get? a.id = some a := Table.get?_insert_same hinsert
      rw [h, hget, Option.map_some, entryOf, hopen]
      rfl
    · next h =>
      rw [Table.get?_insert_of_ne hinsert h]
      rfl

/-- `assign`. -/
theorem assigned_moves {principal : Principal} {workloadId organizationId : Uuid}
    (hok : WorkloadService.assigned principal workloadId organizationId i now db = .ok db') :
    (register db).Moves (register db') := by
  obtain ⟨workload, hlocked, hok⟩ := bind_ok.mp hok
  obtain ⟨organization, -, hok⟩ := bind_ok.mp hok
  obtain ⟨_, -, hok⟩ := bind_ok.mp hok
  have hget : db.workloads.get? workload.id = some workload := by
    have hfilter := orRaise_ok.mp hlocked
    exact Table.get?_of_mem (Table.get?_mem (Option.filter_eq_some_iff.mp hfilter).1)
  simp only at hok
  split at hok
  · obtain ⟨_, -, hok⟩ := bind_ok.mp hok
    cases hok
    exact moves_refl db
  · next hnone =>
    obtain ⟨_, -, hok⟩ := bind_ok.mp hok
    obtain ⟨assignments, hinsert, hok⟩ := bind_ok.mp hok
    have hinsert := orRaise_ok.mp hinsert
    cases hok
    exact moves_opens hinsert rfl hnone (ownerIn_update (fun _ => rfl) hget)

/-- `unassign`: where the two agree there is an assignment to revoke. -/
theorem unassigned_moves (h : (register db).Agreed) {principal : Principal} {workloadId : Uuid}
    (hok : WorkloadService.unassigned principal workloadId i now db = .ok db') :
    (register db).Moves (register db') := by
  obtain ⟨workload, hlocked, hok⟩ := bind_ok.mp hok
  have hget : db.workloads.get? workload.id = some workload := by
    have hfilter := orRaise_ok.mp hlocked
    exact Table.get?_of_mem (Table.get?_mem (Option.filter_eq_some_iff.mp hfilter).1)
  split at hok
  · cases hok
    exact moves_refl db
  · next organizationId horganization =>
    obtain ⟨_, -, hok⟩ := bind_ok.mp hok
    have howner : (register db).owner workload.id = some organizationId := (ownerIn_some hget).trans horganization
    cases hactive : activeAssignment db.assignments workload.id with
    | none =>
      obtain ⟨id, hopened⟩ := h.recorded _ _ howner
      exact absurd hopened (inactive_unopened hactive id _)
    | some assignment =>
      rw [hactive] at hok
      cases hok
      have hopened := active_opened hactive
      obtain ⟨a, hgeta, hid, -, -⟩ := opened_iff.mp hopened
      refine .closes assignment.id workload.id assignment.organizationId hopened
        (ownerIn_update (fun _ => rfl) hget) (fun k => ?_)
      show ((db.assignments.update assignment.id _).get? k).map entryOf = _
      split
      · next hk =>
        rw [hk, Table.get?_update_same hgeta rfl, Option.map_some]
        obtain ⟨b, hgetb, hworkload, horg, -⟩ := opened_iff.mp hopened
        rw [hgeta] at hgetb
        cases hgetb
        simp [entryOf, hworkload, horg]
      · next hk =>
        rw [Table.get?_update_of_ne _ hk]
        rfl

/-- `_assign_organization`, before its commit. -/
theorem assignedWorkload_moves (h : (register db).Agreed) {r : ProvisioningRequest} {actor : User} {id : Uuid}
    (hok : assignedWorkload db r actor i now = .ok (db', id)) : (register db).Moves (register db') := by
  obtain ⟨⟨workloads, workload⟩, hensure, hok⟩ := bind_ok.mp hok
  obtain ⟨assignments, hassignment, hok⟩ := bind_ok.mp hok
  -- the workload is there, or it is inserted
  obtain ⟨hget, hothers⟩ : workloads.get? workload.id = some workload ∧
      ∀ k, k ≠ workload.id → workloads.get? k = db.workloads.get? k := by
    obtain ⟨vmid, -, hensure⟩ := bind_ok.mp hensure
    split at hensure
    · next found hfound =>
      obtain ⟨_, -, hensure⟩ := bind_ok.mp hensure
      cases hensure
      exact ⟨Table.get?_of_mem (Table.first_some hfound).1, fun _ _ => rfl⟩
    · obtain ⟨node, -, hensure⟩ := bind_ok.mp hensure
      obtain ⟨cores, -, hensure⟩ := bind_ok.mp hensure
      obtain ⟨memory, -, hensure⟩ := bind_ok.mp hensure
      obtain ⟨disk, -, hensure⟩ := bind_ok.mp hensure
      obtain ⟨inserted, hinsert, hensure⟩ := bind_ok.mp hensure
      have hinsert := orRaise_ok.mp hinsert
      cases hensure
      exact ⟨Table.get?_insert_same hinsert, fun k hk => Table.get?_insert_of_ne hinsert hk⟩
  have howner (k : Uuid) : (register db').owner k =
      if k = workload.id then some r.organizationId else (register db).owner k := by
    have hworkloads : db'.workloads = workloads.update workload.id (fun v =>
        { v with organizationId := some r.organizationId, isPresent := true }) := by
      cases hok
      rfl
    show ownerIn db'.workloads k = _
    rw [hworkloads, @ownerIn_update _ _ (fun v =>
      { v with organizationId := some r.organizationId, isPresent := true }) _ (fun _ => rfl) hget k]
    split
    · rfl
    · next hne =>
      show ownerIn workloads k = ownerIn db.workloads k
      unfold ownerIn
      rw [hothers k hne]
  unfold ensureAssignment at hassignment
  split at hassignment
  · next assignment hactive =>
    -- it is assigned to this organization already, so it says so itself
    obtain ⟨_, hsame, hassignment⟩ := bind_ok.mp hassignment
    have hsame : assignment.organizationId = r.organizationId := not_not.mp (raiseIf_ok.mp hsame)
    cases hassignment
    have hopened := h.opened _ _ _ (active_opened hactive)
    refine .nothing (fun k => ?_) (fun k => ?_)
    · rw [howner k]
      split
      · next hk => rw [hk, hopened, hsame]
      · rfl
    · cases hok
      rfl
  · next hnone =>
    have hinsert := orRaise_ok.mp hassignment
    have hassignments : assignments = db'.assignments := by
      cases hok
      rfl
    rw [hassignments] at hinsert
    exact moves_opens hinsert rfl hnone howner

/-- A flush writes neither table. -/
theorem register_flush (θ : ProvState) (db : Db) : register (θ.flush db) = register db := rfl

theorem commit_db (θ : ProvState) (i : Input) (w : World) (db : Db) :
    (θ.commit i w db).2.1.db = w.db ∨ (θ.commit i w db).2.1.db = θ.flush db := by
  unfold ProvState.commit
  split
  · exact Or.inl rfl
  · split
    · exact Or.inl rfl
    · dsimp only
      split
      · exact Or.inl rfl
      · exact Or.inr rfl

theorem committing_db {α : Type} (a : α) (r : ProvState × World × Except Exn Unit) :
    (committing a r).2.1.db = r.2.1.db := by
  obtain ⟨θ, w, r⟩ := r
  cases r <;> rfl

theorem raising_db {α : Type} (θ : ProvState) (w : World) (e : Exn) :
    (θ.raising w e : ProvState × World × Except Exn α).2.1.db = w.db := by
  unfold ProvState.raising
  split <;> rfl

/-- `_assign_organization`. -/
theorem assignOrganization_moves (h : (register db).Agreed) (settings : Settings) (actor : User) (θ : ProvState)
    (w : World) (hw : w.db = db) :
    (register db).Moves (register (assignOrganization settings actor i θ w).2.1.db) := by
  subst hw
  unfold assignOrganization
  split
  · exact moves_refl _
  · split
    · rw [raising_db]
      exact moves_refl _
    · next db' id hassigned =>
      rw [committing_db]
      rcases commit_db (θ.assign settings (.workload id)) i w db' with hc | hc
      · rw [hc]
        exact moves_refl _
      · rw [hc, register_flush]
        exact assignedWorkload_moves h hassigned

/-- The insert of `_record_partial_workload` gives the workload to nobody. -/
theorem insertPartial_owners {t t' : Table Workload} {r : ProvisioningRequest} {vmid : Int}
    {node : ProvisioningNode} (hok : insertPartial t r vmid node i now = .ok t') (k : Uuid) :
    ownerIn t' k = ownerIn t k := by
  obtain ⟨cores, -, hok⟩ := bind_ok.mp hok
  obtain ⟨memory, -, hok⟩ := bind_ok.mp hok
  obtain ⟨disk, -, hok⟩ := bind_ok.mp hok
  split at hok
  · cases hok
    rfl
  · exact ownerIn_insert (orRaise_ok.mp hok) rfl k

theorem partialWorkload_moves {r : ProvisioningRequest} {θ : ProvState} {id : Uuid}
    (hok : partialWorkload θ db r i now = .ok (some (db', id))) : (register db).Moves (register db') := by
  unfold partialWorkload at hok
  split at hok
  · split at hok
    · cases hok
    · obtain ⟨workloads, hinsert, hok⟩ := bind_ok.mp hok
      have hmark := pure_ok.mp hok
      unfold markPartial at hmark
      split at hmark
      · cases hmark
      · next workload _ =>
        split at hmark
        · cases hmark
        · cases hmark
          refine moves_of_owners (fun k => ?_) rfl
          have hmarked : Table.Alike Workload.organizationId workloads (workloads.update workload.id (fun v =>
              { v with isPresent := true, observedAt := now })) := Table.alike_update _ fun _ => rfl
          exact (ownerIn_alike hmarked k).trans (insertPartial_owners hinsert k)
  · cases hok

/-- `_record_partial_workload` and its commit. -/
theorem recordPartialWorkload_moves (settings : Settings) (θ : ProvState) (w : World) :
    (register w.db).Moves (register (recordPartialWorkload settings i θ w).2.1.db) := by
  have kept (θ : ProvState) {db' : Db} (hm : (register w.db).Moves (register db')) :
      (register w.db).Moves (register (θ.commit i w db').2.1.db) := by
    rcases commit_db θ i w db' with hc | hc
    · rw [hc]
      exact moves_refl _
    · rw [hc, register_flush]
      exact hm
  unfold recordPartialWorkload
  split
  · exact moves_refl _
  · split
    · exact moves_refl _
    · exact kept θ (moves_refl _)
    · next hpartial => exact kept _ (partialWorkload_moves hpartial)

/-- An import leaves the owners, and gives new workloads to nobody. -/
theorem importGuests_added {rt : Runtime} {clusterId : Uuid} {existing : List Workload}
    {guests : List ClusterService.GuestResponse} {ids : List Uuid} {b b' : ClusterService.Import}
    (hok : ClusterService.importGuests rt clusterId existing now guests ids b = .ok b')
    (hb : ∀ wl ∈ b.added, wl.organizationId = none) : ∀ wl ∈ b'.added, wl.organizationId = none := by
  induction guests generalizing ids b with
  | nil =>
    cases hok
    exact hb
  | cons guest rest ih =>
    obtain ⟨item, -, hok⟩ := bind_ok.mp hok
    refine ih hok fun wl hwl => ?_
    unfold ClusterService.Import.add at hwl
    split at hwl
    · exact hb wl hwl
    · rcases List.mem_append.mp hwl with hwl | hwl
      · exact hb wl hwl
      · rw [List.mem_singleton.mp hwl]
        rfl

theorem store_owners {b : ClusterService.Import} {t t' : Table Workload} (hok : b.store t = .ok t')
    (hb : ∀ wl ∈ b.added, wl.organizationId = none) (k : Uuid) : ownerIn t' k = ownerIn t k := by
  have hupdated (changed : List (Workload × Workload)) (t : Table Workload) :
      ownerIn (changed.foldl (fun t c => t.update c.1.id (ClusterService.mergeImported c.1 c.2)) t) k =
        ownerIn t k := by
    induction changed generalizing t with
    | nil => rfl
    | cons c rest ih =>
      have halike : Table.Alike Workload.organizationId t
          (t.update c.1.id (ClusterService.mergeImported c.1 c.2)) := Table.alike_update _ fun _ => rfl
      rw [List.foldl_cons, ih]
      exact ownerIn_alike halike k
  have hinserted (added : List Workload) (t : Table Workload) (hadded : ∀ wl ∈ added, wl.organizationId = none)
      (h : added.foldlM (insertUnless Workload.clashes) t = some t') : ownerIn t' k = ownerIn t k := by
    induction added generalizing t with
    | nil =>
      cases h
      rfl
    | cons wl rest ih =>
      rw [List.foldlM_cons] at h
      obtain ⟨t₁, hinsert, h⟩ := Option.bind_eq_some_iff.mp h
      rw [ih t₁ (fun v hv => hadded v (List.mem_cons_of_mem _ hv)) h]
      exact ownerIn_insert (insertUnless_some hinsert).2 (hadded wl List.mem_cons_self) k
  rw [hinserted _ _ hb (orRaise_ok.mp hok), hupdated]

theorem imported_moves {rt : Runtime} {principal : Principal} {clusterId : Uuid}
    {guests : List ClusterService.GuestResponse} {ids : List Uuid}
    (hok : ClusterService.imported rt principal clusterId guests ids now db = .ok db') :
    (register db).Moves (register db') := by
  obtain ⟨_, -, hok⟩ := bind_ok.mp hok
  obtain ⟨b, hb, hok⟩ := bind_ok.mp hok
  obtain ⟨workloads, hstore, hok⟩ := bind_ok.mp hok
  cases hok
  exact moves_of_owners (store_owners (onIntegrity_ok.mp hstore)
    (importGuests_added hb fun _ h => absurd h List.not_mem_nil)) rfl

/-- The removal of a cluster. -/
theorem deleted_moves {principal : Principal} {clusterId : Uuid}
    (hok : ClusterService.deleted principal clusterId now db = .ok db') : (register db).Moves (register db') := by
  obtain ⟨_, -, hok⟩ := bind_ok.mp hok
  obtain ⟨cluster, -, hok⟩ := bind_ok.mp hok
  split at hok
  · cases hok
    exact moves_refl db
  · obtain ⟨_, -, hok⟩ := bind_ok.mp hok
    obtain ⟨credential, -, hok⟩ := bind_ok.mp hok
    cases hok
    refine moves_of_owners (ownerIn_each (fun wl => ?_) (fun wl => ?_)) rfl
    · unfold ClusterService.gone
      split <;> rfl
    · unfold ClusterService.gone
      split <;> rfl

end Moves

/-! ### Runs -/

theorem perform_moves {db : Db} (h : (register db).Agreed) (e : Execution) :
    (register db).Moves (register (e.perform db)) := by
  have transaction {x : Except Exn Db} (hok : ∀ db', x = .ok db' → (register db).Moves (register db')) :
      (register db).Moves (register (committed db x)) := by
    cases x with
    | ok db' => exact hok db' rfl
    | error e => exact moves_refl db
  cases e with
  | assign principal workloadId organizationId i now =>
    refine transaction fun db' hok => ?_
    obtain ⟨_, -, hok⟩ := bind_ok.mp hok
    exact assigned_moves hok
  | unassign principal workloadId i now =>
    refine transaction fun db' hok => ?_
    obtain ⟨_, -, hok⟩ := bind_ok.mp hok
    exact unassigned_moves h hok
  | importWorkloads rt principal clusterId client guests ids now =>
    refine transaction fun db' hok => ?_
    obtain ⟨_, -, hok⟩ := bind_ok.mp hok
    obtain ⟨_, -, hok⟩ := bind_ok.mp hok
    obtain ⟨items, -, hok⟩ := bind_ok.mp hok
    exact imported_moves hok
  | assignOrganization settings actor i θ now => exact assignOrganization_moves h settings actor θ _ rfl
  | recordPartialWorkload settings i θ now => exact recordPartialWorkload_moves settings θ ⟨db, now, [], []⟩
  | deleteCluster principal clusterId now => exact transaction fun db' hok => deleted_moves hok
  | other f => exact .nothing (fun _ => rfl) (fun _ => rfl)

theorem fresh_agreed (db : Db) : (register (fresh db)).Agreed where
  opened _ _ _ h := by
    obtain ⟨a, hget, -⟩ := opened_iff.mp h
    exact absurd (Table.get?_mem hget) (Table.not_mem_empty a)
  once _ _ _ _ _ h := by
    obtain ⟨a, hget, -⟩ := opened_iff.mp h
    exact absurd (Table.get?_mem hget) (Table.not_mem_empty a)
  recorded _ _ h := by cases h

/-- Where the two agree they still do after any executions, and what is closed stays closed. -/
theorem run_agreed {db : Db} (h : (register db).Agreed) (executions : List Execution) :
    (register (run db executions)).Agreed ∧ (register db).Settled (register (run db executions)) := by
  induction executions generalizing db with
  | nil => exact ⟨h, .refl _⟩
  | cons e rest ih =>
    have hmoves := perform_moves h e
    obtain ⟨hagreed, hsettled⟩ := ih (h.moves hmoves)
    exact ⟨hagreed, hmoves.settled.trans hsettled⟩

/-- An assignment of the workload that is not revoked, which is what an organization's deletion
counts. -/
def Unrevoked (db : Db) (workloadId : Uuid) (a : WorkloadAssignment) : Prop :=
  a ∈ db.assignments ∧ a.workloadId = workloadId ∧ a.revokedAt = none

/-- The organization of every workload is that of its only assignment that is not revoked. -/
structure AssignmentsAgree (db : Db) : Prop where
  assigned : ∀ w ∈ db.workloads, ∀ o, w.organizationId = some o ↔
    ∃ a, Unrevoked db w.id a ∧ a.organizationId = o ∧ ∀ b, Unrevoked db w.id b → b = a
  unassigned : ∀ w ∈ db.workloads, w.organizationId = none ↔ ∀ a, ¬ Unrevoked db w.id a

theorem opened_unrevoked {db : Db} {k v id : Uuid} : (register db).Opened id k v ↔
    ∃ a, Unrevoked db k a ∧ a.organizationId = v ∧ a.id = id := by
  rw [opened_iff]
  refine exists_congr fun a => ?_
  rw [Table.get?_eq_some]
  exact ⟨fun ⟨⟨hm, hid⟩, hk, hv, hr⟩ => ⟨⟨hm, hk, hr⟩, hv, hid⟩,
    fun ⟨⟨hm, hk, hr⟩, hv, hid⟩ => ⟨⟨hm, hid⟩, hk, hv, hr⟩⟩

theorem agree_of_register {db : Db} (h : (register db).Agreed) : AssignmentsAgree db := by
  have howner {w : Workload} (hw : w ∈ db.workloads) : (register db).owner w.id = w.organizationId :=
    ownerIn_some (Table.get?_of_mem hw)
  refine ⟨fun w hw o => ?_, fun w hw => ?_⟩
  · rw [← howner hw, h.owner_iff]
    constructor
    · rintro ⟨id, hopened, honce⟩
      obtain ⟨a, ha, ho, hid⟩ := opened_unrevoked.mp hopened
      refine ⟨a, ha, ho, fun b hb => ?_⟩
      have hsame : b.id = id := honce b.id b.organizationId (opened_unrevoked.mpr ⟨b, hb, rfl, rfl⟩)
      exact Table.eq_of_key hb.1 ha.1 (hsame.trans hid.symm)
    · rintro ⟨a, ha, ho, honce⟩
      refine ⟨a.id, opened_unrevoked.mpr ⟨a, ha, ho, rfl⟩, fun id v hopened => ?_⟩
      obtain ⟨b, hb, -, hid⟩ := opened_unrevoked.mp hopened
      rw [← hid, honce b hb]
  · rw [← howner hw, h.unowned_iff]
    constructor
    · intro hall a ha
      exact hall a.id a.organizationId (opened_unrevoked.mpr ⟨a, ha, rfl, rfl⟩)
    · intro hall id v hopened
      obtain ⟨a, ha, -⟩ := opened_unrevoked.mp hopened
      exact hall a ha

/-- **The organization of a workload and its assignments agree** after any executions, and
an assignment that has been revoked stays so. -/
theorem assignments_agree (db : Db) (before after : List Execution) :
    AssignmentsAgree (run (fresh db) before) ∧
      ∀ a ∈ (run (fresh db) before).assignments, a.revokedAt ≠ none →
        ∃ a' ∈ (run (fresh db) (before ++ after)).assignments, a'.id = a.id ∧ a'.revokedAt ≠ none := by
  obtain ⟨hagreed, -⟩ := run_agreed (fresh_agreed db) before
  refine ⟨agree_of_register hagreed, fun a ha hrevoked => ?_⟩
  have hentry : (register (run (fresh db) before)).entry a.id = some (entryOf a) := by
    show ((run (fresh db) before).assignments.get? a.id).map entryOf = _
    have hget : (run (fresh db) before).assignments.get? a.id = some a := Table.get?_of_mem ha
    rw [hget]
    rfl
  have hclosed : (entryOf a).isOpen = false := Option.isNone_eq_false_iff.mpr (Option.isSome_iff_ne_none.mpr hrevoked)
  have hrun : run (fresh db) (before ++ after) = run (run (fresh db) before) after := List.foldl_append
  have hlater := (run_agreed hagreed after).2 a.id (entryOf a) hentry hclosed
  rw [← hrun] at hlater
  obtain ⟨a', hget, hsame⟩ := Option.map_eq_some_iff.mp hlater
  obtain ⟨hmem, hid⟩ := Table.get?_eq_some.mp hget
  refine ⟨a', hmem, hid, fun hnone => ?_⟩
  have hopen := congrArg Entry.isOpen hsame
  rw [hclosed] at hopen
  simp [entryOf, hnone] at hopen

end PveMaster.Agreement
