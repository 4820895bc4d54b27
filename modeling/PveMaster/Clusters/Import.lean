import PveMaster.Clusters.Inventory
import PveMaster.Foundation.Batches
import PveMaster.Ipam.Service

/-! The import of a cluster's guests.

The loop checks a guest and writes it before it looks at the next one, and the commit comes
after the loop, so a refused guest leaves nothing behind. What is committed is told row by row:
a row that is there becomes what the guest of its VMID says (`settled`), and every other guest
gets a row of its own (`addedBy`). Neither depends on the order of the guests. -/
namespace PveMaster.ClusterService
open Table

/-- `WorkloadImportResponse`. -/
structure WorkloadImportResponse where
  clusterId : Uuid
  discovered : Nat
  created : Nat
  updated : Nat
  deriving DecidableEq

/-- What an import commits. -/
def importedDb (principal : Principal) (clusterId : Uuid) (db : Db) (workloads : Table Workload) : Db :=
  { db with
    workloads := workloads
    auditLogs := db.auditLogs ++ [clusterAudit principal "PVE_WORKLOADS_IMPORTED" clusterId] }

/-- `import_workloads`, with what it leaves committed and what it answers. -/
def importOutcome (rt : Runtime) (principal : Principal) (clusterId : Uuid) (client : Except AppError Unit)
    (guests : Except Exn (List GuestResponse)) (ids : List Uuid) (now : Instant) (db : Db) :
    Outcome WorkloadImportResponse :=
  .of db do
    requireServiceRole principal [.superAdmin, .operator]
    snapshotCheck client clusterId db
    let guests ← guests
    discard (orRaise (db.clusters.get? clusterId) (.app clusterNotFound))
    let existing := db.workloads.select (·.clusterId == clusterId)
    let b ← importGuests rt clusterId existing now guests ids {}
    let workloads ← onIntegrity importConflict (b.store db.workloads)
    return ⟨importedDb principal clusterId db workloads,
      .ok ⟨clusterId, guests.length, b.added.length, b.changed.length⟩⟩

/-- It is the transaction `importWorkloads`. -/
theorem importOutcome_transaction (rt : Runtime) (principal : Principal) (clusterId : Uuid)
    (client : Except AppError Unit) (guests : Except Exn (List GuestResponse)) (ids : List Uuid) (now : Instant)
    (db : Db) : importWorkloads rt principal clusterId client guests ids now db =
      (importOutcome rt principal clusterId client guests ids now db).result.map
        fun _ => (importOutcome rt principal clusterId client guests ids now db).db := by
  unfold importWorkloads importOutcome imported
  cases requireServiceRole principal [.superAdmin, .operator] with
  | error e => rfl
  | ok _ =>
    cases snapshotCheck client clusterId db with
    | error e => rfl
    | ok _ =>
      cases guests with
      | error e => rfl
      | ok guests =>
        simp only [bind, Except.bind]
        cases discard (orRaise (db.clusters.get? clusterId) (.app clusterNotFound)) with
        | error e => rfl
        | ok _ =>
          dsimp only
          cases importGuests rt clusterId (db.workloads.select (·.clusterId == clusterId)) now guests ids {} with
          | error e => rfl
          | ok b =>
            dsimp only
            cases onIntegrity importConflict (b.store db.workloads) <;> rfl

/-! ### The guests -/

/-- The checks of one guest by itself. -/
def observed (rt : Runtime) (guest : GuestResponse) : Option GuestItem := (importItem rt [] guest).toOption

/-- A guest passes if it can be observed and its VMID is not among those already seen. -/
theorem importItem_ok {rt : Runtime} {seen : List Int} {guest : GuestResponse} {item : GuestItem} :
    importItem rt seen guest = .ok item ↔ observed rt guest = some item ∧ guest.vmid ∉ seen := by
  unfold observed importItem
  cases importedKind rt guest with
  | none => simp [Except.toOption]
  | some kind =>
    cases guest.node with
    | none => simp [Except.toOption]
    | some node =>
      dsimp only
      by_cases hseen : guest.vmid ∈ seen
      · simp [hseen]
      · simp only [hseen, List.not_mem_nil, false_or, not_false_eq_true, and_true]
        split <;> simp [Except.toOption]

theorem observed_vmid {rt : Runtime} {guest : GuestResponse} {item : GuestItem} (h : observed rt guest = some item) :
    item.vmid = guest.vmid := by
  have hok : importItem rt [] guest = .ok item := importItem_ok.mpr ⟨h, List.not_mem_nil⟩
  unfold importItem at hok
  split at hok
  · split at hok
    · cases hok
    · cases hok
      rfl
  · cases hok

/-- The workload of a VMID among those that were loaded. -/
def workloadAt (existing : List Workload) (vmid : Int) : Option Workload := existing.find? (·.vmid == vmid)

/-- The rows that the guests change. -/
def changedBy (existing : List Workload) (now : Instant) (items : List GuestItem) : List (Workload × Workload) :=
  items.filterMap fun g => (workloadAt existing g.vmid).map fun w => (w, g.onto now w)

/-- The rows that are new, each with the identifier drawn for its guest. -/
def addedBy (existing : List Workload) (clusterId : Uuid) (now : Instant) : List GuestItem → List Uuid → List Workload
  | [], _ => []
  | g :: rest, ids =>
    match workloadAt existing g.vmid with
    | some _ => addedBy existing clusterId now rest ids.tail
    | none => g.row (ids.headD 0) clusterId now :: addedBy existing clusterId now rest ids.tail

/-- One guest more. -/
theorem add_rows (b : Import) (clusterId : Uuid) (existing : List Workload) (now : Instant) (ids : List Uuid)
    (item : GuestItem) (items : List GuestItem) :
    (b.add clusterId existing now (ids.headD 0) item).changed ++ changedBy existing now items =
        b.changed ++ changedBy existing now (item :: items) ∧
      (b.add clusterId existing now (ids.headD 0) item).added ++ addedBy existing clusterId now items ids.tail =
        b.added ++ addedBy existing clusterId now (item :: items) ids ∧
      (b.add clusterId existing now (ids.headD 0) item).seen = item.vmid :: b.seen := by
  unfold Import.add changedBy
  rw [addedBy, List.filterMap_cons]
  have hfind : existing.find? (·.vmid == item.vmid) = workloadAt existing item.vmid := rfl
  rw [hfind]
  cases workloadAt existing item.vmid with
  | some w => simp
  | none => simp

/-- **The loop** goes through when every guest passes and no two have one VMID. -/
theorem importGuests_ok {rt : Runtime} {clusterId : Uuid} {existing : List Workload} {now : Instant}
    {guests : List GuestResponse} {ids : List Uuid} {b b' : Import} :
    importGuests rt clusterId existing now guests ids b = .ok b' ↔
      ∃ items, guests.map (observed rt) = items.map some ∧ (items.map GuestItem.vmid).Nodup ∧
        (∀ g ∈ items, g.vmid ∉ b.seen) ∧ b'.changed = b.changed ++ changedBy existing now items ∧
          b'.added = b.added ++ addedBy existing clusterId now items ids ∧
            b'.seen = (items.map GuestItem.vmid).reverse ++ b.seen := by
  induction guests generalizing ids b with
  | nil =>
    constructor
    · intro h
      cases h
      exact ⟨[], rfl, List.nodup_nil, fun _ hg => absurd hg List.not_mem_nil, by simp [changedBy], by simp [addedBy],
        rfl⟩
    · rintro ⟨items, hitems, -, -, hchanged, hadded, hseen⟩
      cases List.map_eq_nil_iff.mp hitems.symm
      simp only [changedBy, addedBy, List.filterMap_nil, List.append_nil, List.map_nil, List.reverse_nil,
        List.nil_append] at hchanged hadded hseen
      cases b
      cases b'
      cases hchanged
      cases hadded
      cases hseen
      rfl
  | cons guest rest ih =>
    simp only [importGuests, bind_ok, importItem_ok]
    constructor
    · rintro ⟨item, ⟨hobserved, hnew⟩, h⟩
      obtain ⟨items, hitems, hnodup, hapart, hchanged, hadded, hseen⟩ := ih.mp h
      obtain ⟨hchanges, hadds, hsees⟩ := add_rows b clusterId existing now ids item items
      have hvmid := observed_vmid hobserved
      rw [hsees] at hapart hseen
      refine ⟨item :: items, by rw [List.map_cons, List.map_cons, hobserved, hitems], ?_, ?_,
        hchanged.trans hchanges, hadded.trans hadds, by simp [hseen]⟩
      · rw [List.map_cons, List.nodup_cons]
        refine ⟨fun hmem => ?_, hnodup⟩
        obtain ⟨g, hg, hsame⟩ := List.mem_map.mp hmem
        exact hapart g hg (by rw [hsame]; exact List.mem_cons_self)
      · intro g hg
        rcases List.mem_cons.mp hg with rfl | hg
        · rwa [hvmid]
        · exact fun hmem => hapart g hg (List.mem_cons_of_mem _ hmem)
    · rintro ⟨items, hitems, hnodup, hapart, hchanged, hadded, hseen⟩
      cases items with
      | nil => cases hitems
      | cons item items =>
        rw [List.map_cons, List.map_cons, List.cons.injEq] at hitems
        obtain ⟨hobserved, hitems⟩ := hitems
        obtain ⟨hchanges, hadds, hsees⟩ := add_rows b clusterId existing now ids item items
        have hvmid := observed_vmid hobserved
        rw [List.map_cons, List.nodup_cons] at hnodup
        refine ⟨item, ⟨hobserved, ?_⟩, ih.mpr ⟨items, hitems, hnodup.2, ?_, hchanged.trans hchanges.symm,
          hadded.trans hadds.symm, by rw [hseen, hsees]; simp⟩⟩
        · rw [← hvmid]
          exact hapart item List.mem_cons_self
        · intro g hg hmem
          rw [hsees] at hmem
          rcases List.mem_cons.mp hmem with hsame | hmem
          · exact hnodup.1 (List.mem_map.mpr ⟨g, hg, hsame⟩)
          · exact hapart g (List.mem_cons_of_mem _ hg) hmem

/-! ### What is stored -/

/-- `UniqueConstraint("cluster_id", "vmid")`. -/
def VmidsUnique (t : Table Workload) : Prop :=
  ∀ w ∈ t, ∀ q ∈ t, w.clusterId = q.clusterId → w.vmid = q.vmid → w = q

/-- What the import makes of a row that is there. -/
def settled (clusterId : Uuid) (now : Instant) (items : List GuestItem) (w : Workload) : Workload :=
  if w.clusterId = clusterId then ((items.find? (·.vmid == w.vmid)).map fun g => g.onto now w).getD w else w

/-- The rows an import loads. -/
def existingIn (t : Table Workload) (clusterId : Uuid) : List Workload := t.select (·.clusterId == clusterId)

/-- What is stored of the items of an import. -/
structure Stored (clusterId : Uuid) (now : Instant) (items : List GuestItem) (ids : List Uuid)
    (t t' : Table Workload) : Prop where
  kept : ∀ k w, t.get? k = some w → t'.get? k = some (settled clusterId now items w)
  added : ∀ w, w ∈ t' ∧ t.get? w.id = none ↔ w ∈ addedBy (existingIn t clusterId) clusterId now items ids

section Rows
variable {clusterId : Uuid} {now : Instant} {items : List GuestItem} {ids : List Uuid} {t t' : Table Workload}

/-- The dictionary of the existing rows holds, under each VMID, the row of the cluster that has
it. -/
theorem workloadAt_iff (hunique : VmidsUnique t) {vmid : Int} {w : Workload} :
    workloadAt (existingIn t clusterId) vmid = some w ↔ w ∈ t ∧ w.clusterId = clusterId ∧ w.vmid = vmid := by
  constructor
  · intro h
    obtain ⟨hmem, hcluster⟩ := Table.mem_select.mp (List.mem_of_find?_eq_some h)
    have hvmid := List.find?_some (p := fun q : Workload => q.vmid == vmid) h
    exact ⟨hmem, beq_iff_eq.mp hcluster, beq_iff_eq.mp hvmid⟩
  · rintro ⟨hmem, hcluster, rfl⟩
    cases hfound : workloadAt (existingIn t clusterId) w.vmid with
    | some q =>
      obtain ⟨hq, hcluster'⟩ := Table.mem_select.mp (List.mem_of_find?_eq_some hfound)
      have hvmid := List.find?_some (p := fun q : Workload => q.vmid == w.vmid) hfound
      rw [hunique q hq w hmem ((beq_iff_eq.mp hcluster').trans hcluster.symm) (beq_iff_eq.mp hvmid)]
    | none =>
      have hnot := List.find?_eq_none.mp hfound w (Table.mem_select.mpr ⟨hmem, beq_iff_eq.mpr hcluster⟩)
      exact absurd (beq_self_eq_true _) hnot

/-- And nothing where there is no such row. -/
theorem workloadAt_none {vmid : Int} : workloadAt (existingIn t clusterId) vmid = none ↔
    ∀ w ∈ t, w.clusterId = clusterId → w.vmid ≠ vmid := by
  unfold workloadAt
  rw [List.find?_eq_none]
  constructor
  · intro h w hw hcluster hvmid
    exact h w (Table.mem_select.mpr ⟨hw, beq_iff_eq.mpr hcluster⟩) (beq_iff_eq.mpr hvmid)
  · intro h w hw hvmid
    obtain ⟨hmem, hcluster⟩ := Table.mem_select.mp hw
    exact h w hmem (beq_iff_eq.mp hcluster) (beq_iff_eq.mp hvmid)

/-- The rows that are changed, each with what becomes of it. -/
theorem mem_changedBy {existing : List Workload} {c : Workload × Workload} : c ∈ changedBy existing now items ↔
    ∃ g ∈ items, workloadAt existing g.vmid = some c.1 ∧ c.2 = g.onto now c.1 := by
  unfold changedBy
  rw [List.mem_filterMap]
  apply exists_congr
  intro g
  apply and_congr_right
  intro _
  rw [Option.map_eq_some_iff]
  constructor
  · rintro ⟨w, hw, rfl⟩
    exact ⟨hw, rfl⟩
  · rintro ⟨hw, hc⟩
    exact ⟨c.1, hw, by rw [← hc]⟩

/-- Guests with different VMIDs change different rows. -/
theorem changedBy_distinct (hunique : VmidsUnique t) (hitems : (items.map GuestItem.vmid).Nodup) :
    ((changedBy (existingIn t clusterId) now items).map fun c => c.1.id).Nodup := by
  induction items with
  | nil => exact List.nodup_nil
  | cons g rest ih =>
    obtain ⟨hnew, hrest⟩ := List.nodup_cons.mp hitems
    have hcons : changedBy (existingIn t clusterId) now (g :: rest) =
        ((workloadAt (existingIn t clusterId) g.vmid).map fun w => (w, g.onto now w)).toList ++
          changedBy (existingIn t clusterId) now rest := by
      unfold changedBy
      rw [List.filterMap_cons]
      split <;> next hfound => simp [hfound]
    rw [hcons]
    cases hfound : workloadAt (existingIn t clusterId) g.vmid with
    | none => exact ih hrest
    | some w =>
      show (w.id :: (changedBy (existingIn t clusterId) now rest).map fun c => c.1.id).Nodup
      refine List.nodup_cons.mpr ⟨fun hmem => ?_, ih hrest⟩
      obtain ⟨c, hc, hid⟩ := List.mem_map.mp hmem
      obtain ⟨g', hg', hfound', -⟩ := mem_changedBy.mp hc
      obtain ⟨hw, -, hvmid⟩ := (workloadAt_iff hunique).mp hfound
      obtain ⟨hw', -, hvmid'⟩ := (workloadAt_iff hunique).mp hfound'
      rw [Table.eq_of_key hw' hw hid] at hvmid'
      exact hnew (List.mem_map.mpr ⟨g', hg', hvmid'.symm.trans hvmid⟩)

/-- Nobody else has written the row meanwhile. -/
theorem mergeImported_alone (g : GuestItem) (now : Instant) (w : Workload) :
    mergeImported w (g.onto now w) w = g.onto now w := by
  simp only [mergeImported, GuestItem.onto, written_fresh]

variable (clusterId now) in
/-- The updates of an import, row by row. -/
theorem updates_settle (hunique : VmidsUnique t) (hitems : (items.map GuestItem.vmid).Nodup) (k : Uuid) :
    ((changedBy (existingIn t clusterId) now items).foldl
      (fun t c => t.update c.1.id (mergeImported c.1 c.2)) t).get? k = (t.get? k).map (settled clusterId now items) := by
  rw [Table.get?_foldl_update (k := fun c : Workload × Workload => c.1.id) (f := fun c => mergeImported c.1 c.2)
    (fun _ _ => rfl) (changedBy_distinct hunique hitems)]
  cases hget : t.get? k with
  | none => rfl
  | some w =>
    have hw := Table.get?_mem hget
    have hk : w.id = k := Table.get?_key hget
    rw [Option.map_some, Option.map_some]
    congr 1
    unfold settled
    by_cases hlisted : w.clusterId = clusterId ∧ ∃ g ∈ items, g.vmid = w.vmid
    · obtain ⟨hcluster, g, hg, hvmid⟩ := hlisted
      have hfind : items.find? (·.vmid == w.vmid) = some g := by
        rw [← hvmid]
        exact Table.find?_of_mem hitems hg
      have hmem : (w, g.onto now w) ∈ changedBy (existingIn t clusterId) now items :=
        mem_changedBy.mpr ⟨g, hg, (workloadAt_iff hunique).mpr ⟨hw, hcluster, hvmid.symm⟩, rfl⟩
      have hfound : (changedBy (existingIn t clusterId) now items).find? (fun c => c.1.id == k) =
          some (w, g.onto now w) := by
        rw [← hk]
        exact Table.find?_of_mem (f := fun c : Workload × Workload => c.1.id) (changedBy_distinct hunique hitems) hmem
      rw [hfound, if_pos hcluster, hfind]
      exact mergeImported_alone g now w
    · have hnone : (changedBy (existingIn t clusterId) now items).find? (fun c => c.1.id == k) = none := by
        rw [List.find?_eq_none]
        intro c hc hid
        obtain ⟨g, hg, hfound, -⟩ := mem_changedBy.mp hc
        obtain ⟨hmem, hcluster, hvmid⟩ := (workloadAt_iff hunique).mp hfound
        have hsame : c.1 = w := Table.eq_of_key hmem hw ((beq_iff_eq.mp hid).trans hk.symm)
        rw [hsame] at hcluster hvmid
        exact hlisted ⟨hcluster, g, hg, hvmid.symm⟩
      rw [hnone]
      split
      · next hcluster =>
        have hfind : items.find? (·.vmid == w.vmid) = none := by
          rw [List.find?_eq_none]
          intro g hg hvmid
          exact hlisted ⟨hcluster, g, hg, beq_iff_eq.mp hvmid⟩
        rw [hfind]
        rfl
      · rfl

/-- Settling keeps the identifier of a row. -/
theorem settled_id (w : Workload) : (settled clusterId now items w).id = w.id := by
  unfold settled
  split
  · cases items.find? (·.vmid == w.vmid) <;> rfl
  · rfl

/-- **What an import stores.** -/
theorem store_ok {b : Import} (hunique : VmidsUnique t) (hitems : (items.map GuestItem.vmid).Nodup)
    (hchanged : b.changed = changedBy (existingIn t clusterId) now items)
    (hadded : b.added = addedBy (existingIn t clusterId) clusterId now items ids) (h : b.store t = .ok t') :
    Stored clusterId now items ids t t' := by
  unfold Import.store at h
  rw [orRaise_ok, hchanged, hadded] at h
  obtain ⟨hmem, hnew⟩ := Table.foldlM_insertUnless_some h
  have hupdated := updates_settle clusterId now hunique hitems
  constructor
  · intro k w hget
    have hk := Table.get?_key hget
    have hsettled := hupdated k
    rw [hget] at hsettled
    have hin := (hmem _).mpr (Or.inl (Table.get?_mem hsettled))
    exact Table.get?_eq_some.mpr ⟨hin, (settled_id w).trans hk⟩
  · intro w
    rw [hmem]
    constructor
    · rintro ⟨hold | hadd, hnone⟩
      · have hsettled := hupdated w.id
        have hget : (_ : Table Workload).get? w.id = some w := Table.get?_of_mem hold
        rw [hnone, hget] at hsettled
        cases hsettled
      · exact hadd
    · intro hadd
      refine ⟨Or.inr hadd, ?_⟩
      have hsettled := hupdated w.id
      have hget : (_ : Table Workload).get? w.id = none := hnew w hadd
      rw [hget] at hsettled
      exact Option.map_eq_none_iff.mp hsettled.symm

/-! ### New rows -/

/-- The rows that are added: of guests that had none. -/
theorem mem_addedBy {existing : List Workload} {w : Workload} (h : w ∈ addedBy existing clusterId now items ids) :
    ∃ g ∈ items, workloadAt existing g.vmid = none ∧ ∃ id, w = g.row id clusterId now := by
  induction items generalizing ids with
  | nil => cases h
  | cons g rest ih =>
    rw [addedBy] at h
    cases hfound : workloadAt existing g.vmid with
    | some q =>
      rw [hfound] at h
      obtain ⟨g', hg', hrest⟩ := ih h
      exact ⟨g', List.mem_cons_of_mem _ hg', hrest⟩
    | none =>
      rw [hfound] at h
      rcases List.mem_cons.mp h with rfl | h
      · exact ⟨g, List.mem_cons_self, hfound, _, rfl⟩
      · obtain ⟨g', hg', hrest⟩ := ih h
        exact ⟨g', List.mem_cons_of_mem _ hg', hrest⟩

variable (clusterId now) in
/-- Every guest that is new gets a row. -/
theorem addedBy_mem {existing : List Workload} {g : GuestItem} (hg : g ∈ items)
    (hnew : workloadAt existing g.vmid = none) (ids : List Uuid) :
    ∃ id, g.row id clusterId now ∈ addedBy existing clusterId now items ids := by
  induction items generalizing ids with
  | nil => cases hg
  | cons g' rest ih =>
    rw [addedBy]
    rcases List.mem_cons.mp hg with rfl | hg
    · rw [hnew]
      exact ⟨_, List.mem_cons_self⟩
    · obtain ⟨id, hid⟩ := ih hg ids.tail
      cases workloadAt existing g'.vmid with
      | some q => exact ⟨id, hid⟩
      | none => exact ⟨id, List.mem_cons_of_mem _ hid⟩

variable (clusterId now) in
/-- They have the VMIDs of their guests, each once, in the order of the list. -/
theorem addedBy_vmids (existing : List Workload) (items : List GuestItem) (ids : List Uuid) :
    ((addedBy existing clusterId now items ids).map Workload.vmid).Sublist (items.map GuestItem.vmid) := by
  induction items generalizing ids with
  | nil => exact List.Sublist.refl _
  | cons g rest ih =>
    rw [addedBy]
    cases workloadAt existing g.vmid with
    | some q => exact (ih ids.tail).cons _
    | none => exact (ih ids.tail).cons_cons _

variable (clusterId now) in
/-- Each has an identifier of its own. -/
theorem addedBy_ids (existing : List Workload) (items : List GuestItem) {ids : List Uuid}
    (h : items.length ≤ ids.length) :
    ((addedBy existing clusterId now items ids).map Workload.id).Sublist ids := by
  induction items generalizing ids with
  | nil => exact List.nil_sublist _
  | cons g rest ih =>
    cases ids with
    | nil => cases h
    | cons id ids =>
      rw [addedBy]
      have hrest := @ih ids (Nat.le_of_succ_le_succ h)
      cases workloadAt existing g.vmid with
      | some q => exact hrest.cons _
      | none => exact hrest.cons_cons _

variable (clusterId now) in
/-- A guest is counted once. -/
theorem length_rows (existing : List Workload) (items : List GuestItem) (ids : List Uuid) :
    (addedBy existing clusterId now items ids).length + (changedBy existing now items).length = items.length := by
  induction items generalizing ids with
  | nil => rfl
  | cons g rest ih =>
    have hrest := ih ids.tail
    unfold changedBy at hrest ⊢
    rw [addedBy, List.filterMap_cons]
    cases workloadAt existing g.vmid with
    | some q =>
      simp only [Option.map_some, List.length_cons]
      omega
    | none =>
      simp only [Option.map_none, List.length_cons]
      omega

/-- Identifiers as `uuid4` draws them: enough of them, all different, none in use. -/
structure Drawn (ids : List Uuid) (n : Nat) (t : Table Workload) : Prop where
  enough : n ≤ ids.length
  distinct : ids.Nodup
  unused : ∀ id ∈ ids, t.get? id = none

variable (clusterId now items) in
/-- Nor does an import change a cluster, a VMID or an owner. -/
theorem settled_keys (w : Workload) : (settled clusterId now items w).clusterId = w.clusterId ∧
    (settled clusterId now items w).vmid = w.vmid ∧
      (settled clusterId now items w).organizationId = w.organizationId := by
  unfold settled
  split
  · cases items.find? (·.vmid == w.vmid) <;> exact ⟨rfl, rfl, rfl⟩
  · exact ⟨rfl, rfl, rfl⟩

/-- With such identifiers nothing is refused. -/
theorem store_succeeds {b : Import} (hunique : VmidsUnique t) (hitems : (items.map GuestItem.vmid).Nodup)
    (hdrawn : Drawn ids items.length t) (hchanged : b.changed = changedBy (existingIn t clusterId) now items)
    (hadded : b.added = addedBy (existingIn t clusterId) clusterId now items ids) : ∃ t', b.store t = .ok t' := by
  unfold Import.store
  rw [hchanged, hadded]
  have hupdated := updates_settle clusterId now hunique hitems
  have hids := addedBy_ids clusterId now (existingIn t clusterId) items hdrawn.enough
  have hvmids := (addedBy_vmids clusterId now (existingIn t clusterId) items ids).nodup hitems
  have hrows : ∃ t', (addedBy (existingIn t clusterId) clusterId now items ids).foldlM (insertUnless Workload.clashes)
      ((changedBy (existingIn t clusterId) now items).foldl
        (fun t c => t.update c.1.id (mergeImported c.1 c.2)) t) = some t' := by
    apply Table.foldlM_insertUnless_new
    · intro r hr
      have hunused := hdrawn.unused r.id (hids.subset (List.mem_map.mpr ⟨r, hr, rfl⟩))
      have hget := hupdated r.id
      rw [hunused] at hget
      exact hget
    · exact hids.nodup hdrawn.distinct
    · intro r hr q hq
      obtain ⟨g, -, hnone, id, rfl⟩ := mem_addedBy hr
      have hget := hupdated q.id
      have hq' : (_ : Table Workload).get? q.id = some q := Table.get?_of_mem hq
      rw [hq'] at hget
      obtain ⟨w, hw, hsettled⟩ := Option.map_eq_some_iff.mp hget.symm
      obtain ⟨hkeepsCluster, hkeepsVmid, -⟩ := settled_keys clusterId now items w
      by_contra hclash
      simp only [Workload.clashes, Bool.not_eq_false, Bool.and_eq_true, beq_iff_eq] at hclash
      rw [← hsettled, hkeepsCluster, hkeepsVmid] at hclash
      exact workloadAt_none.mp hnone w (Table.get?_mem hw) hclash.1 hclash.2
    · rw [List.Nodup, List.pairwise_map] at hvmids
      refine hvmids.imp fun {q r} hne => ?_
      simp only [Workload.clashes, Bool.and_eq_false_iff, beq_eq_false_iff_ne]
      exact Or.inr hne
  obtain ⟨t', ht'⟩ := hrows
  exact ⟨t', orRaise_ok.mpr ht'⟩

/-! ### What an import comes to -/

/-- What a row takes over of a guest. -/
structure Shows (rt : Runtime) (now : Instant) (guest : GuestResponse) (w : Workload) : Prop where
  node : some w.node = guest.node
  kind : some w.kind = importedKind rt guest
  name : w.name = guest.name
  powerState : w.powerState = importedPowerState rt guest
  cpuCores : w.cpuCores = guest.maxcpu
  memoryBytes : w.memoryBytes = guest.maxmem
  diskBytes : w.diskBytes = guest.maxdisk
  isTemplate : w.isTemplate = guest.template.any (· != 0)
  isPresent : w.isPresent = true
  observedAt : w.observedAt = now

variable (clusterId now) in
/-- What an import writes of a guest is what the guest shows. -/
theorem observed_shows {rt : Runtime} {guest : GuestResponse} {g : GuestItem} (h : observed rt guest = some g) :
    (∀ w, Shows rt now guest (g.onto now w)) ∧ ∀ id, Shows rt now guest (g.row id clusterId now) := by
  have hok : importItem rt [] guest = .ok g := importItem_ok.mpr ⟨h, List.not_mem_nil⟩
  unfold importItem at hok
  split at hok
  · next kind node hkind hnode =>
    split at hok
    · cases hok
    · cases hok
      constructor
      · intro w
        exact ⟨hnode.symm, hkind.symm, rfl, rfl, rfl, rfl, rfl, rfl, rfl, rfl⟩
      · intro id
        exact ⟨hnode.symm, hkind.symm, rfl, rfl, rfl, rfl, rfl, rfl, rfl, rfl⟩
  · cases hok

/-- A row of the cluster becomes what the guest of its VMID shows. -/
theorem settled_listed (hitems : (items.map GuestItem.vmid).Nodup) {g : GuestItem} (hg : g ∈ items) {w : Workload}
    (hcluster : w.clusterId = clusterId) (hvmid : w.vmid = g.vmid) : settled clusterId now items w = g.onto now w := by
  have hfind : items.find? (·.vmid == w.vmid) = some g := by
    rw [hvmid]
    exact Table.find?_of_mem hitems hg
  unfold settled
  rw [if_pos hcluster, hfind]
  rfl

/-- A row of another cluster, or of a VMID that is not listed, stays as it is. -/
theorem settled_unlisted {w : Workload} (h : w.clusterId ≠ clusterId ∨ ∀ g ∈ items, g.vmid ≠ w.vmid) :
    settled clusterId now items w = w := by
  unfold settled
  split
  · next hcluster =>
    have hnone : items.find? (·.vmid == w.vmid) = none := by
      rw [List.find?_eq_none]
      intro g hg hvmid
      exact h.resolve_left (fun hne => hne hcluster) g hg (beq_iff_eq.mp hvmid)
    rw [hnone]
    rfl
  · rfl

/-- A stored row was there, or is new. -/
theorem Stored.cases (h : Stored clusterId now items ids t t') {w : Workload} (hw : w ∈ t') :
    (∃ q ∈ t, w = settled clusterId now items q) ∨ w ∈ addedBy (existingIn t clusterId) clusterId now items ids := by
  cases hget : t.get? w.id with
  | none => exact Or.inr ((h.added w).mp ⟨hw, hget⟩)
  | some q =>
    have hkept := h.kept w.id q hget
    have hown : t'.get? w.id = some w := Table.get?_of_mem hw
    rw [hown] at hkept
    exact Or.inl ⟨q, Table.get?_mem hget, Option.some_inj.mp hkept⟩

theorem Stored.kept_mem (h : Stored clusterId now items ids t t') {q : Workload} (hq : q ∈ t) :
    settled clusterId now items q ∈ t' :=
  Table.get?_mem (h.kept q.id q (Table.get?_of_mem hq))

/-- A VMID stays unique. -/
theorem Stored.unique (h : Stored clusterId now items ids t t') (hunique : VmidsUnique t)
    (hitems : (items.map GuestItem.vmid).Nodup) : VmidsUnique t' := by
  have hadded := (addedBy_vmids clusterId now (existingIn t clusterId) items ids).nodup hitems
  have hapart {q w : Workload} (hq : q ∈ t) (hw : w ∈ addedBy (existingIn t clusterId) clusterId now items ids)
      (hcluster : (settled clusterId now items q).clusterId = w.clusterId)
      (hvmid : (settled clusterId now items q).vmid = w.vmid) : False := by
    obtain ⟨hkeepsCluster, hkeepsVmid, -⟩ := settled_keys clusterId now items q
    obtain ⟨g, -, hnone, id, rfl⟩ := mem_addedBy hw
    exact workloadAt_none.mp hnone q hq (hkeepsCluster.symm.trans hcluster) (hkeepsVmid.symm.trans hvmid)
  intro w hw v hv hcluster hvmid
  rcases h.cases hw with ⟨q, hq, rfl⟩ | hw' <;> rcases h.cases hv with ⟨p, hp, rfl⟩ | hv'
  · obtain ⟨hcq, hvq, -⟩ := settled_keys clusterId now items q
    obtain ⟨hcp, hvp, -⟩ := settled_keys clusterId now items p
    rw [hunique q hq p hp (hcq.symm.trans (hcluster.trans hcp))
      (hvq.symm.trans (hvmid.trans hvp))]
  · exact (hapart hq hv' hcluster hvmid).elim
  · exact (hapart hp hw' hcluster.symm hvmid.symm).elim
  · exact List.inj_on_of_nodup_map hadded hw' hv' hvmid

end Rows

/-! ### The import as a whole -/

/-- What a successful import leaves of the table `t`. -/
structure Imported (rt : Runtime) (clusterId : Uuid) (now : Instant) (guests : List GuestResponse)
    (t t' : Table Workload) (r : WorkloadImportResponse) : Prop where
  listed : ∀ guest ∈ guests, ∃ w ∈ t', w.clusterId = clusterId ∧ w.vmid = guest.vmid ∧ Shows rt now guest w ∧
    ∀ q ∈ t', q.clusterId = clusterId → q.vmid = guest.vmid → q = w
  others : ∀ w, (w.clusterId ≠ clusterId ∨ ∀ guest ∈ guests, guest.vmid ≠ w.vmid) → (w ∈ t' ↔ w ∈ t)
  kept : ∀ k w, t.get? k = some w → ∃ w', t'.get? k = some w' ∧ w'.vmid = w.vmid ∧ w'.clusterId = w.clusterId ∧
    w'.organizationId = w.organizationId
  counted : r.created + r.updated = guests.length

/-- A row without its version and the time of its observation. -/
def Workload.unstamped (w : Workload) : Workload := { w with observedAt := 0, version := 0 }

/-- Two tables that differ in the identifiers of rows that `t` has not. -/
structure Renamed (t t₁ t₂ : Table Workload) : Prop where
  old : ∀ k, t.get? k ≠ none → t₁.get? k = t₂.get? k
  new : ∀ w ∈ t₁, t.get? w.id = none → ∃ q ∈ t₂, t.get? q.id = none ∧ { q with id := w.id } = w
  back : ∀ w ∈ t₂, t.get? w.id = none → ∃ q ∈ t₁, t.get? q.id = none ∧ { q with id := w.id } = w

section Imports
variable {rt : Runtime} {principal : Principal} {clusterId : Uuid} {client : Except AppError Unit} {ids : List Uuid}
  {now : Instant} {db : Db}

/-- What precedes the guests: the role, the connection and the cluster. -/
def Reached (principal : Principal) (clusterId : Uuid) (client : Except AppError Unit) (db : Db) : Prop :=
  requireServiceRole principal [.superAdmin, .operator] = .ok () ∧ snapshotCheck client clusterId db = .ok ()

/-- The items of the guests that pass, and no two with one VMID. -/
def Passing (rt : Runtime) (guests : List GuestResponse) (items : List GuestItem) : Prop :=
  guests.map (observed rt) = items.map some ∧ (items.map GuestItem.vmid).Nodup

/-- What an answer tells. -/
structure Answers (rt : Runtime) (principal : Principal) (clusterId : Uuid) (client : Except AppError Unit)
    (guests : Except Exn (List GuestResponse)) (ids : List Uuid) (now : Instant) (db : Db)
    (o : Outcome WorkloadImportResponse) (r : WorkloadImportResponse) : Prop where
  reached : Reached principal clusterId client db
  told : ∃ list items, ∃ b : Import, ∃ workloads, guests = .ok list ∧ Passing rt list items ∧
    b.changed = changedBy (existingIn db.workloads clusterId) now items ∧
    b.added = addedBy (existingIn db.workloads clusterId) clusterId now items ids ∧
    b.store db.workloads = .ok workloads ∧ o.db = importedDb principal clusterId db workloads ∧
    r = ⟨clusterId, list.length, b.added.length, b.changed.length⟩

/-- An import that answers has passed every test on the way. -/
theorem importOutcome_ok {guests : Except Exn (List GuestResponse)} {r : WorkloadImportResponse}
    (h : (importOutcome rt principal clusterId client guests ids now db).result = .ok r) :
    Answers rt principal clusterId client guests ids now db
      (importOutcome rt principal clusterId client guests ids now db) r := by
  revert h
  unfold importOutcome
  refine Outcome.of_elim (P := fun o => o.result = .ok r → Answers rt principal clusterId client guests ids now db o r)
    (fun e h => by cases h) fun o ho hr => ?_
  simp only [bind_ok, onIntegrity_ok, pure_ok] at ho
  obtain ⟨_, hrole, _, hsnapshot, list, hlist, -, -, b, hb, workloads, hstore, rfl⟩ := ho
  obtain ⟨items, hitems, hnodup, -, hchanged, hadded, -⟩ := importGuests_ok.mp hb
  cases hr
  exact ⟨⟨hrole, hsnapshot⟩, list, items, b, workloads, hlist, ⟨hitems, hnodup⟩, hchanged, hadded, hstore, rfl, rfl⟩

variable (ids now) in
/-- When what precedes the guests is there, and they pass, an import that stores its rows answers. -/
theorem importOutcome_reached {list : List GuestResponse} {items : List GuestItem} {t' : Table Workload}
    (hreached : Reached principal clusterId client db) (hpassing : Passing rt list items)
    (hstore : ∀ b : Import, b.changed = changedBy (existingIn db.workloads clusterId) now items →
      b.added = addedBy (existingIn db.workloads clusterId) clusterId now items ids → b.store db.workloads = .ok t') :
    importOutcome rt principal clusterId client (.ok list) ids now db =
      ⟨importedDb principal clusterId db t',
        .ok ⟨clusterId, list.length, (addedBy (existingIn db.workloads clusterId) clusterId now items ids).length,
          (changedBy (existingIn db.workloads clusterId) now items).length⟩⟩ := by
  obtain ⟨hrole, hsnapshot⟩ := hreached
  have hcluster : ∃ c, db.clusters.get? clusterId = some c := by
    unfold snapshotCheck at hsnapshot
    simp only [bind_ok, orRaise_ok] at hsnapshot
    obtain ⟨c, hc, -⟩ := hsnapshot
    exact ⟨c, hc⟩
  obtain ⟨c, hc⟩ := hcluster
  have hb : importGuests rt clusterId (existingIn db.workloads clusterId) now list ids {} = .ok
      ⟨changedBy (existingIn db.workloads clusterId) now items,
        addedBy (existingIn db.workloads clusterId) clusterId now items ids, (items.map GuestItem.vmid).reverse⟩ :=
    importGuests_ok.mpr ⟨items, hpassing.1, hpassing.2, fun _ _ => List.not_mem_nil, rfl, rfl, by simp⟩
  have hstored := hstore ⟨changedBy (existingIn db.workloads clusterId) now items,
    addedBy (existingIn db.workloads clusterId) clusterId now items ids, (items.map GuestItem.vmid).reverse⟩ rfl rfl
  have hexisting : db.workloads.select (·.clusterId == clusterId) = existingIn db.workloads clusterId := rfl
  unfold importOutcome
  simp only [hrole, hsnapshot, hc, orRaise, discard, hexisting, hb, hstored, onIntegrity, bind, Except.bind,
    Functor.mapConst, Except.map, Function.comp, Outcome.of, pure, Except.pure]

/-- The items that pass are the guests, one each. -/
theorem passing_mem {list : List GuestResponse} {items : List GuestItem} (h : Passing rt list items) :
    (∀ guest ∈ list, ∃ g ∈ items, observed rt guest = some g ∧ g.vmid = guest.vmid) ∧
      (∀ g ∈ items, ∃ guest ∈ list, observed rt guest = some g ∧ g.vmid = guest.vmid) ∧ items.length = list.length := by
  have hlength := congrArg List.length h.1
  rw [List.length_map, List.length_map] at hlength
  refine ⟨fun guest hguest => ?_, fun g hg => ?_, hlength.symm⟩
  · have hmem : observed rt guest ∈ items.map some := h.1 ▸ List.mem_map.mpr ⟨guest, hguest, rfl⟩
    obtain ⟨g, hg, hsome⟩ := List.mem_map.mp hmem
    exact ⟨g, hg, hsome.symm, observed_vmid hsome.symm⟩
  · have hmem : some g ∈ list.map (observed rt) := h.1 ▸ List.mem_map.mpr ⟨g, hg, rfl⟩
    obtain ⟨guest, hguest, hsome⟩ := List.mem_map.mp hmem
    exact ⟨guest, hguest, hsome, observed_vmid hsome⟩

/-- **What is stored is what the guests say.** -/
theorem Stored.imported {t t' : Table Workload} {list : List GuestResponse} {items : List GuestItem}
    {r : WorkloadImportResponse} (h : Stored clusterId now items ids t t') (hunique : VmidsUnique t)
    (hpassing : Passing rt list items)
    (hr : r = ⟨clusterId, list.length, (addedBy (existingIn t clusterId) clusterId now items ids).length,
      (changedBy (existingIn t clusterId) now items).length⟩) : Imported rt clusterId now list t t' r := by
  obtain ⟨hguests, hitems, hlength⟩ := passing_mem hpassing
  have hstored := h.unique hunique hpassing.2
  constructor
  · intro guest hguest
    obtain ⟨g, hg, hobserved, hvmid⟩ := hguests guest hguest
    obtain ⟨honto, hrow⟩ := observed_shows clusterId now hobserved
    have hrow' : ∃ w ∈ t', w.clusterId = clusterId ∧ w.vmid = guest.vmid ∧ Shows rt now guest w := by
      cases hfound : workloadAt (existingIn t clusterId) g.vmid with
      | some q =>
        obtain ⟨hq, hcluster, hsame⟩ := (workloadAt_iff hunique).mp hfound
        have hsettled : settled clusterId now items q = g.onto now q := settled_listed hpassing.2 hg hcluster hsame
        refine ⟨g.onto now q, ?_, hcluster, hsame.trans hvmid, honto q⟩
        rw [← hsettled]
        exact h.kept_mem hq
      | none =>
        obtain ⟨id, hid⟩ := addedBy_mem clusterId now hg hfound ids
        exact ⟨g.row id clusterId now, ((h.added _).mpr hid).1, rfl, hvmid, hrow id⟩
    obtain ⟨w, hw, hcluster, hwvmid, hshows⟩ := hrow'
    refine ⟨w, hw, hcluster, hwvmid, hshows, fun q hq hqcluster hqvmid => ?_⟩
    exact hstored q hq w hw (hqcluster.trans hcluster.symm) (hqvmid.trans hwvmid.symm)
  · intro w hunlisted
    have hunlisted' (v : Workload) (hv : v.clusterId = w.clusterId ∧ v.vmid = w.vmid) :
        v.clusterId ≠ clusterId ∨ ∀ g ∈ items, g.vmid ≠ v.vmid := by
      rw [hv.1, hv.2]
      refine hunlisted.imp_right fun hnone g hg => ?_
      obtain ⟨guest, hguest, -, hvmid⟩ := hitems g hg
      rw [hvmid]
      exact hnone guest hguest
    constructor
    · intro hw
      rcases h.cases hw with ⟨q, hq, rfl⟩ | hadded
      · obtain ⟨hcluster, hvmid, -⟩ := settled_keys clusterId now items q
        rwa [settled_unlisted (hunlisted' q ⟨hcluster.symm, hvmid.symm⟩)]
      · obtain ⟨g, hg, -, id, rfl⟩ := mem_addedBy hadded
        rcases hunlisted' _ ⟨rfl, rfl⟩ with hne | hnone
        · exact absurd rfl hne
        · exact absurd rfl (hnone g hg)
    · intro hw
      have hsettled : settled clusterId now items w = w := settled_unlisted (hunlisted' w ⟨rfl, rfl⟩)
      rw [← hsettled]
      exact h.kept_mem hw
  · intro k w hget
    obtain ⟨hcluster, hvmid, horganization⟩ :=
      settled_keys clusterId now items w
    exact ⟨_, h.kept k w hget, hvmid, hcluster, horganization⟩
  · rw [hr, ← hlength, ← length_rows clusterId now (existingIn t clusterId) items ids]

/-- The same guests change every row they have once more, and add none. -/
theorem Stored.again {t t' : Table Workload} {items : List GuestItem} (h : Stored clusterId now items ids t t')
    (hunique : VmidsUnique t) (hitems : (items.map GuestItem.vmid).Nodup) (ids' : List Uuid) (now' : Instant) :
    addedBy (existingIn t' clusterId) clusterId now' items ids' = [] ∧
      ∀ b : Import, b.changed = changedBy (existingIn t' clusterId) now' items → b.added = [] →
        ∃ t'', b.store t' = .ok t'' ∧ Table.Alike Workload.unstamped t' t'' := by
  have hunique' := h.unique hunique hitems
  have hthere : ∀ g ∈ items, ∃ w ∈ t', w.clusterId = clusterId ∧ w.vmid = g.vmid ∧
      ∀ now', Workload.unstamped (g.onto now' w) = Workload.unstamped w := by
    intro g hg
    cases hfound : workloadAt (existingIn t clusterId) g.vmid with
    | some q =>
      obtain ⟨hq, hcluster, hsame⟩ := (workloadAt_iff hunique).mp hfound
      refine ⟨g.onto now q, ?_, hcluster, hsame, fun _ => rfl⟩
      rw [← settled_listed hitems hg hcluster hsame]
      exact h.kept_mem hq
    | none =>
      obtain ⟨id, hid⟩ := addedBy_mem clusterId now hg hfound ids
      exact ⟨g.row id clusterId now, ((h.added _).mpr hid).1, rfl, rfl, fun _ => rfl⟩
  constructor
  · apply List.eq_nil_iff_forall_not_mem.mpr
    intro w hw
    obtain ⟨g, hg, hnone, -⟩ := mem_addedBy hw
    obtain ⟨q, hq, hcluster, hvmid, -⟩ := hthere g hg
    exact workloadAt_none.mp hnone q hq hcluster hvmid
  · intro b hchanged hadded
    refine ⟨_, by unfold Import.store; rw [hadded]; rfl, fun k => ?_⟩
    rw [hchanged, updates_settle clusterId now' hunique' hitems k, Option.map_map]
    cases hget : t'.get? k with
    | none => rfl
    | some w =>
      have hw := Table.get?_mem hget
      rw [Option.map_some, Option.map_some]
      congr 1
      show Workload.unstamped (settled clusterId now' items w) = Workload.unstamped w
      by_cases hlisted : w.clusterId = clusterId ∧ ∃ g ∈ items, g.vmid = w.vmid
      · obtain ⟨hcluster, g, hg, hvmid⟩ := hlisted
        obtain ⟨q, hq, hqcluster, hqvmid, hsame⟩ := hthere g hg
        have hqw : q = w := hunique' q hq w hw (hqcluster.trans hcluster.symm) (hqvmid.trans hvmid)
        rw [settled_listed hitems hg hcluster hvmid.symm, ← hqw]
        exact hsame now'
      · rw [settled_unlisted]
        by_cases hcluster : w.clusterId = clusterId
        · exact Or.inr fun g hg hvmid => hlisted ⟨hcluster, g, hg, hvmid⟩
        · exact Or.inl hcluster

/-- The order of the items does not matter to a row that is there. -/
theorem settled_perm {items items' : List GuestItem} (hperm : items.Perm items')
    (hitems : (items.map GuestItem.vmid).Nodup) (w : Workload) :
    settled clusterId now items w = settled clusterId now items' w := by
  have hitems' : (items'.map GuestItem.vmid).Nodup := (hperm.map GuestItem.vmid).nodup_iff.mp hitems
  by_cases hlisted : w.clusterId = clusterId ∧ ∃ g ∈ items, g.vmid = w.vmid
  · obtain ⟨hcluster, g, hg, hvmid⟩ := hlisted
    rw [settled_listed hitems hg hcluster hvmid.symm, settled_listed hitems' (hperm.mem_iff.mp hg) hcluster hvmid.symm]
  · have hnone : ∀ g ∈ items, w.clusterId = clusterId → g.vmid ≠ w.vmid :=
      fun g hg hcluster hvmid => hlisted ⟨hcluster, g, hg, hvmid⟩
    by_cases hcluster : w.clusterId = clusterId
    · rw [settled_unlisted (Or.inr fun g hg => hnone g hg hcluster),
        settled_unlisted (Or.inr fun g hg => hnone g (hperm.mem_iff.mpr hg) hcluster)]
    · rw [settled_unlisted (Or.inl hcluster), settled_unlisted (Or.inl hcluster)]

/-- The order of the guests decides nothing but which new row gets which identifier. -/
theorem Stored.renamed {t t₁ t₂ : Table Workload} {items items' : List GuestItem} {ids' : List Uuid}
    (h₁ : Stored clusterId now items ids t t₁) (h₂ : Stored clusterId now items' ids' t t₂) (hperm : items.Perm items')
    (hitems : (items.map GuestItem.vmid).Nodup) : Renamed t t₁ t₂ := by
  have half {items items' : List GuestItem} {ids ids' : List Uuid} {t₁ t₂ : Table Workload}
      (h₁ : Stored clusterId now items ids t t₁) (h₂ : Stored clusterId now items' ids' t t₂)
      (hperm : items.Perm items') : ∀ w ∈ t₁, t.get? w.id = none →
        ∃ q ∈ t₂, t.get? q.id = none ∧ { q with id := w.id } = w := by
    intro w hw hnew
    obtain ⟨g, hg, hnone, id, rfl⟩ := mem_addedBy ((h₁.added w).mp ⟨hw, hnew⟩)
    obtain ⟨id', hid'⟩ := addedBy_mem clusterId now (hperm.mem_iff.mp hg) hnone ids'
    obtain ⟨hmem, hnew'⟩ := (h₂.added _).mpr hid'
    exact ⟨g.row id' clusterId now, hmem, hnew', rfl⟩
  constructor
  · intro k hk
    obtain ⟨w, hw⟩ := Option.ne_none_iff_exists'.mp hk
    rw [h₁.kept k w hw, h₂.kept k w hw, settled_perm hperm hitems]
  · exact half h₁ h₂ hperm
  · exact half h₂ h₁ hperm.symm

theorem renamed_refl (t : Table Workload) : Renamed t t t where
  old _ _ := rfl
  new w hw hnone := absurd rfl (Table.get?_eq_none.mp hnone w hw)
  back w hw hnone := absurd rfl (Table.get?_eq_none.mp hnone w hw)

/-- An import that raises leaves the workloads. -/
theorem importOutcome_raised {guests : Except Exn (List GuestResponse)} {e : Exn}
    (h : (importOutcome rt principal clusterId client guests ids now db).result = .error e) :
    (importOutcome rt principal clusterId client guests ids now db).db.workloads = db.workloads := by
  revert h
  unfold importOutcome
  refine Outcome.of_elim (P := fun o => o.result = .error e → o.db.workloads = db.workloads) (fun _ _ => rfl)
    fun o ho hr => ?_
  simp only [bind_ok, pure_ok] at ho
  obtain ⟨_, _, _, _, _, _, _, _, _, _, _, _, rfl⟩ := ho
  cases hr

/-- Without a role, a connection or the cluster, the guests are never asked for. -/
theorem importOutcome_unreached (h : ¬ Reached principal clusterId client db)
    (guests guests' : Except Exn (List GuestResponse)) (ids' : List Uuid) :
    importOutcome rt principal clusterId client guests' ids' now db =
      importOutcome rt principal clusterId client guests ids now db := by
  unfold importOutcome
  cases hrole : requireServiceRole principal [.superAdmin, .operator] with
  | error e => rfl
  | ok _ =>
    cases hsnapshot : snapshotCheck client clusterId db with
    | error e => rfl
    | ok _ => exact absurd ⟨hrole, hsnapshot⟩ h

/-- A guest that does not pass is the only thing that can end the loop. -/
theorem importGuests_error {existing : List Workload} {list : List GuestResponse} {b : Import} {e : Exn}
    (h : importGuests rt clusterId existing now list ids b = .error e) : e = importItem.invalid := by
  induction list generalizing ids b with
  | nil => cases h
  | cons guest rest ih =>
    rw [importGuests] at h
    cases hitem : importItem rt b.seen guest with
    | ok item =>
      rw [hitem] at h
      exact ih h
    | error e' =>
      rw [hitem] at h
      have he : e' = e := Except.error.inj h
      rw [← he]
      unfold importItem at hitem
      split at hitem
      · split at hitem
        · exact (Except.error.inj hitem).symm
        · cases hitem
      · exact (Except.error.inj hitem).symm

/-- A list with one guest that does not pass is refused as a whole, and the tables stay as they
are. -/
theorem importOutcome_refused {list : List GuestResponse} (hreached : Reached principal clusterId client db)
    (h : ¬ ∃ items, Passing rt list items) :
    importOutcome rt principal clusterId client (.ok list) ids now db = ⟨db, .error importItem.invalid⟩ := by
  obtain ⟨hrole, hsnapshot⟩ := hreached
  have hcluster := hsnapshot
  unfold snapshotCheck at hcluster
  simp only [bind_ok, orRaise_ok] at hcluster
  obtain ⟨c, hc, -⟩ := hcluster
  have hloop : importGuests rt clusterId (existingIn db.workloads clusterId) now list ids {} =
      .error importItem.invalid := by
    cases hb : importGuests rt clusterId (existingIn db.workloads clusterId) now list ids {} with
    | error e => rw [importGuests_error hb]
    | ok b =>
      obtain ⟨items, hitems, hnodup, -⟩ := importGuests_ok.mp hb
      exact absurd ⟨items, hitems, hnodup⟩ h
  have hexisting : db.workloads.select (·.clusterId == clusterId) = existingIn db.workloads clusterId := rfl
  unfold importOutcome
  simp only [hrole, hsnapshot, hc, orRaise, discard, hexisting, hloop, bind, Except.bind, Functor.mapConst, Except.map,
    Function.comp, Outcome.of]

/-- Guests in another order pass as well. -/
theorem passing_perm {list list' : List GuestResponse} {items : List GuestItem} (hperm : list.Perm list')
    (h : Passing rt list items) : ∃ items', Passing rt list' items' ∧ items.Perm items' := by
  have hfilter : list.filterMap (observed rt) = items := by
    have hsame := congrArg (List.filterMap id) h.1
    rwa [List.filterMap_map, List.filterMap_map, Function.id_comp, Function.id_comp, List.filterMap_some] at hsame
  have hall : ∀ l : List GuestResponse, (∀ guest ∈ l, observed rt guest ≠ none) →
      l.map (observed rt) = (l.filterMap (observed rt)).map some := by
    intro l
    induction l with
    | nil => exact fun _ => rfl
    | cons guest rest ih =>
      intro hl
      obtain ⟨g, hg⟩ := Option.ne_none_iff_exists'.mp (hl guest List.mem_cons_self)
      rw [List.map_cons, List.filterMap_cons_some hg, List.map_cons, hg, ih fun q hq => hl q (List.mem_cons_of_mem _ hq)]
  have hsome : ∀ guest ∈ list', observed rt guest ≠ none := by
    intro guest hguest
    obtain ⟨g, -, hobserved, -⟩ := (passing_mem h).1 guest (hperm.mem_iff.mpr hguest)
    rw [hobserved]
    exact Option.some_ne_none g
  have hitems : items.Perm (list'.filterMap (observed rt)) := hfilter ▸ hperm.filterMap (observed rt)
  exact ⟨_, ⟨hall list' hsome, (hitems.map GuestItem.vmid).nodup_iff.mp h.2⟩, hitems⟩

variable (now) in
/-- Drawn identifiers let an import of guests that pass go through. -/
theorem importOutcome_drawn {list : List GuestResponse} {items : List GuestItem} (hunique : VmidsUnique db.workloads)
    (hreached : Reached principal clusterId client db) (hpassing : Passing rt list items)
    (hdrawn : Drawn ids list.length db.workloads) : ∃ t', Stored clusterId now items ids db.workloads t' ∧
      importOutcome rt principal clusterId client (.ok list) ids now db = ⟨importedDb principal clusterId db t',
        .ok ⟨clusterId, list.length, (addedBy (existingIn db.workloads clusterId) clusterId now items ids).length,
          (changedBy (existingIn db.workloads clusterId) now items).length⟩⟩ := by
  have hlength := (passing_mem hpassing).2.2
  obtain ⟨t', ht'⟩ := store_succeeds (b := ⟨changedBy (existingIn db.workloads clusterId) now items,
    addedBy (existingIn db.workloads clusterId) clusterId now items ids, []⟩) hunique hpassing.2
    (by rwa [hlength]) rfl rfl
  refine ⟨t', store_ok hunique hpassing.2 rfl rfl ht', importOutcome_reached ids now hreached hpassing ?_⟩
  intro b hchanged hadded
  rw [← ht']
  unfold Import.store
  rw [hchanged, hadded]

variable (now) in
/-- The number of changed rows does not depend on the order. -/
theorem changedBy_perm (existing : List Workload) {items items' : List GuestItem} (hperm : items.Perm items') :
    (changedBy existing now items).length = (changedBy existing now items').length :=
  (hperm.filterMap _).length_eq

end Imports

/-- What an import should be: nothing, or what its guests say, once and for all, in any order. -/
structure Reconciles (rt : Runtime) (principal : Principal) (clusterId : Uuid) (client : Except AppError Unit)
    (guests : Except Exn (List GuestResponse)) (ids : List Uuid) (now : Instant) (db : Db) : Prop where
  raised : ∀ e, (importOutcome rt principal clusterId client guests ids now db).result = .error e →
    (importOutcome rt principal clusterId client guests ids now db).db.workloads = db.workloads
  imported : ∀ r, (importOutcome rt principal clusterId client guests ids now db).result = .ok r →
    ∃ list, guests = .ok list ∧ Imported rt clusterId now list db.workloads
      (importOutcome rt principal clusterId client guests ids now db).db.workloads r
  again : ∀ r list, guests = .ok list →
    (importOutcome rt principal clusterId client guests ids now db).result = .ok r → ∀ ids' now',
      (importOutcome rt principal clusterId client guests ids' now'
        (importOutcome rt principal clusterId client guests ids now db).db).result =
          .ok ⟨clusterId, list.length, 0, list.length⟩ ∧
      Table.Alike Workload.unstamped (importOutcome rt principal clusterId client guests ids now db).db.workloads
        (importOutcome rt principal clusterId client guests ids' now'
          (importOutcome rt principal clusterId client guests ids now db).db).db.workloads
  permuted : ∀ list list' ids', guests = .ok list → list.Perm list' → Drawn ids list.length db.workloads →
    Drawn ids' list.length db.workloads →
      (importOutcome rt principal clusterId client (.ok list') ids' now db).result =
        (importOutcome rt principal clusterId client guests ids now db).result ∧
      Renamed db.workloads (importOutcome rt principal clusterId client guests ids now db).db.workloads
        (importOutcome rt principal clusterId client (.ok list') ids' now db).db.workloads

/-- **The import of an inventory**, for every table that keeps VMIDs unique and all guests. -/
theorem import_reconciles (rt : Runtime) (principal : Principal) (clusterId : Uuid) (client : Except AppError Unit)
    (guests : Except Exn (List GuestResponse)) (ids : List Uuid) (now : Instant) (db : Db)
    (hunique : VmidsUnique db.workloads) : Reconciles rt principal clusterId client guests ids now db := by
  constructor
  · exact fun _ => importOutcome_raised
  · intro r hr
    obtain ⟨-, list, items, b, workloads, hlist, hpassing, hchanged, hadded, hstore, hdb, hr⟩ := importOutcome_ok hr
    have hstored := store_ok hunique hpassing.2 hchanged hadded hstore
    refine ⟨list, hlist, ?_⟩
    rw [hdb]
    rw [hchanged, hadded] at hr
    exact hstored.imported hunique hpassing hr
  · intro r list hlist hr ids' now'
    obtain ⟨hreached, list', items, b, workloads, hlist', hpassing, hchanged, hadded, hstore, hdb, -⟩ :=
      importOutcome_ok hr
    cases hlist.symm.trans hlist'
    have hstored := store_ok hunique hpassing.2 hchanged hadded hstore
    obtain ⟨hnone, hagain⟩ := hstored.again hunique hpassing.2 ids' now'
    obtain ⟨t'', ht'', halike⟩ := hagain ⟨changedBy (existingIn workloads clusterId) now' items, [], []⟩ rfl rfl
    -- Roles, connections and the cluster are as they were.
    have hreached' : Reached principal clusterId client (importedDb principal clusterId db workloads) := hreached
    have hsecond := importOutcome_reached ids' now' hreached' hpassing (by
      intro b' hchanged' hadded'
      rw [← ht'']
      unfold Import.store
      rw [hchanged', hadded']
      show orRaise ((addedBy (existingIn workloads clusterId) clusterId now' items ids').foldlM _ _) _ = _
      rw [hnone]
      rfl)
    have hcount := length_rows clusterId now' (existingIn workloads clusterId) items ids'
    rw [hnone, List.length_nil, Nat.zero_add, (passing_mem hpassing).2.2] at hcount
    rw [hdb, hlist, hsecond]
    refine ⟨?_, halike⟩
    show Except.ok (WorkloadImportResponse.mk _ _ (addedBy (existingIn workloads clusterId) _ _ _ _).length
      (changedBy (existingIn workloads clusterId) _ _).length) = _
    rw [hnone, hcount]
    rfl
  · intro list list' ids' hlist hperm hdrawn hdrawn'
    subst hlist
    by_cases hreached : Reached principal clusterId client db
    · by_cases hpassing : ∃ items, Passing rt list items
      · obtain ⟨items, hpassing⟩ := hpassing
        obtain ⟨items', hpassing', hitems⟩ := passing_perm hperm hpassing
        rw [hperm.length_eq] at hdrawn'
        obtain ⟨t₁, hstored₁, hfirst⟩ := importOutcome_drawn now hunique hreached hpassing hdrawn
        obtain ⟨t₂, hstored₂, hsecond⟩ := importOutcome_drawn now hunique hreached hpassing' hdrawn'
        rw [hfirst, hsecond]
        refine ⟨?_, hstored₁.renamed hstored₂ hitems hpassing.2⟩
        have hchanged := changedBy_perm now (existingIn db.workloads clusterId) hitems
        have hcount := length_rows clusterId now (existingIn db.workloads clusterId) items ids
        have hcount' :=
          length_rows clusterId now (existingIn db.workloads clusterId) items' ids'
        have hlength := hitems.length_eq
        have hadded : (addedBy (existingIn db.workloads clusterId) clusterId now items' ids').length =
            (addedBy (existingIn db.workloads clusterId) clusterId now items ids).length := by omega
        rw [hadded, hchanged, hperm.length_eq]
      · have hpassing' : ¬ ∃ items, Passing rt list' items := by
          rintro ⟨items, h⟩
          obtain ⟨items', h', -⟩ := passing_perm hperm.symm h
          exact hpassing ⟨items', h'⟩
        rw [importOutcome_refused hreached hpassing, importOutcome_refused hreached hpassing']
        exact ⟨rfl, renamed_refl _⟩
    · have hsame : importOutcome rt principal clusterId client (.ok list') ids' now db =
          importOutcome rt principal clusterId client (.ok list) ids now db :=
        importOutcome_unreached hreached (.ok list) (.ok list') ids'
      rw [hsame]
      refine ⟨rfl, ?_⟩
      have hraised : (importOutcome rt principal clusterId client (.ok list) ids now db).db.workloads = db.workloads := by
        cases hr : (importOutcome rt principal clusterId client (.ok list) ids now db).result with
        | ok r => exact absurd (importOutcome_ok hr).reached hreached
        | error e => exact importOutcome_raised hr
      rw [hraised]
      exact renamed_refl _

/-- Workload 20 of cluster 1, a connection, and two guests of which one is new. -/
def inventoryDb : Db :=
  { Db.empty with
    clusters := .single ⟨1, true⟩
    credentials := .single ⟨2, 1, true⟩
    workloads := .single ⟨20, 1, 100, "pve1", .qemu, none, "STOPPED", none, none, none, false, true, some 5, 0, 1⟩ }

def sampleGuests : List GuestResponse :=
  [⟨100, some "pve2", "qemu", some "web", some "running", some 4, none, none, none⟩,
    ⟨101, some "pve1", "lxc", none, none, none, none, none, some 1⟩]

theorem sampleGuests_reconciled :
    Reconciles asciiRuntime ⟨9, "ops@pve", .operator, 1⟩ 1 (.ok ()) (.ok sampleGuests) [30, 31] 60 inventoryDb := by
  apply import_reconciles
  intro w hw q hq _ _
  exact (List.mem_singleton.mp hw).trans (List.mem_singleton.mp hq).symm

example : (importOutcome asciiRuntime ⟨9, "ops@pve", .operator, 1⟩ 1 (.ok ()) (.ok sampleGuests) [30, 31] 60
    inventoryDb).result = .ok ⟨1, 2, 1, 1⟩ := by
  rfl

end PveMaster.ClusterService
