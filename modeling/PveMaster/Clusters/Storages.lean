import PveMaster.Clusters.Inventory
import PveMaster.Foundation.Overwriting

/-! The storages of a cluster, as the overview adds them up.

Proxmox lists a shared storage once for every node, and a storage of a node that does not
answer without its capacity. `_storage_capacity` enters the reports in a dictionary, one
in place of the other, so the last report of a storage decides. `totals_iff` says for which
reports this does no harm. -/
namespace PveMaster.ClusterService
open Overwriting

/-! ### Reports -/

/-- `shared` is an integer or a boolean. -/
structure StorageResponse where
  storage : String
  node : Option String := none
  type : Option String := none
  status : Option String := none
  total : Option Int := none
  used : Option Int := none
  avail : Option Int := none
  shared : Option Int := none
  content : Option String := none
  deriving DecidableEq

/-- `data.get(name)`. -/
def field (data : Dict) (name : String) : Json := (data.get? name).getD .null

/-- `data[name]` and, if there is nothing, what stands under the name the cluster resources
use, which is then entered as `data[name]`. -/
def renamed (data : Dict) (name resourceName : String) : Json × Dict :=
  if field data name = .null then
    let value := field data resourceName
    (value, if value = .null then data else data.set name value)
  else (field data name, data)

/-- `StorageResponse.normalize_cluster_resource_capacity`, of a dictionary. -/
def normalizeClusterResourceCapacity (value : Dict) : Dict :=
  let (total, data) := renamed value "total" "maxdisk"
  let (used, data) := renamed data "used" "disk"
  match field data "avail", total.asInt?, used.asInt? with
  | .null, some total, some used => data.set "avail" (.int (max 0 (total - used)))
  | _, _, _ => data

section Validation
-- `coerce` is the integer Pydantic makes of a value of another type, if it does.
variable (coerce : Json → Option Int)

def validText : Json → Option (Option String)
  | .null => some none
  | .str s => some (some s)
  | _ => none

def validInt (value : Json) : Option (Option Int) :=
  match value with
  | .null => some none
  | .int i => some (some i)
  | .bool b => some (some (if b then 1 else 0))
  | value => (coerce value).map some

/-- `StorageResponse.model_validate`. -/
def storageResponse (item : Dict) : Option StorageResponse := do
  let data := normalizeClusterResourceCapacity item
  let storage ← (field data "storage").asStr?
  return {
    storage := storage
    node := ← validText (field data "node")
    type := ← validText (field data "type")
    status := ← validText (field data "status")
    total := ← validInt coerce (field data "total")
    used := ← validInt coerce (field data "used")
    avail := ← validInt coerce (field data "avail")
    shared := ← validInt coerce (field data "shared")
    content := ← validText (field data "content") }

/-- `_validate_items(StorageResponse, items)`. -/
def validateStorages (items : List Dict) : Except Exn (List StorageResponse) :=
  orRaise (items.mapM (storageResponse coerce))
    (.app ⟨502, "PVE_INVALID_RESPONSE", "The Proxmox API returned an invalid resource item.", []⟩)

end Validation

/-! ### Totals -/

/-- `bool(storage.shared)`. -/
def StorageResponse.isShared (s : StorageResponse) : Bool := s.shared.any (· != 0)

/-- What a report is entered under. -/
def StorageResponse.key (s : StorageResponse) : String × Option String :=
  (s.storage, if s.isShared then none else s.node)

/-- `allowed_storage_ids is None or storage.storage in allowed_storage_ids`. -/
def isAllowed (allowed : Option (Finset String)) (s : StorageResponse) : Bool :=
  match allowed with
  | none => true
  | some ids => s.storage ∈ ids

/-- The reports the loop does not skip. -/
def accepted (storages : List StorageResponse) (allowed : Option (Finset String)) : List StorageResponse :=
  storages.filter (isAllowed allowed)

/-- `unique_storages.values()`. -/
def uniqueStorages (storages : List StorageResponse) (allowed : Option (Finset String)) : List StorageResponse :=
  overwritten StorageResponse.key (accepted storages allowed)

structure StorageCapacity where
  count : Nat
  used : Int
  total : Int
  deriving DecidableEq, Repr

/-- `_storage_capacity`. -/
def storageCapacity (storages : List StorageResponse) (allowed : Option (Finset String)) : StorageCapacity :=
  let unique := uniqueStorages storages allowed
  { count := unique.length
    used := (unique.map fun item => item.used.getD 0).sum
    total := (unique.map fun item => item.total.getD 0).sum }

/-- `_stores_guest_disks`. -/
def storesGuestDisks (rt : Runtime) (content : Option String) : Bool :=
  match content with
  | none => false
  | some content =>
    content != "" && (content.splitOn ",").any fun item => ["images", "rootdir"].contains (rt.lower (strip item))

/-- What `_fetch_resource_overview` reports of the storages, and of those for guest disks. -/
def storageOverview (rt : Runtime) (coerce : Json → Option Int) (rawStorages rawStorageConfigs : List Dict) :
    Except Exn (StorageCapacity × StorageCapacity) := do
  let storages ← validateStorages coerce rawStorages
  let storageConfigs ← validateStorages coerce rawStorageConfigs
  let vmStorageIds := ((storageConfigs.filter fun s => storesGuestDisks rt s.content).map StorageResponse.storage).toFinset
  return (storageCapacity storages none, storageCapacity storages (some vmStorageIds))

/-! ### What the totals should be -/

/-- A report of how large the storage is. -/
def StorageResponse.hasCapacity (s : StorageResponse) : Bool := s.total.isSome

/-- The shared storages, and the local ones of every node. -/
def sharedIds (storages : List StorageResponse) : Finset String :=
  ((storages.filter StorageResponse.isShared).map StorageResponse.storage).toFinset

def localIds (storages : List StorageResponse) : Finset (String × Option String) :=
  ((storages.filter fun s => !s.isShared).map fun s => (s.storage, s.node)).toFinset

/-- Totals that the reports give in any order: every storage is counted once, and none is
hidden by a report that does not know its capacity. -/
structure OrderFree (storages : List StorageResponse) (allowed : Option (Finset String)) : Prop where
  order : ∀ l, l.Perm storages → storageCapacity l allowed = storageCapacity storages allowed
  count : (storageCapacity storages allowed).count =
    (sharedIds (accepted storages allowed)).card + (localIds (accepted storages allowed)).card
  unhidden : ∀ l, l.Perm storages → ∀ s ∈ accepted storages allowed, s.hasCapacity = true →
    ∃ kept ∈ uniqueStorages l allowed, kept.key = s.key ∧ kept.hasCapacity = true

/-- Two reports that may come in either order. -/
structure StorageResponse.Agrees (s s' : StorageResponse) : Prop where
  shared : s.isShared = s'.isShared
  used : s.used.getD 0 = s'.used.getD 0
  total : s.total.getD 0 = s'.total.getD 0
  capacity : s.hasCapacity = s'.hasCapacity

/-- Reports of one storage agree. -/
def Coherent (storages : List StorageResponse) (allowed : Option (Finset String)) : Prop :=
  ∀ s ∈ accepted storages allowed, ∀ s' ∈ accepted storages allowed, s.key = s'.key → s.Agrees s'

section Proofs
variable {storages l : List StorageResponse} {allowed : Option (Finset String)}

theorem accepted_perm (h : l.Perm storages) : (accepted l allowed).Perm (accepted storages allowed) := h.filter _

/-- Every order of the accepted reports comes from an order of all of them. -/
theorem exists_perm_accepted {a : List StorageResponse} (h : a.Perm (accepted storages allowed)) :
    ∃ l, l.Perm storages ∧ accepted l allowed = a := by
  have hkept : accepted a allowed = a :=
    List.filter_eq_self.mpr fun s hs => (List.mem_filter.mp (h.mem_iff.mp hs)).2
  have hdropped : accepted (storages.filter fun s => !isAllowed allowed s) allowed = [] := by
    refine List.filter_eq_nil_iff.mpr fun s hs => ?_
    simpa using (List.mem_filter.mp hs).2
  refine ⟨a ++ storages.filter fun s => !isAllowed allowed s, ?_, ?_⟩
  · exact (h.append_right _).trans (List.filter_append_perm (isAllowed allowed) storages)
  · unfold accepted at hkept hdropped ⊢
    rw [List.filter_append, hkept, hdropped, List.append_nil]

/-- The keys of shared storages and those of local ones. -/
theorem keys_union (storages : List StorageResponse) : (storages.map StorageResponse.key).toFinset =
    (sharedIds storages).image (fun id => (id, none)) ∪ localIds storages := by
  ext k
  simp only [List.mem_toFinset, List.mem_map, Finset.mem_union, Finset.mem_image, sharedIds, localIds,
    List.mem_filter, Bool.not_eq_true']
  constructor
  · rintro ⟨s, hs, rfl⟩
    cases hshared : s.isShared with
    | true => exact Or.inl ⟨s.storage, ⟨s, ⟨hs, hshared⟩, rfl⟩, by simp [StorageResponse.key, hshared]⟩
    | false => exact Or.inr ⟨s, ⟨hs, hshared⟩, by simp [StorageResponse.key, hshared]⟩
  · rintro (⟨_, ⟨s, ⟨hs, hshared⟩, rfl⟩, rfl⟩ | ⟨s, ⟨hs, hshared⟩, rfl⟩)
    · exact ⟨s, hs, by simp [StorageResponse.key, hshared]⟩
    · exact ⟨s, hs, by simp [StorageResponse.key, hshared]⟩

/-- Every storage is counted once, unless a shared and a local one are taken for the same. -/
theorem count_iff : (storageCapacity storages allowed).count =
      (sharedIds (accepted storages allowed)).card + (localIds (accepted storages allowed)).card ↔
    ∀ s ∈ accepted storages allowed, ∀ s' ∈ accepted storages allowed, s.key = s'.key → s.isShared = s'.isShared := by
  have hinj : Function.Injective fun id : String => (id, (none : Option String)) := fun a b h => congrArg Prod.fst h
  have hcount : (storageCapacity storages allowed).count =
      ((accepted storages allowed).map StorageResponse.key).toFinset.card := length_overwritten _
  rw [hcount, keys_union, ← Finset.card_image_of_injective (sharedIds (accepted storages allowed)) hinj,
    Finset.card_union_eq_card_add_card, Finset.disjoint_left]
  constructor
  · intro hdisjoint s hs s' hs' hkey
    by_contra hne
    have taken {t t' : StorageResponse} (ht : t ∈ accepted storages allowed) (ht' : t' ∈ accepted storages allowed)
        (hkey : t.key = t'.key) (hshared : t.isShared = true) (hlocal : t'.isShared = false) : False := by
      refine hdisjoint (a := t.key) (Finset.mem_image.mpr ⟨t.storage, ?_, by simp [StorageResponse.key, hshared]⟩) ?_
      · exact List.mem_toFinset.mpr (List.mem_map_of_mem (List.mem_filter.mpr ⟨ht, hshared⟩))
      · refine List.mem_toFinset.mpr (List.mem_map.mpr ⟨t', List.mem_filter.mpr ⟨ht', by simp [hlocal]⟩, ?_⟩)
        rw [hkey]
        simp [StorageResponse.key, hlocal]
    cases hshared : s.isShared with
    | true => exact taken hs hs' hkey hshared (by simpa [hshared] using hne)
    | false => exact taken hs' hs hkey.symm (by simpa [hshared] using hne) hshared
  · intro hsame k hk hk'
    obtain ⟨id, hid, rfl⟩ := Finset.mem_image.mp hk
    obtain ⟨s, hs, rfl⟩ := List.mem_map.mp (List.mem_toFinset.mp hid)
    obtain ⟨s', hs', heq⟩ := List.mem_map.mp (List.mem_toFinset.mp hk')
    obtain ⟨hs, hshared⟩ := List.mem_filter.mp hs
    obtain ⟨hs', hlocal⟩ := List.mem_filter.mp hs'
    have hlocal : s'.isShared = false := by simpa using hlocal
    have hkey : s.key = s'.key := by
      simp only [StorageResponse.key, hshared, hlocal, if_true, Bool.false_eq_true, if_false]
      exact heq.symm
    have := hsame s hs s' hs' hkey
    rw [hshared, hlocal] at this
    cases this

/-- **Storage totals** depend on the order of the reports exactly where two reports of one
storage differ. -/
theorem totals_iff (storages : List StorageResponse) (allowed : Option (Finset String)) :
    OrderFree storages allowed ↔ Coherent storages allowed := by
  constructor
  · intro h s hs s' hs' hkey
    by_cases hne : s = s'
    · subst hne
      exact ⟨rfl, rfl, rfl, rfl⟩
    -- Either report can be the last of its storage, all else being the same.
    obtain ⟨d, hd, ⟨a, ha, hputa⟩, b, hb, hputb⟩ := exists_perm_put hs hs' hkey hne
    obtain ⟨la, hla, rfl⟩ := exists_perm_accepted ha
    obtain ⟨lb, hlb, rfl⟩ := exists_perm_accepted hb
    have hsame : storageCapacity la allowed = storageCapacity lb allowed := (h.order la hla).trans (h.order lb hlb).symm
    have hunique {t : StorageResponse} {x : List StorageResponse} (hput : uniqueStorages x allowed = put StorageResponse.key d t)
        (hx : x.Perm storages) {u : StorageResponse} (hu : u ∈ accepted storages allowed) (htu : t.key = u.key)
        (hcap : u.hasCapacity = true) : t.hasCapacity = true := by
      obtain ⟨kept, hkept, hkeptKey, hkeptCap⟩ := h.unhidden x hx u hu hcap
      rw [hput] at hkept
      have : kept = t :=
        List.inj_on_of_nodup_map (nodup_put hd t) hkept (mem_put_self d t) (hkeptKey.trans htu.symm)
      exact this ▸ hkeptCap
    refine ⟨count_iff.mp h.count s hs s' hs' hkey, ?_, ?_, ?_⟩
    · have := congrArg StorageCapacity.used hsame
      simp only [storageCapacity, uniqueStorages, hputa, hputb] at this
      exact sum_put_eq hd hkey this
    · have := congrArg StorageCapacity.total hsame
      simp only [storageCapacity, uniqueStorages, hputa, hputb] at this
      exact sum_put_eq hd hkey this
    · rw [Bool.eq_iff_iff]
      exact ⟨hunique hputb hlb hs hkey.symm, hunique hputa hla hs' hkey⟩
  · intro h
    refine ⟨fun l hl => ?_, count_iff.mpr fun s hs s' hs' hkey => (h s hs s' hs' hkey).shared, fun l hl s hs hcap => ?_⟩
    · have hp : (accepted l allowed).Perm (accepted storages allowed) := accepted_perm hl
      have hcount : (uniqueStorages l allowed).length = (uniqueStorages storages allowed).length := by
        unfold uniqueStorages
        rw [length_overwritten, length_overwritten, List.toFinset_eq_of_perm _ _ (hp.map StorageResponse.key)]
      have hused := sum_perm (f := fun s : StorageResponse => s.used.getD 0)
        (fun s hs s' hs' hkey => (h s hs s' hs' hkey).used) hp
      have htotal := sum_perm (f := fun s : StorageResponse => s.total.getD 0)
        (fun s hs s' hs' hkey => (h s hs s' hs' hkey).total) hp
      simp only [storageCapacity, hcount, StorageCapacity.mk.injEq, true_and]
      exact ⟨hused, htotal⟩
    · have hp : (accepted l allowed).Perm (accepted storages allowed) := accepted_perm hl
      have hkey : s.key ∈ (uniqueStorages l allowed).map StorageResponse.key :=
        (mem_keys_overwritten s.key _).mpr (List.mem_map_of_mem (hp.mem_iff.mpr hs))
      obtain ⟨kept, hkept, hkeptKey⟩ := List.mem_map.mp hkey
      have hmem : kept ∈ accepted storages allowed := hp.mem_iff.mp (mem_of_mem_overwritten hkept)
      exact ⟨kept, hkept, hkeptKey, (h kept hmem s hs hkeptKey).capacity.trans hcap⟩

/-! ### The overview -/

theorem mapM_cons_some {α β : Type} {f : α → Option β} {x : α} {l : List α} {m : List β} :
    (x :: l).mapM f = some m ↔ ∃ y, f x = some y ∧ ∃ rest, l.mapM f = some rest ∧ y :: rest = m := by
  simp [List.mapM_cons, Option.bind_eq_some_iff]

/-- What is read item by item is read in any order. -/
theorem mapM_perm {α β : Type} {f : α → Option β} {l l' : List α} (h : l'.Perm l) :
    ∀ {m : List β}, l.mapM f = some m → ∃ m', l'.mapM f = some m' ∧ m'.Perm m := by
  induction h with
  | nil =>
    intro m hm
    exact ⟨m, hm, .refl m⟩
  | cons x _ ih =>
    intro m hm
    obtain ⟨y, hy, rest, hrest, rfl⟩ := mapM_cons_some.mp hm
    obtain ⟨rest', hrest', hp⟩ := ih hrest
    exact ⟨y :: rest', mapM_cons_some.mpr ⟨y, hy, rest', hrest', rfl⟩, hp.cons y⟩
  | swap x y l =>
    intro m hm
    obtain ⟨a, ha, _, hyl, rfl⟩ := mapM_cons_some.mp hm
    obtain ⟨b, hb, rest, hrest, rfl⟩ := mapM_cons_some.mp hyl
    have hswapped := mapM_cons_some.mpr ⟨a, ha, rest, hrest, rfl⟩
    exact ⟨b :: a :: rest, mapM_cons_some.mpr ⟨b, hb, a :: rest, hswapped, rfl⟩, .swap a b rest⟩
  | trans _ _ ih ih' =>
    intro m hm
    obtain ⟨m', hm', hp⟩ := ih' hm
    obtain ⟨m'', hm'', hp'⟩ := ih hm'
    exact ⟨m'', hm'', hp'.trans hp⟩

theorem Coherent.restrict (h : Coherent storages none) : Coherent storages allowed := by
  have hmem {s : StorageResponse} (hs : s ∈ accepted storages allowed) : s ∈ accepted storages none :=
    List.mem_filter.mpr ⟨(List.mem_filter.mp hs).1, rfl⟩
  exact fun s hs s' hs' hkey => h s (hmem hs) s' (hmem hs') hkey

/-- **The overview** of a cluster whose reports are coherent is the same in whatever order
Proxmox lists them. -/
theorem storageOverview_perm {rt : Runtime} {coerce : Json → Option Int} {raw raw' configs : List Dict}
    (hp : raw'.Perm raw) (hvalid : validateStorages coerce raw = .ok storages) (h : Coherent storages none) :
    storageOverview rt coerce raw' configs = storageOverview rt coerce raw configs := by
  obtain ⟨storages', hstorages', hperm⟩ := mapM_perm hp (orRaise_ok.mp hvalid)
  have hvalid' : validateStorages coerce raw' = .ok storages' := orRaise_ok.mpr hstorages'
  have hsame (allowed : Option (Finset String)) : storageCapacity storages' allowed = storageCapacity storages allowed :=
    ((totals_iff storages allowed).mpr h.restrict).order storages' hperm
  simp only [storageOverview, hvalid, hvalid', bind, Except.bind, hsame]

end Proofs

/-! ### A node that does not answer -/

/-- A shared storage as two nodes report it, the second of them offline. -/
def reportedByA : Dict :=
  [("storage", .str "ceph"), ("node", .str "pve-a"), ("status", .str "available"), ("shared", .int 1),
    ("disk", .int 50), ("maxdisk", .int 300)]

def reportedByB : Dict :=
  [("storage", .str "ceph"), ("node", .str "pve-b"), ("status", .str "unknown"), ("shared", .int 1)]

def cephOnA : StorageResponse where
  storage := "ceph"
  node := some "pve-a"
  status := some "available"
  total := some 300
  used := some 50
  avail := some 250
  shared := some 1

def cephOnB : StorageResponse where
  storage := "ceph"
  node := some "pve-b"
  status := some "unknown"
  shared := some 1

/-- The report of the offline node hides the capacity when it comes last. -/
theorem offline_report_hides :
    validateStorages (fun _ => none) [reportedByA, reportedByB] = .ok [cephOnA, cephOnB] ∧
    storageCapacity [cephOnA, cephOnB] none = ⟨1, 0, 0⟩ ∧ storageCapacity [cephOnB, cephOnA] none = ⟨1, 50, 300⟩ ∧
    ¬ OrderFree [cephOnA, cephOnB] none := by
  refine ⟨by decide, by decide, by decide, fun h => ?_⟩
  have := h.order [cephOnB, cephOnA] (List.Perm.swap _ _ _)
  revert this
  decide

end PveMaster.ClusterService
