import PveMaster.Ipam.Addressing
import Mathlib

/-! What the monitoring reports of the pools.

`_available_address_count` merges the intervals of what cannot be allocated, in absolute
addresses, and subtracts their lengths from the size of the network. The merged intervals
are apart, so the sum counts every blocked address once (`availableAddressCount_eq`). -/
namespace PveMaster.Observability
open Ipam IpamService

/-- One turn of the merging loop. The ranges merged so far stand newest first. -/
def mergeBlocked (first last : Int) (merged : List (Int × Int)) (r : Int × Int) : List (Int × Int) :=
  let low := max first r.1
  let high := min last r.2
  if high < low then merged
  else
    match merged with
    | [] => [(low, high)]
    | newest :: rest =>
      if low ≤ newest.2 + 1 then (newest.1, max newest.2 high) :: rest else (low, high) :: newest :: rest

/-- `high - low + 1` of every range. -/
def lengths (merged : List (Int × Int)) : Int := (merged.map fun r => r.2 - r.1 + 1).sum

/-- What `_available_address_count` blocks, before it is sorted. -/
def blockedRanges (cidr : Network) (gateway : Option Inet) (exclusions : List (Inet × Inet)) (unavailable : List Inet) :
    List (Int × Int) :=
  [((cidr.base : Int), (cidr.base : Int))] ++
    (if cidr.version = .v4 then [((cidr.broadcast : Int), (cidr.broadcast : Int))] else []) ++
    gateway.toList.map (fun g => ((g.ip : Int), (g.ip : Int))) ++
    exclusions.map (fun e => ((e.1.ip : Int), (e.2.ip : Int))) ++ unavailable.map (fun v => ((v.ip : Int), (v.ip : Int)))

/-- `_available_address_count`. -/
def availableAddressCount (cidr : Network) (gateway : Option Inet) (exclusions : List (Inet × Inet))
    (unavailable : List Inet) : Int :=
  let blocked := blockedRanges cidr gateway exclusions unavailable
  let merged := (blocked.insertionSort lexLe).foldl (mergeBlocked cidr.base cidr.broadcast) []
  max 0 (cidr.numAddresses - lengths merged)

/-- The exclusions of a pool. -/
def poolExclusions (t : IpamTables) (pool : IpPool) : List (Inet × Inet) :=
  (t.exclusions.select (fun e => e.poolId == pool.id)).map (fun e => (e.startAddress, e.endAddress))

/-- Its addresses that are not `AVAILABLE`. -/
def unavailableInets (t : IpamTables) (pool : IpPool) : List Inet :=
  (t.addresses.select (fun a => a.poolId == pool.id && a.state != .available)).map IpAddress.address

/-- The count reported for one pool. -/
def availableCount (t : IpamTables) (pool : IpPool) : Int :=
  availableAddressCount pool.cidr.toNetwork pool.gateway (poolExclusions t pool) (unavailableInets t pool)

/-- `_ip_pool_counts`: the active pools, in whatever order the database sorts their names. -/
def ipPoolCounts (order : List IpPool → List IpPool) (t : IpamTables) : List (Uuid × String × Int) :=
  (order (t.pools.select IpPool.isActive)).map fun pool => (pool.id, pool.name, availableCount t pool)

/-! ### What is blocked -/

theorem not_covered_nil (x : Int) : ¬ Covered [] x := by
  rintro ⟨r, hr, -⟩
  cases hr

theorem exists_unavailable {t : IpamTables} {pool : IpPool} {x : Int} :
    (∃ v ∈ unavailableInets t pool, x = (v.ip : Int)) ↔
      ∃ a ∈ t.addresses, a.poolId = pool.id ∧ a.state ≠ .available ∧ x = a.address.ip := by
  simp only [unavailableInets, List.mem_map, exists_exists_and_eq_and]
  refine exists_congr fun a => ?_
  rw [Table.mem_select, Bool.and_eq_true, beq_iff_eq, bne_iff_ne, and_assoc, and_assoc]

theorem covered_poolExclusions {t : IpamTables} {pool : IpPool} {x : Int} :
    Covered ((poolExclusions t pool).map fun e => ((e.1.ip : Int), (e.2.ip : Int))) x ↔
      ∃ e ∈ t.exclusions, e.poolId = pool.id ∧ (e.startAddress.ip : Int) ≤ x ∧ x ≤ e.endAddress.ip := by
  unfold poolExclusions
  rw [List.map_map, covered_map]
  refine exists_congr fun e => ?_
  rw [Table.mem_select, beq_iff_eq, and_assoc]
  rfl

/-- **What the monitoring blocks** of a pool: what the network and the gateway need, the ranges that are
excluded, and the rows that are not `AVAILABLE`. -/
theorem covered_blockedRanges {t : IpamTables} {pool : IpPool} {x : Int} :
    Covered (blockedRanges pool.cidr.toNetwork pool.gateway (poolExclusions t pool) (unavailableInets t pool)) x ↔
      x = pool.cidr.base ∨ (pool.cidr.version = .v4 ∧ x = pool.cidr.toNetwork.broadcast) ∨
      (∃ g ∈ pool.gateway, x = g.ip) ∨
      (∃ e ∈ t.exclusions, e.poolId = pool.id ∧ (e.startAddress.ip : Int) ≤ x ∧ x ≤ e.endAddress.ip) ∨
      ∃ a ∈ t.addresses, a.poolId = pool.id ∧ a.state ≠ .available ∧ x = a.address.ip := by
  have hlast : Covered (if pool.cidr.version = .v4 then
      [((pool.cidr.toNetwork.broadcast : Int), (pool.cidr.toNetwork.broadcast : Int))] else []) x ↔
        pool.cidr.version = .v4 ∧ x = pool.cidr.toNetwork.broadcast := by
    split
    · next hv => exact ⟨fun h => ⟨hv, covered_point.mp h⟩, fun h => covered_point.mpr h.2⟩
    · next hv => exact ⟨fun h => absurd h (not_covered_nil x), fun h => absurd h.1 hv⟩
  have hgateway : (∃ g ∈ pool.gateway.toList, x = (g.ip : Int)) ↔ ∃ g ∈ pool.gateway, x = g.ip := by
    simp only [Option.mem_toList, Option.mem_def]
  unfold blockedRanges
  rw [covered_append, covered_append, covered_append, covered_append, covered_point, hlast, covered_points, hgateway,
    covered_poolExclusions, covered_points, exists_unavailable, or_assoc, or_assoc, or_assoc]

/-! ### Merging -/

/-- Merged ranges, newest first: none is empty, each inside the bounds, the gaps real. -/
structure Merged (first last : Int) (l : List (Int × Int)) : Prop where
  bounds : ∀ r ∈ l, first ≤ r.1 ∧ r.1 ≤ r.2 ∧ r.2 ≤ last
  apart : l.Pairwise fun newer older => older.2 < newer.1

theorem merged_nil (first last : Int) : Merged first last [] where
  bounds _ hr := absurd hr List.not_mem_nil
  apart := List.Pairwise.nil

theorem covered_cons {r : Int × Int} {l : List (Int × Int)} {x : Int} :
    Covered (r :: l) x ↔ r.1 ≤ x ∧ x ≤ r.2 ∨ Covered l x := by
  simp only [Covered, List.mem_cons, or_and_right, exists_or, exists_eq_left]

/-- A turn keeps the ranges apart, and adds what is in bounds of its own range. -/
theorem mergeBlocked_merges {first last : Int} {merged : List (Int × Int)} {r : Int × Int}
    (hm : Merged first last merged) (hle : ∀ m ∈ merged, m.1 ≤ max first r.1) :
    Merged first last (mergeBlocked first last merged r) ∧
      (∀ m ∈ mergeBlocked first last merged r, m.1 ≤ max first r.1) ∧
      ∀ x, Covered (mergeBlocked first last merged r) x ↔
        Covered merged x ∨ first ≤ x ∧ x ≤ last ∧ r.1 ≤ x ∧ x ≤ r.2 := by
  unfold mergeBlocked
  dsimp only
  split
  · refine ⟨hm, hle, fun x => ⟨Or.inl, fun h => h.resolve_right ?_⟩⟩
    omega
  · cases merged with
    | nil =>
      refine ⟨⟨fun m hmem => ?_, List.pairwise_singleton _ _⟩, fun m hmem => ?_, fun x => ?_⟩
      · cases List.mem_singleton.mp hmem
        dsimp only
        omega
      · cases List.mem_singleton.mp hmem
        exact le_refl _
      · have hnew : max first r.1 ≤ x ∧ x ≤ min last r.2 ↔ first ≤ x ∧ x ≤ last ∧ r.1 ≤ x ∧ x ≤ r.2 := by omega
        rw [covered_cons, hnew, or_comm]
    | cons newest rest =>
      obtain ⟨hnewest, hrest⟩ := List.pairwise_cons.mp hm.apart
      have hin := hm.bounds newest List.mem_cons_self
      have hlow := hle newest List.mem_cons_self
      dsimp only
      split
      · refine ⟨⟨fun m hmem => ?_, List.pairwise_cons.mpr ⟨hnewest, hrest⟩⟩, fun m hmem => ?_, fun x => ?_⟩
        · rcases List.mem_cons.mp hmem with rfl | hmem
          · dsimp only
            omega
          · exact hm.bounds m (List.mem_cons_of_mem _ hmem)
        · rcases List.mem_cons.mp hmem with rfl | hmem
          · exact hlow
          · exact hle m (List.mem_cons_of_mem _ hmem)
        · have hnew : newest.1 ≤ x ∧ x ≤ max newest.2 (min last r.2) ↔
              (newest.1 ≤ x ∧ x ≤ newest.2) ∨ first ≤ x ∧ x ≤ last ∧ r.1 ≤ x ∧ x ≤ r.2 := by omega
          rw [covered_cons, covered_cons, hnew, or_right_comm]
      · refine ⟨⟨fun m hmem => ?_, List.pairwise_cons.mpr ⟨fun m hmem => ?_, hm.apart⟩⟩, fun m hmem => ?_,
          fun x => ?_⟩
        · rcases List.mem_cons.mp hmem with rfl | hmem
          · dsimp only
            omega
          · exact hm.bounds m hmem
        · -- older ranges end before the newest begins
          dsimp only
          rcases List.mem_cons.mp hmem with rfl | hmem
          · omega
          · have := hnewest m hmem
            omega
        · rcases List.mem_cons.mp hmem with rfl | hmem
          · exact le_refl _
          · exact hle m hmem
        · have hnew : max first r.1 ≤ x ∧ x ≤ min last r.2 ↔ first ≤ x ∧ x ≤ last ∧ r.1 ≤ x ∧ x ≤ r.2 := by omega
          rw [covered_cons, hnew, or_comm]

theorem foldl_mergeBlocked (first last : Int) {l merged : List (Int × Int)} (hl : l.Pairwise fun a b => a.1 ≤ b.1)
    (hm : Merged first last merged) (hle : ∀ r ∈ l, ∀ m ∈ merged, m.1 ≤ max first r.1) :
    Merged first last (l.foldl (mergeBlocked first last) merged) ∧
      ∀ x, Covered (l.foldl (mergeBlocked first last) merged) x ↔
        Covered merged x ∨ first ≤ x ∧ x ≤ last ∧ Covered l x := by
  induction l generalizing merged with
  | nil =>
    refine ⟨hm, fun x => ⟨Or.inl, fun h => h.resolve_right ?_⟩⟩
    exact fun hin => not_covered_nil x hin.2.2
  | cons r rest ih =>
    obtain ⟨hfirst, hrest⟩ := List.pairwise_cons.mp hl
    obtain ⟨hm', hle', hcovers⟩ := mergeBlocked_merges hm (hle r List.mem_cons_self)
    have hnext : ∀ q ∈ rest, ∀ m ∈ mergeBlocked first last merged r, m.1 ≤ max first q.1 := by
      intro q hq m hmem
      have hm := hle' m hmem
      have hrq := hfirst q hq
      omega
    obtain ⟨hmerged, hall⟩ := ih hrest hm' hnext
    refine ⟨hmerged, fun x => ?_⟩
    rw [List.foldl_cons, hall, hcovers, covered_cons]
    tauto

/-- The lengths of ranges that are apart count what they cover. -/
theorem lengths_eq {first last : Int} {l : List (Int × Int)} (h : Merged first last l) :
    lengths l = ((Finset.Icc first last).filter fun x => Covered l x).card := by
  induction l with
  | nil =>
    have hnone : (Finset.Icc first last).filter (fun x => Covered [] x) = ∅ := by
      apply Finset.filter_eq_empty_iff.mpr
      exact fun x _ => not_covered_nil x
    rw [hnone]
    rfl
  | cons r rest ih =>
    obtain ⟨happart, hrest⟩ := List.pairwise_cons.mp h.apart
    have hr := h.bounds r List.mem_cons_self
    have hsplit : (Finset.Icc first last).filter (fun x => Covered (r :: rest) x) =
        Finset.Icc r.1 r.2 ∪ (Finset.Icc first last).filter (fun x => Covered rest x) := by
      ext x
      have hin : r.1 ≤ x ∧ x ≤ r.2 → first ≤ x ∧ x ≤ last := by omega
      simp only [Finset.mem_filter, Finset.mem_union, Finset.mem_Icc, covered_cons]
      tauto
    have hdisjoint : Disjoint (Finset.Icc r.1 r.2) ((Finset.Icc first last).filter fun x => Covered rest x) := by
      rw [Finset.disjoint_left]
      intro x hx hcovered
      obtain ⟨m, hm, hin⟩ := (Finset.mem_filter.mp hcovered).2
      have hgap := happart m hm
      have hlow := (Finset.mem_Icc.mp hx).1
      omega
    have hrec := ih ⟨fun m hm => h.bounds m (List.mem_cons_of_mem _ hm), hrest⟩
    rw [hsplit, Finset.card_union_of_disjoint hdisjoint, Int.card_Icc]
    have hcons : lengths (r :: rest) = (r.2 - r.1 + 1) + lengths rest := rfl
    rw [hcons, hrec]
    omega

/-- **The count** is the number of addresses that are not blocked. -/
theorem availableAddressCount_eq (cidr : Network) (gateway : Option Inet) (exclusions : List (Inet × Inet))
    (unavailable : List Inet) : availableAddressCount cidr gateway exclusions unavailable =
      ((Finset.Icc (cidr.base : Int) cidr.broadcast).filter fun x =>
        ¬ Covered (blockedRanges cidr gateway exclusions unavailable) x).card := by
  set blocked := blockedRanges cidr gateway exclusions unavailable with hblocked
  have hsorted : (blocked.insertionSort lexLe).Pairwise fun a b => a.1 ≤ b.1 := by
    refine (List.pairwise_insertionSort lexLe blocked).imp fun {a b} hab => ?_
    unfold lexLe at hab
    omega
  obtain ⟨hmerged, hcovers⟩ := foldl_mergeBlocked cidr.base cidr.broadcast hsorted
    (merged_nil _ _) fun _ _ m hm => absurd hm List.not_mem_nil
  have hsame : (Finset.Icc (cidr.base : Int) cidr.broadcast).filter (fun x =>
      Covered ((blocked.insertionSort lexLe).foldl (mergeBlocked cidr.base cidr.broadcast) []) x) =
        (Finset.Icc (cidr.base : Int) cidr.broadcast).filter fun x => Covered blocked x := by
    apply Finset.filter_congr
    intro x hx
    obtain ⟨hlow, hhigh⟩ := Finset.mem_Icc.mp hx
    have hmem : Covered (blocked.insertionSort lexLe) x ↔ Covered blocked x := by
      simp only [Covered, List.mem_insertionSort]
    rw [hcovers x, hmem]
    constructor
    · rintro (h | h)
      · exact absurd h (not_covered_nil x)
      · exact h.2.2
    · exact fun h => Or.inr ⟨hlow, hhigh, h⟩
  have hsize : ((Finset.Icc (cidr.base : Int) cidr.broadcast).card : Int) = cidr.numAddresses := by
    have hpos := cidr.numAddresses_pos
    rw [Int.card_Icc]
    unfold Network.broadcast
    omega
  have hcount := Finset.card_filter_add_card_filter_not (s := Finset.Icc (cidr.base : Int) cidr.broadcast)
    fun x => Covered blocked x
  unfold availableAddressCount
  dsimp only
  rw [← hblocked, lengths_eq hmerged, hsame, ← hsize]
  omega

end PveMaster.Observability
