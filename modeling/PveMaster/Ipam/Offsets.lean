import Mathlib.Data.List.Sort

/-! The search for a free offset in a pool.

Blocked intervals are sorted and merged, then the offsets from `start` to the end
of the pool are scanned, and after them the offsets below `start`. What the
service relies on is that a found offset lies inside the pool
(`firstFreeOffset_mem`) and in no blocked interval (`firstFreeOffset_free`). It is the first
such offset in the order of the search (`firstFreeOffset_exact`). -/
namespace PveMaster.Ipam

/-- The order of Python tuples. -/
def lexLe (a b : Int × Int) : Prop := a.1 < b.1 ∨ a.1 = b.1 ∧ a.2 ≤ b.2

instance : DecidableRel lexLe := fun a b => by unfold lexLe; infer_instance

/-- One turn of the merging loop: the part of a range inside the pool joins the last merged range
where the two touch, and begins a new one otherwise. The ranges merged so far stand newest first.
-/
def mergeRange (size : Int) (merged : List (Int × Int)) (r : Int × Int) : List (Int × Int) :=
  if r.2 < 0 ∨ size ≤ r.1 then merged
  else
    let low := max 0 r.1
    let high := min (size - 1) r.2
    match merged with
    | [] => [(low, high)]
    | last :: rest =>
      if low ≤ last.2 + 1 then (last.1, max last.2 high) :: rest else (low, high) :: last :: rest

/-- `merged`, in the order of the source. -/
def mergedRanges (size : Int) (blocked : List (Int × Int)) : List (Int × Int) :=
  ((blocked.insertionSort lexLe).foldl (mergeRange size) []).reverse

/-- The inner loop over the merged ranges: the cursor moves behind every range that holds it, and
stops before one that begins further on. -/
def scanRanges (rangeEnd : Int) : List (Int × Int) → Int → Option Int
  | [], cursor => if cursor ≤ rangeEnd then some cursor else none
  | (low, high) :: rest, cursor =>
    if high < cursor then scanRanges rangeEnd rest cursor
    else if rangeEnd < low then if cursor ≤ rangeEnd then some cursor else none
    else if cursor < low then some cursor
    else if rangeEnd < max cursor (high + 1) then none
    else scanRanges rangeEnd rest (max cursor (high + 1))

/-- One pass of the outer loop, from `rangeStart` to `rangeEnd`, both included. -/
def scanFrom (merged : List (Int × Int)) (rangeStart rangeEnd : Int) : Option Int :=
  if rangeEnd < rangeStart then none else scanRanges rangeEnd merged rangeStart

/-- `_first_free_offset`: one pass from `start` to the end of the pool, and another one over the
offsets before `start`. -/
def firstFreeOffset (size start : Int) (blocked : List (Int × Int)) : Option Int :=
  let merged := mergedRanges size blocked
  (scanFrom merged start (size - 1)).or (scanFrom merged 0 (start - 1))

theorem scanRanges_mem {rangeEnd cursor o : Int} {merged : List (Int × Int)}
    (h : scanRanges rangeEnd merged cursor = some o) : cursor ≤ o ∧ o ≤ rangeEnd := by
  induction merged generalizing cursor with
  | nil =>
    simp only [scanRanges, Option.ite_none_right_eq_some, Option.some.injEq] at h
    omega
  | cons r rest ih =>
    simp only [scanRanges] at h
    split at h
    · exact ih h
    · split at h
      · simp only [Option.ite_none_right_eq_some, Option.some.injEq] at h
        omega
      · split at h
        · cases h
          omega
        · split at h
          · cases h
          · have := ih h
            omega

theorem scanFrom_mem {merged : List (Int × Int)} {rangeStart rangeEnd o : Int}
    (h : scanFrom merged rangeStart rangeEnd = some o) : rangeStart ≤ o ∧ o ≤ rangeEnd := by
  unfold scanFrom at h
  split at h
  · cases h
  · exact scanRanges_mem h

/-- A found offset lies inside the pool, so it is one of its addresses. -/
theorem firstFreeOffset_mem {size start o : Int} {blocked : List (Int × Int)} (hstart : 0 ≤ start)
    (hsize : start ≤ size) (h : firstFreeOffset size start blocked = some o) : 0 ≤ o ∧ o < size := by
  rcases Option.or_eq_some_iff.mp h with h | ⟨_, h⟩
  · have := scanFrom_mem h
    omega
  · have := scanFrom_mem h
    omega

/-! ### A found offset is free -/

/-- Whether one of some ranges holds an offset. -/
def Covered (ranges : List (Int × Int)) (x : Int) : Prop := ∃ r ∈ ranges, r.1 ≤ x ∧ x ≤ r.2

theorem covered_append {l m : List (Int × Int)} {x : Int} : Covered (l ++ m) x ↔ Covered l x ∨ Covered m x := by
  simp only [Covered, List.mem_append, or_and_right, exists_or]

theorem covered_map {α : Type} {l : List α} {f : α → Int × Int} {x : Int} :
    Covered (l.map f) x ↔ ∃ a ∈ l, (f a).1 ≤ x ∧ x ≤ (f a).2 := by
  simp only [Covered, List.mem_map, exists_exists_and_eq_and]

/-- Single offsets, as intervals. -/
theorem covered_points {α : Type} {l : List α} {f : α → Int} {x : Int} :
    Covered (l.map fun a => (f a, f a)) x ↔ ∃ a ∈ l, x = f a := by
  rw [covered_map]
  exact exists_congr fun a => and_congr_right fun _ => ⟨fun h => Int.le_antisymm h.2 h.1, fun h => ⟨h.ge, h.le⟩⟩

theorem covered_point {i x : Int} : Covered [(i, i)] x ↔ x = i := by
  simp only [Covered, List.mem_singleton, exists_eq_left]
  exact ⟨fun h => Int.le_antisymm h.2 h.1, fun h => ⟨h.ge, h.le⟩⟩

instance : IsTrans (Int × Int) lexLe where
  trans a b c hab hbc := by
    unfold lexLe at *
    omega

instance : Std.Total lexLe where
  total a b := by
    unfold lexLe
    omega

/-- A turn keeps the ranges in order, and covers what they covered and its own range. -/
theorem mergeRange_covers (size : Int) {merged : List (Int × Int)} {r : Int × Int}
    (hm : merged.Pairwise fun a b => b.1 ≤ a.1) (hle : ∀ m ∈ merged, m.1 ≤ max 0 r.1) :
    (mergeRange size merged r).Pairwise (fun a b => b.1 ≤ a.1) ∧
      (∀ m ∈ mergeRange size merged r, m.1 ≤ max 0 r.1) ∧
      ∀ x, 0 ≤ x → x < size → Covered merged x ∨ r.1 ≤ x ∧ x ≤ r.2 → Covered (mergeRange size merged r) x := by
  unfold mergeRange
  split
  · refine ⟨hm, hle, fun x hx hsize hcovered => ?_⟩
    rcases hcovered with hold | hnew
    · exact hold
    · omega
  · next hin =>
    cases merged with
    | nil =>
      refine ⟨List.pairwise_singleton _ _, fun m hmem => ?_, fun x hx hsize hcovered => ?_⟩
      · cases List.mem_singleton.mp hmem
        exact le_refl _
      · rcases hcovered with ⟨m, hmem, -⟩ | hnew
        · cases hmem
        · refine ⟨_, List.mem_singleton_self _, ?_⟩
          dsimp only
          omega
    | cons last rest =>
      obtain ⟨hlast, hrest⟩ := List.pairwise_cons.mp hm
      have hlow : last.1 ≤ max 0 r.1 := hle last List.mem_cons_self
      dsimp only
      split
      · refine ⟨List.pairwise_cons.mpr ⟨hlast, hrest⟩, fun m hmem => ?_, fun x hx hsize hcovered => ?_⟩
        · rcases List.mem_cons.mp hmem with rfl | hmem
          · exact hlow
          · exact hle m (List.mem_cons_of_mem _ hmem)
        · rcases hcovered with ⟨m, hmem, hcovers⟩ | hnew
          · rcases List.mem_cons.mp hmem with rfl | hmem
            · exact ⟨_, List.mem_cons_self, by dsimp only; omega⟩
            · exact ⟨m, List.mem_cons_of_mem _ hmem, hcovers⟩
          · exact ⟨_, List.mem_cons_self, by dsimp only; omega⟩
      · refine ⟨List.pairwise_cons.mpr ⟨hle, hm⟩, fun m hmem => ?_, fun x hx hsize hcovered => ?_⟩
        · rcases List.mem_cons.mp hmem with rfl | hmem
          · exact le_refl _
          · exact hle m hmem
        · rcases hcovered with ⟨m, hmem, hcovers⟩ | hnew
          · exact ⟨m, List.mem_cons_of_mem _ hmem, hcovers⟩
          · exact ⟨_, List.mem_cons_self, by dsimp only; omega⟩

theorem foldl_mergeRange (size : Int) {l merged : List (Int × Int)} (hl : l.Pairwise fun a b => a.1 ≤ b.1)
    (hm : merged.Pairwise fun a b => b.1 ≤ a.1) (hle : ∀ r ∈ l, ∀ m ∈ merged, m.1 ≤ max 0 r.1) :
    (l.foldl (mergeRange size) merged).Pairwise (fun a b => b.1 ≤ a.1) ∧
      ∀ x, 0 ≤ x → x < size → Covered merged x ∨ Covered l x → Covered (l.foldl (mergeRange size) merged) x := by
  induction l generalizing merged with
  | nil =>
    refine ⟨hm, fun x _ _ hcovered => ?_⟩
    rcases hcovered with hold | ⟨r, hr, -⟩
    · exact hold
    · cases hr
  | cons r rest ih =>
    obtain ⟨hfirst, hrest⟩ := List.pairwise_cons.mp hl
    obtain ⟨hm', hle', hcovers⟩ := mergeRange_covers size hm (hle r List.mem_cons_self)
    have hnext : ∀ q ∈ rest, ∀ m ∈ mergeRange size merged r, m.1 ≤ max 0 q.1 := by
      intro q hq m hmem
      have hm := hle' m hmem
      have hrq := hfirst q hq
      omega
    obtain ⟨hsorted, hall⟩ := ih hrest hm' hnext
    refine ⟨hsorted, fun x hx hsize hcovered => hall x hx hsize ?_⟩
    rcases hcovered with hold | ⟨q, hq, hin⟩
    · exact Or.inl (hcovers x hx hsize (Or.inl hold))
    · rcases List.mem_cons.mp hq with rfl | hq
      · exact Or.inl (hcovers x hx hsize (Or.inr hin))
      · exact Or.inr ⟨q, hq, hin⟩

/-- The merged ranges are in order and cover what is blocked inside the pool. -/
theorem mergedRanges_covers (size : Int) (blocked : List (Int × Int)) :
    (mergedRanges size blocked).Pairwise (fun a b => a.1 ≤ b.1) ∧
      ∀ x, 0 ≤ x → x < size → Covered blocked x → Covered (mergedRanges size blocked) x := by
  have hsorted : (blocked.insertionSort lexLe).Pairwise fun a b => a.1 ≤ b.1 := by
    refine (List.pairwise_insertionSort lexLe blocked).imp fun {a b} hab => ?_
    unfold lexLe at hab
    omega
  obtain ⟨horder, hcovers⟩ := foldl_mergeRange size hsorted List.Pairwise.nil fun _ _ _ hm => by cases hm
  refine ⟨List.pairwise_reverse.mpr horder, fun x hx hsize ⟨r, hr, hin⟩ => ?_⟩
  obtain ⟨m, hm, hcovered⟩ := hcovers x hx hsize (Or.inr ⟨r, (List.mem_insertionSort lexLe).mpr hr, hin⟩)
  exact ⟨m, List.mem_reverse.mpr hm, hcovered⟩

/-- A scan of ranges in order passes every range that holds its cursor. -/
theorem scanRanges_free {rangeEnd cursor o : Int} {merged : List (Int × Int)}
    (hm : merged.Pairwise fun a b => a.1 ≤ b.1) (h : scanRanges rangeEnd merged cursor = some o) :
    ¬ Covered merged o := by
  induction merged generalizing cursor with
  | nil =>
    rintro ⟨r, hr, -⟩
    cases hr
  | cons r rest ih =>
    obtain ⟨hfirst, hrest⟩ := List.pairwise_cons.mp hm
    have hbelow (ho : o < r.1) : ¬ Covered (r :: rest) o := by
      rintro ⟨q, hq, hlow, -⟩
      rcases List.mem_cons.mp hq with rfl | hq
      · omega
      · have hle := hfirst q hq
        omega
    have habove {cursor' : Int} (hpast : r.2 < cursor') (hscan : scanRanges rangeEnd rest cursor' = some o) :
        ¬ Covered (r :: rest) o := by
      have hmem := scanRanges_mem hscan
      rintro ⟨q, hq, hin⟩
      rcases List.mem_cons.mp hq with rfl | hq
      · omega
      · exact ih hrest hscan ⟨q, hq, hin⟩
    simp only [scanRanges] at h
    split at h
    · next hhigh => exact habove hhigh h
    · split at h
      · simp only [Option.ite_none_right_eq_some, Option.some.injEq] at h
        exact hbelow (by omega)
      · split at h
        · cases h
          exact hbelow (by omega)
        · split at h
          · cases h
          · exact habove (by omega) h

/-- A found offset is in no blocked interval. -/
theorem firstFreeOffset_free {size start o : Int} {blocked : List (Int × Int)} (hstart : 0 ≤ start)
    (hsize : start ≤ size) (h : firstFreeOffset size start blocked = some o) : ¬ Covered blocked o := by
  obtain ⟨hmem, hlt⟩ := firstFreeOffset_mem hstart hsize h
  obtain ⟨horder, hcovers⟩ := mergedRanges_covers size blocked
  have hscan {a b : Int} (hs : scanFrom (mergedRanges size blocked) a b = some o) : ¬ Covered blocked o := by
    unfold scanFrom at hs
    split at hs
    · cases hs
    · exact fun hc => scanRanges_free horder hs (hcovers o hmem hlt hc)
  rcases Option.or_eq_some_iff.mp h with h | ⟨-, h⟩
  · exact hscan h
  · exact hscan h

/-! ### The first free offset is found -/

instance (ranges : List (Int × Int)) (x : Int) : Decidable (Covered ranges x) :=
  inferInstanceAs (Decidable (∃ r ∈ ranges, r.1 ≤ x ∧ x ≤ r.2))

/-- The `count` offsets from `first` on. -/
def offsetsFrom (first count : Int) : List Int := (List.range count.toNat).map fun i : Nat => first + i

/-- The order of the search: `start, …, size - 1, 0, …, start - 1`. -/
def cyclicOffsets (size start : Int) : List Int := offsetsFrom start (size - start) ++ offsetsFrom 0 start

theorem mem_offsetsFrom {first count x : Int} : x ∈ offsetsFrom first count ↔ first ≤ x ∧ x < first + count := by
  simp only [offsetsFrom, List.mem_map, List.mem_range]
  constructor
  · rintro ⟨i, hi, rfl⟩
    omega
  · intro h
    exact ⟨(x - first).toNat, by omega, by omega⟩

theorem mem_cyclicOffsets {size start x : Int} (hstart : 0 ≤ start) (hlt : start < size) :
    x ∈ cyclicOffsets size start ↔ 0 ≤ x ∧ x < size := by
  rw [cyclicOffsets, List.mem_append, mem_offsetsFrom, mem_offsetsFrom]
  omega

/-- The first offset that satisfies `p`, told by what it passes. -/
theorem find?_offsetsFrom {first count : Int} {p : Int → Bool} {found : Option Int}
    (hsome : ∀ o, found = some o → first ≤ o ∧ o < first + count ∧ p o = true ∧ ∀ x, first ≤ x → x < o → p x = false)
    (hnone : found = none → ∀ x, first ≤ x → x < first + count → p x = false) :
    (offsetsFrom first count).find? p = found := by
  cases found with
  | none =>
    rw [List.find?_eq_none]
    intro x hx
    obtain ⟨hlow, hhigh⟩ := mem_offsetsFrom.mp hx
    simp [hnone rfl x hlow hhigh]
  | some o =>
    obtain ⟨hlow, hhigh, hp, hfirst⟩ := hsome o rfl
    rw [offsetsFrom, List.find?_map, Option.map_eq_some_iff]
    refine ⟨(o - first).toNat, List.find?_range_eq_some.mpr ⟨?_, ?_, fun i hi => ?_⟩, by omega⟩
    · rw [Function.comp_apply, show first + ((o - first).toNat : Int) = o by omega]
      exact hp
    · rw [List.mem_range]
      omega
    · rw [Function.comp_apply, hfirst (first + i) (by omega) (by omega)]
      rfl

/-- A turn covers nothing but what the ranges covered and its own range. -/
theorem mergeRange_only {size : Int} {merged : List (Int × Int)} {r : Int × Int} {x : Int}
    (h : Covered (mergeRange size merged r) x) : Covered merged x ∨ r.1 ≤ x ∧ x ≤ r.2 := by
  unfold mergeRange at h
  split at h
  · exact Or.inl h
  · cases merged with
    | nil =>
      obtain ⟨m, hm, hin⟩ := h
      cases List.mem_singleton.mp hm
      dsimp only at hin
      omega
    | cons last rest =>
      dsimp only at h
      split at h
      · obtain ⟨m, hm, hin⟩ := h
        rcases List.mem_cons.mp hm with rfl | hm
        · -- beyond the last range the new one begins at once
          by_cases hlast : x ≤ last.2
          · exact Or.inl ⟨last, List.mem_cons_self, hin.1, hlast⟩
          · dsimp only at hin
            omega
        · exact Or.inl ⟨m, List.mem_cons_of_mem _ hm, hin⟩
      · obtain ⟨m, hm, hin⟩ := h
        rcases List.mem_cons.mp hm with rfl | hm
        · dsimp only at hin
          omega
        · exact Or.inl ⟨m, hm, hin⟩

/-- The merged ranges cover what is blocked, inside the pool. -/
theorem covered_mergedRanges {size : Int} {blocked : List (Int × Int)} {x : Int} (hx : 0 ≤ x) (hlt : x < size) :
    Covered (mergedRanges size blocked) x ↔ Covered blocked x := by
  refine ⟨fun h => ?_, (mergedRanges_covers size blocked).2 x hx hlt⟩
  have only {l merged : List (Int × Int)} (h : Covered (l.foldl (mergeRange size) merged) x) :
      Covered merged x ∨ Covered l x := by
    induction l generalizing merged with
    | nil => exact Or.inl h
    | cons r rest ih =>
      rcases ih h with hold | ⟨q, hq, hin⟩
      · rcases mergeRange_only hold with hmerged | hnew
        · exact Or.inl hmerged
        · exact Or.inr ⟨r, List.mem_cons_self, hnew⟩
      · exact Or.inr ⟨q, List.mem_cons_of_mem _ hq, hin⟩
  obtain ⟨m, hm, hin⟩ := h
  rcases only ⟨m, List.mem_reverse.mp hm, hin⟩ with ⟨q, hq, -⟩ | ⟨q, hq, hcovers⟩
  · cases hq
  · exact ⟨q, (List.mem_insertionSort lexLe).mp hq, hcovers⟩

/-- A scan passes covered offsets only. -/
theorem scanRanges_skips (rangeEnd : Int) {cursor x : Int} {merged : List (Int × Int)} (hcursor : cursor ≤ x)
    (h : ∀ o, scanRanges rangeEnd merged cursor = some o → x < o)
    (hnone : scanRanges rangeEnd merged cursor = none → x ≤ rangeEnd) : Covered merged x := by
  induction merged generalizing cursor with
  | nil =>
    simp only [scanRanges] at h hnone
    split at h
    · have := h cursor rfl
      omega
    · next hend =>
      rw [if_neg hend] at hnone
      have := hnone rfl
      omega
  | cons r rest ih =>
    obtain ⟨low, high⟩ := r
    have later (hc : Covered rest x) : Covered ((low, high) :: rest) x := by
      obtain ⟨q, hq, hin⟩ := hc
      exact ⟨q, List.mem_cons_of_mem _ hq, hin⟩
    simp only [scanRanges] at h hnone
    by_cases hpast : high < cursor
    · simp only [if_pos hpast] at h hnone
      exact later (ih hcursor h hnone)
    · simp only [if_neg hpast] at h hnone
      by_cases hbreak : rangeEnd < low
      · simp only [if_pos hbreak] at h hnone
        by_cases hend : cursor ≤ rangeEnd
        · simp only [if_pos hend] at h
          have := h cursor rfl
          omega
        · simp only [if_neg hend] at hnone
          have := hnone trivial
          omega
      · simp only [if_neg hbreak] at h hnone
        by_cases hgap : cursor < low
        · simp only [if_pos hgap] at h
          have := h cursor rfl
          omega
        · simp only [if_neg hgap] at h hnone
          by_cases hin : x ≤ high
          · exact ⟨(low, high), List.mem_cons_self, by dsimp only; omega⟩
          · by_cases hend : rangeEnd < max cursor (high + 1)
            · simp only [if_pos hend] at hnone
              have := hnone trivial
              omega
            · simp only [if_neg hend] at h hnone
              exact later (ih (by omega) h hnone)

/-- One pass finds the first offset of its range that is not blocked. -/
theorem scanFrom_eq (blocked : List (Int × Int)) {size first last : Int} (hfirst : 0 ≤ first) (hlast : last < size) :
    scanFrom (mergedRanges size blocked) first last =
      (offsetsFrom first (last + 1 - first)).find? fun x => !decide (Covered blocked x) := by
  have horder := (mergedRanges_covers size blocked).1
  symm
  apply find?_offsetsFrom
  · intro o ho
    obtain ⟨hlow, hhigh⟩ := scanFrom_mem ho
    have hscan : scanRanges last (mergedRanges size blocked) first = some o := by
      rwa [scanFrom, if_neg (by omega)] at ho
    have hfree : ¬ Covered blocked o := by
      rw [← covered_mergedRanges (by omega) (by omega : o < size)]
      exact scanRanges_free horder hscan
    refine ⟨hlow, by omega, by simpa using hfree, fun x hx hxo => ?_⟩
    have hcovered : Covered (mergedRanges size blocked) x := by
      apply scanRanges_skips last hx
      · intro o' ho'
        rw [hscan] at ho'
        cases ho'
        exact hxo
      · intro hnone
        rw [hscan] at hnone
        cases hnone
    simpa using (covered_mergedRanges (by omega) (by omega)).mp hcovered
  · intro hnone x hx hxlast
    have hscan : scanRanges last (mergedRanges size blocked) first = none := by
      rwa [scanFrom, if_neg (by omega)] at hnone
    have hcovered : Covered (mergedRanges size blocked) x := by
      apply scanRanges_skips last hx
      · intro o ho
        rw [hscan] at ho
        cases ho
      · exact fun _ => by omega
    simpa using (covered_mergedRanges (by omega) (by omega)).mp hcovered

/-- **The search is exact**: it finds the first offset in cyclic order that no interval covers,
and none if and only if all are covered, whatever the size of the pool and however the intervals
overlap or reach beyond it. -/
theorem firstFreeOffset_exact {size start : Int} (hstart : 0 ≤ start) (hlt : start < size)
    (blocked : List (Int × Int)) :
    firstFreeOffset size start blocked = (cyclicOffsets size start).find? (fun x => !decide (Covered blocked x)) ∧
      (firstFreeOffset size start blocked = none ↔ ∀ x, 0 ≤ x → x < size → Covered blocked x) := by
  have hfind : firstFreeOffset size start blocked =
      (cyclicOffsets size start).find? fun x => !decide (Covered blocked x) := by
    have hupper := scanFrom_eq blocked hstart (by omega : size - 1 < size)
    have hlower := scanFrom_eq blocked (le_refl 0) (by omega : start - 1 < size)
    rw [show size - 1 + 1 - start = size - start by omega] at hupper
    rw [show start - 1 + 1 - 0 = start by omega] at hlower
    rw [firstFreeOffset, cyclicOffsets, List.find?_append, hupper, hlower]
  refine ⟨hfind, ?_⟩
  rw [hfind, List.find?_eq_none]
  constructor
  · intro h x hx hsize
    simpa using h x ((mem_cyclicOffsets hstart hlt).mpr ⟨hx, hsize⟩)
  · intro h x hx
    obtain ⟨hlow, hhigh⟩ := (mem_cyclicOffsets hstart hlt).mp hx
    simpa using h x hlow hhigh

/-- Nested, touching and overlong intervals, and a search that wraps around. -/
theorem wrapped_search :
    firstFreeOffset 8 3 [(-5, 0), (7, 9), (3, 4), (5, 6), (4, 4)] =
        (cyclicOffsets 8 3).find? (fun x => !decide (Covered [(-5, 0), (7, 9), (3, 4), (5, 6), (4, 4)] x)) ∧
      (firstFreeOffset 8 3 [(-5, 0), (7, 9), (3, 4), (5, 6), (4, 4)] = none ↔
        ∀ x, 0 ≤ x → x < 8 → Covered [(-5, 0), (7, 9), (3, 4), (5, 6), (4, 4)] x) :=
  firstFreeOffset_exact (by decide) (by decide) _

example : firstFreeOffset 8 3 [(0, 0), (7, 7), (3, 4), (5, 6)] = some 1 := by decide

end PveMaster.Ipam
