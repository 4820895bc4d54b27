import Mathlib.Data.List.Sort

/-! Pages of a sorted list.

The pages of a list that stays as it is make up the list (`flatMap_page`). Where the list changes
between one page and the next, an element keeps its place in the order: it is on the page of its
position, which is the number of elements before it (`mem_page`), and a reader who goes on by the size
of a page has passed it only if it was on a page (`passed`). -/
namespace PveMaster.Paging

variable {α : Type}

/-- `LIMIT limit OFFSET offset`, of a list in the order of the query. -/
def page (l : List α) (limit offset : Nat) : List α := (l.drop offset).take limit

theorem length_page_le (l : List α) (limit offset : Nat) : (page l limit offset).length ≤ limit := List.length_take_le _ _

theorem mem_of_mem_page {l : List α} {limit offset : Nat} {a : α} (h : a ∈ page l limit offset) : a ∈ l :=
  List.mem_of_mem_drop (List.mem_of_mem_take h)

/-- The first pages of a list that stays as it is. -/
theorem flatMap_page (l : List α) (limit pages : Nat) :
    (List.range pages).flatMap (fun k => page l limit (k * limit)) = l.take (pages * limit) := by
  induction pages with
  | zero => simp
  | succ k ih =>
    rw [List.range_succ, List.flatMap_append, ih, Nat.succ_mul, List.take_add]
    simp [page]

/-! ### Positions -/

section Ahead
variable {κ : Type} (R : κ → κ → Prop) [DecidableRel R] (k : α → κ)

/-- How many elements of a list come before another: its place, wherever the list is cut into
pages. -/
def ahead (l : List α) (a : α) : Nat := l.countP fun b => R (k b) (k a)

/-- `ORDER BY`, where `R` puts the keys in order. -/
def sorted (l : List α) : List α := l.insertionSort fun a b => ¬ R (k b) (k a)

variable {R k}

theorem perm_sorted (l : List α) : (sorted R k l).Perm l := List.perm_insertionSort _ l

@[simp] theorem mem_sorted {l : List α} {a : α} : a ∈ sorted R k l ↔ a ∈ l := (perm_sorted l).mem_iff

@[simp] theorem length_sorted (l : List α) : (sorted R k l).length = l.length := (perm_sorted l).length_eq

theorem ahead_perm {l l' : List α} (h : l.Perm l') (a : α) : ahead R k l a = ahead R k l' a := h.countP_eq _

/-- As long as none of the elements before it are lost. -/
theorem ahead_le {l l' : List α} {a : α} (hl : l.Nodup) (h : ∀ b ∈ l, R (k b) (k a) → b ∈ l') :
    ahead R k l a ≤ ahead R k l' a := by
  unfold ahead
  rw [List.countP_eq_length_filter, List.countP_eq_length_filter]
  have hsub : l.filter (fun b => R (k b) (k a)) ⊆ l'.filter (fun b => R (k b) (k a)) := by
    intro b hb
    obtain ⟨hmem, hbefore⟩ := List.mem_filter.mp hb
    exact List.mem_filter.mpr ⟨h b hmem (of_decide_eq_true hbefore), hbefore⟩
  exact (List.subperm_of_subset (hl.filter _) hsub).length_le

variable [IsStrictTotalOrder κ R]

/-- Where no two elements have one key. -/
theorem pairwise_sorted {l : List α} (hl : (l.map k).Nodup) : (sorted R k l).Pairwise fun a b => R (k a) (k b) := by
  have : Std.Total fun a b : α => ¬ R (k b) (k a) := ⟨fun a b => by
    by_cases h : R (k b) (k a)
    · exact Or.inr (asymm_of R h)
    · exact Or.inl h⟩
  have : IsTrans α fun a b => ¬ R (k b) (k a) := ⟨fun a b c hab hbc hca => by
    rcases trichotomous_of R (k b) (k c) with h | h | h
    · exact hab (trans_of R h hca)
    · exact hab (h ▸ hca)
    · exact hbc h⟩
  have hweak := List.pairwise_insertionSort (fun a b => ¬ R (k b) (k a)) l
  have hdistinct : ((sorted R k l).map k).Nodup := ((perm_sorted l).map k).nodup_iff.mpr hl
  refine (hweak.and (List.pairwise_map.mp hdistinct)).imp fun {a b} hab => ?_
  rcases trichotomous_of R (k a) (k b) with h | h | h
  · exact h
  · exact absurd h hab.2
  · exact absurd h hab.1

/-- In a sorted list an element stands at its position. -/
theorem getElem?_ahead {l : List α} {a : α} (hsorted : l.Pairwise fun a b => R (k a) (k b)) (ha : a ∈ l) :
    l[ahead R k l a]? = some a := by
  induction l with
  | nil => cases ha
  | cons b rest ih =>
    obtain ⟨hfirst, hrest⟩ := List.pairwise_cons.mp hsorted
    rcases List.mem_cons.mp ha with rfl | hlater
    · have hnone : ahead R k (a :: rest) a = 0 := by
        refine List.countP_eq_zero.mpr fun b hb hbefore => ?_
        have hbefore := of_decide_eq_true hbefore
        rcases List.mem_cons.mp hb with rfl | hb
        · exact irrefl_of R _ hbefore
        · exact asymm_of R (hfirst b hb) hbefore
      rw [hnone]
      rfl
    · have hmore : ahead R k (b :: rest) a = ahead R k rest a + 1 :=
        List.countP_cons_of_pos (decide_eq_true (hfirst a hlater))
      rw [hmore, List.getElem?_cons_succ]
      exact ih hrest hlater

theorem ahead_lt {l : List α} {a : α} (hsorted : l.Pairwise fun a b => R (k a) (k b)) (ha : a ∈ l) :
    ahead R k l a < l.length := (List.getElem?_eq_some_iff.mp (getElem?_ahead hsorted ha)).1

theorem mem_page {l : List α} {a : α} {limit offset : Nat} (hsorted : l.Pairwise fun a b => R (k a) (k b)) (ha : a ∈ l)
    (hlow : offset ≤ ahead R k l a) (hhigh : ahead R k l a < offset + limit) : a ∈ page l limit offset := by
  have hat : (page l limit offset)[ahead R k l a - offset]? = some a := by
    unfold page
    rw [List.getElem?_take_of_lt (by omega), List.getElem?_drop, Nat.add_sub_cancel' hlow]
    exact getElem?_ahead hsorted ha
  exact List.mem_of_getElem? hat

/-- An element that none of the pages so far have shown is further on. -/
theorem passed {l : List α} {a : α} {limit offset : Nat} (hsorted : l.Pairwise fun a b => R (k a) (k b)) (ha : a ∈ l)
    (hlow : offset ≤ ahead R k l a) (hmiss : a ∉ page l limit offset) : offset + limit ≤ ahead R k l a := by
  by_contra hhigh
  exact hmiss (mem_page hsorted ha hlow (by omega))

/-- The last page shows an element that none of the pages before it have shown. -/
theorem mem_last {l : List α} {a : α} {limit offset : Nat} (total : Nat) (hsorted : l.Pairwise fun a b => R (k a) (k b)) (ha : a ∈ l)
    (hlow : offset ≤ ahead R k l a) (htotal : l.length ≤ total)
    (hlast : total ≤ offset + (page l limit offset).length) : a ∈ page l limit offset := by
  by_contra hmiss
  have hfar := passed hsorted ha hlow hmiss
  have hlt := ahead_lt hsorted ha
  have hle := length_page_le l limit offset
  omega

end Ahead

/-- Two columns in order, the second where the first are the same. -/
instance lexOrder {κ ν : Type} (R : κ → κ → Prop) (S : ν → ν → Prop) [IsStrictTotalOrder κ R] [IsStrictTotalOrder ν S] :
    IsStrictTotalOrder (κ × ν) (Prod.Lex R S) where

end PveMaster.Paging
