import PveMaster.Foundation.Table

/-! Batches: many updates of a table, or many inserts, one after the other.

Updates at different keys do not meet, so a batch of them is one rewrite of every row
(`get?_foldl_update`). A batch of inserts that clash with nothing appends its rows. -/
namespace PveMaster.Table
open Keyed (key)

variable {ρ κ γ : Type} [Keyed ρ κ] [DecidableEq κ]

/-- Where a column tells elements apart, it finds each of them. -/
theorem find?_of_mem {f : γ → κ} {l : List γ} (hdistinct : (l.map f).Nodup) {x : γ} (hx : x ∈ l) :
    l.find? (fun y => f y == f x) = some x := by
  induction l with
  | nil => cases hx
  | cons y rest ih =>
    obtain ⟨hnew, hrest⟩ := List.nodup_cons.mp hdistinct
    rw [List.find?_cons]
    rcases List.mem_cons.mp hx with rfl | hx
    · rw [beq_self_eq_true]
    · have hne : f y ≠ f x := fun h => hnew (List.mem_map.mpr ⟨x, hx, h.symm⟩)
      rw [beq_false_of_ne hne]
      exact ih hrest hx

/-- Updates at different keys: a row sees the one that is meant for it. -/
theorem get?_foldl_update {k : γ → κ} {f : γ → ρ → ρ} (hf : ∀ c r, key (f c r) = key r) {cs : List γ}
    (hdistinct : (cs.map k).Nodup) (t : Table ρ) (j : κ) :
    (cs.foldl (fun t c => t.update (k c) (f c)) t).get? j =
      (t.get? j).map fun r => ((cs.find? fun c => k c == j).map fun c => f c r).getD r := by
  induction cs generalizing t with
  | nil =>
    show t.get? j = (t.get? j).map fun r => r
    rw [Option.map_id']
  | cons c rest ih =>
    obtain ⟨hnew, hrest⟩ := List.nodup_cons.mp hdistinct
    rw [List.foldl_cons, ih hrest, List.find?_cons]
    by_cases hj : k c = j
    · subst hj
      have hnone : (rest.find? fun d => k d == k c) = none := by
        rw [List.find?_eq_none]
        intro d hd
        have hne : k d ≠ k c := fun h => hnew (List.mem_map.mpr ⟨d, hd, h⟩)
        simpa using hne
      rw [get?_update_self t (k c) (hf c), hnone, Option.map_map, beq_self_eq_true]
      rfl
    · rw [get?_update_of_ne (f c) (Ne.symm hj), beq_false_of_ne hj]

/-- A batch of inserts appends its rows. -/
theorem foldlM_insertUnless_some {clashes : ρ → ρ → Bool} {added : List ρ} {t t' : Table ρ}
    (h : added.foldlM (insertUnless clashes) t = some t') :
    (∀ r, r ∈ t' ↔ r ∈ t ∨ r ∈ added) ∧ ∀ r ∈ added, t.get? (key r) = none := by
  induction added generalizing t with
  | nil =>
    cases h
    simp
  | cons a rest ih =>
    rw [List.foldlM_cons] at h
    obtain ⟨t₁, hinsert, h⟩ := Option.bind_eq_some_iff.mp h
    obtain ⟨-, hinsert⟩ := insertUnless_some hinsert
    obtain ⟨hmem, hnew⟩ := ih h
    constructor
    · intro r
      rw [hmem, mem_insert hinsert, List.mem_cons, or_assoc]
    · intro r hr
      rw [get?_eq_none]
      intro q hq he
      rcases List.mem_cons.mp hr with rfl | hr
      · exact (insert_some hinsert).2 q hq he
      · exact get?_eq_none.mp (hnew r hr) q ((mem_insert hinsert).mpr (Or.inl hq)) he

/-- It goes through where keys are new and nothing clashes. -/
theorem foldlM_insertUnless_new {clashes : ρ → ρ → Bool} {added : List ρ} {t : Table ρ}
    (hnew : ∀ r ∈ added, t.get? (key r) = none) (hdistinct : (added.map key).Nodup)
    (hclash : ∀ r ∈ added, ∀ q ∈ t, clashes r q = false)
    (hapart : added.Pairwise fun q r => clashes r q = false) :
    ∃ t', added.foldlM (insertUnless clashes) t = some t' := by
  induction added generalizing t with
  | nil => exact ⟨t, rfl⟩
  | cons a rest ih =>
    obtain ⟨hkey, hrest⟩ := List.nodup_cons.mp hdistinct
    obtain ⟨ha, hapart⟩ := List.pairwise_cons.mp hapart
    obtain ⟨t₁, hinsert⟩ := insert_new (hnew a List.mem_cons_self)
    have hunless : insertUnless clashes t a = some t₁ := by
      have hnone : t.rows.any (clashes a) = false := by
        rw [List.any_eq_false]
        intro q hq
        rw [hclash a List.mem_cons_self q hq]
        exact Bool.false_ne_true
      unfold insertUnless
      rw [hnone]
      exact hinsert
    rw [List.foldlM_cons, hunless]
    apply ih
    · intro r hr
      rw [get?_insert_of_ne hinsert]
      · exact hnew r (List.mem_cons_of_mem _ hr)
      · exact fun h => hkey (List.mem_map.mpr ⟨r, hr, h⟩)
    · exact hrest
    · intro r hr q hq
      rcases (mem_insert hinsert).mp hq with hq | rfl
      · exact hclash r (List.mem_cons_of_mem _ hr) q hq
      · exact ha r hr
    · exact hapart

end PveMaster.Table
