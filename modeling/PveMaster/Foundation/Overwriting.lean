import Mathlib.Algebra.BigOperators.Group.List.Basic
import Mathlib.Data.Finset.Card
import Mathlib.Data.List.Induction

/-! A dictionary that is filled in a loop, an entry of a key in place of the one before it.

What stays is one entry for each key (`mem_keys_overwritten`), the last one. So a sum over
the values does not depend on the order of the loop exactly when the entries of a key
agree in what is summed: entries that agree give the same sum (`sum_perm`), and of two that
differ each can be the last (`exists_perm_put`, `sum_put_eq`). -/
namespace PveMaster.Overwriting

variable {α κ β : Type} [DecidableEq κ] (key : α → κ)

/-- `d[key(x)] = x`, of the values in the order of their keys: in place of the value the key has,
or behind all others. -/
def put : List α → α → List α
  | [], x => [x]
  | y :: rest, x => if key y = key x then x :: rest else y :: put rest x

/-- `for x in l: d[key(x)] = x`, of an empty dictionary: the values that stand in it after the
loop. -/
def overwritten (l : List α) : List α := l.foldl (put key) []

variable {key} {d l l' : List α} {x y : α}

@[simp] theorem overwritten_nil : overwritten key [] = [] := rfl

@[simp] theorem overwritten_concat (l : List α) (x : α) :
    overwritten key (l ++ [x]) = put key (overwritten key l) x := by
  simp [overwritten, List.foldl_append]

theorem mem_put_self (d : List α) (x : α) : x ∈ put key d x := by
  induction d with
  | nil => exact List.mem_singleton_self x
  | cons y rest ih =>
    unfold put
    split
    · exact List.mem_cons_self
    · exact List.mem_cons_of_mem y ih

theorem mem_of_mem_put (h : y ∈ put key d x) : y = x ∨ y ∈ d := by
  induction d with
  | nil => exact Or.inl (List.mem_singleton.mp h)
  | cons z rest ih =>
    unfold put at h
    split at h
    · rcases List.mem_cons.mp h with rfl | h
      · exact Or.inl rfl
      · exact Or.inr (List.mem_cons_of_mem z h)
    · rcases List.mem_cons.mp h with rfl | h
      · exact Or.inr List.mem_cons_self
      · exact (ih h).imp_right (List.mem_cons_of_mem z)

/-- The keys: the new one is appended, unless it is there. -/
theorem map_key_put (d : List α) (x : α) :
    (put key d x).map key = if key x ∈ d.map key then d.map key else d.map key ++ [key x] := by
  induction d with
  | nil => rfl
  | cons y rest ih =>
    unfold put
    by_cases h : key y = key x
    · rw [if_pos h, List.map_cons, List.map_cons, h, if_pos List.mem_cons_self]
    · have hmem : key x ∈ key y :: rest.map key ↔ key x ∈ rest.map key := by
        rw [List.mem_cons, or_iff_right (Ne.symm h)]
      rw [if_neg h, List.map_cons, List.map_cons, ih]
      simp only [hmem]
      split
      · rfl
      · rw [List.cons_append]

theorem nodup_put (hd : (d.map key).Nodup) (x : α) : ((put key d x).map key).Nodup := by
  rw [map_key_put]
  split
  · exact hd
  · next h => exact List.nodup_append.mpr ⟨hd, List.nodup_singleton _, fun a ha b hb => by
      rw [List.mem_singleton] at hb
      exact fun hab => h (hb ▸ hab ▸ ha)⟩

theorem nodup_overwritten (l : List α) : ((overwritten key l).map key).Nodup := by
  induction l using List.reverseRecOn with
  | nil => exact List.nodup_nil
  | append_singleton l x ih =>
    rw [overwritten_concat]
    exact nodup_put ih x

theorem mem_of_mem_overwritten (h : x ∈ overwritten key l) : x ∈ l := by
  induction l using List.reverseRecOn with
  | nil => cases h
  | append_singleton l y ih =>
    rw [overwritten_concat] at h
    rcases mem_of_mem_put h with rfl | h
    · exact List.mem_append_right l (List.mem_singleton_self x)
    · exact List.mem_append_left [y] (ih h)

theorem mem_keys_overwritten (k : κ) (l : List α) : k ∈ (overwritten key l).map key ↔ k ∈ l.map key := by
  induction l using List.reverseRecOn with
  | nil => exact Iff.rfl
  | append_singleton l x ih =>
    rw [overwritten_concat, map_key_put, List.map_append, List.mem_append, ← ih]
    split
    · next h => exact (or_iff_left_of_imp fun hk => List.mem_singleton.mp hk ▸ h).symm
    · rw [List.mem_append]
      rfl

/-- One entry for each key. -/
theorem length_overwritten (l : List α) : (overwritten key l).length = (l.map key).toFinset.card := by
  have hkeys : ((overwritten key l).map key).toFinset = (l.map key).toFinset := by
    ext k
    rw [List.mem_toFinset, List.mem_toFinset, mem_keys_overwritten]
  rw [← hkeys, List.toFinset_card_of_nodup (nodup_overwritten l), List.length_map]

/-- Of two entries of a key in a row the first leaves nothing. -/
theorem put_put (h : key x = key y) (d : List α) : put key (put key d x) y = put key d y := by
  induction d with
  | nil => simp [put, h]
  | cons z rest ih =>
    by_cases hz : key z = key x
    · simp [put, hz, h]
    · have hz' : key z ≠ key y := h ▸ hz
      simp [put, hz, hz', ih]

/-- Either of two entries of a key can be the last. -/
theorem exists_perm_put (hx : x ∈ l) (hy : y ∈ l) (h : key x = key y) (hne : x ≠ y) :
    ∃ d, (d.map key).Nodup ∧ (∃ a, a.Perm l ∧ overwritten key a = put key d x) ∧
      ∃ b, b.Perm l ∧ overwritten key b = put key d y := by
  obtain ⟨s, hs⟩ : ∃ s, (x :: s).Perm l := by
    obtain ⟨s, t, rfl⟩ := List.append_of_mem hx
    exact ⟨s ++ t, List.perm_middle.symm⟩
  have hy : y ∈ s := by
    rcases List.mem_cons.mp (hs.mem_iff.mpr hy) with rfl | hy
    · exact absurd rfl hne
    · exact hy
  obtain ⟨r, hr⟩ : ∃ r, (y :: r).Perm s := by
    obtain ⟨a, b, rfl⟩ := List.append_of_mem hy
    exact ⟨a ++ b, List.perm_middle.symm⟩
  have hall : (x :: y :: r).Perm l := (hr.cons x).trans hs
  have hrev {u v : α} : (r ++ [u] ++ [v]).Perm (u :: v :: r) := by
    rw [List.append_assoc]
    exact List.perm_append_comm
  refine ⟨overwritten key r, nodup_overwritten r, ⟨r ++ [y] ++ [x], ?_, ?_⟩, ⟨r ++ [x] ++ [y], ?_, ?_⟩⟩
  · exact hrev.trans ((List.Perm.swap x y r).trans hall)
  · rw [overwritten_concat, overwritten_concat, put_put h.symm]
  · exact hrev.trans hall
  · rw [overwritten_concat, overwritten_concat, put_put h]

section Sums
variable [AddCommMonoid β] {f : α → β}

/-- What is put comes in place of what was there under its key. -/
theorem sum_put (hd : (d.map key).Nodup) (x : α) :
    ((put key d x).map f).sum = ((d.filter fun y => key y ≠ key x).map f).sum + f x := by
  induction d with
  | nil => simp [put]
  | cons y rest ih =>
    obtain ⟨hnew, hrest⟩ := List.nodup_cons.mp hd
    by_cases h : key y = key x
    · have hput : put key (y :: rest) x = x :: rest := if_pos h
      have hkept : rest.filter (fun z => key z ≠ key x) = rest := by
        refine List.filter_eq_self.mpr fun z hz => decide_eq_true fun hzx => hnew ?_
        rw [h, ← hzx]
        exact List.mem_map_of_mem hz
      rw [hput, List.filter_cons_of_neg (by simpa using h), hkept, List.map_cons, List.sum_cons, add_comm]
    · have hput : put key (y :: rest) x = y :: put key rest x := if_neg h
      rw [hput, List.filter_cons_of_pos (by simpa using h), List.map_cons, List.map_cons, List.sum_cons,
        List.sum_cons, ih hrest, add_assoc]

/-- The sum tells apart what is put last. -/
theorem sum_put_eq {γ : Type} [AddCommGroup γ] {f : α → γ} (hd : (d.map key).Nodup) (h : key x = key y)
    (hsum : ((put key d x).map f).sum = ((put key d y).map f).sum) : f x = f y := by
  rw [sum_put hd, sum_put hd, h] at hsum
  exact add_left_cancel hsum

/-- Entries of a key that agree: what is summed is a function of the key. -/
theorem exists_factor (h : ∀ x ∈ l, ∀ y ∈ l, key x = key y → f x = f y) :
    ∃ g : κ → β, ∀ x ∈ l, f x = g (key x) := by
  classical
  refine ⟨fun k => if hk : ∃ x ∈ l, key x = k then f hk.choose else 0, fun x hx => ?_⟩
  have hk : ∃ y ∈ l, key y = key x := ⟨x, hx, rfl⟩
  show f x = if hk : ∃ y ∈ l, key y = key x then f hk.choose else 0
  rw [dif_pos hk]
  exact h x hx _ hk.choose_spec.1 hk.choose_spec.2.symm

/-- **Sums over entries that agree** do not depend on the order. -/
theorem sum_perm (h : ∀ x ∈ l, ∀ y ∈ l, key x = key y → f x = f y) (hp : l'.Perm l) :
    ((overwritten key l').map f).sum = ((overwritten key l).map f).sum := by
  obtain ⟨g, hg⟩ := exists_factor h
  have hmap {a : List α} (ha : a.Perm l) :
      (overwritten key a).map f = ((overwritten key a).map key).map g := by
    rw [List.map_map]
    exact List.map_congr_left fun x hx => hg x (ha.mem_iff.mp (mem_of_mem_overwritten hx))
  have hkeys : ((overwritten key l').map key).Perm ((overwritten key l).map key) := by
    refine (List.perm_ext_iff_of_nodup (nodup_overwritten l') (nodup_overwritten l)).mpr fun k => ?_
    rw [mem_keys_overwritten, mem_keys_overwritten]
    exact (hp.map key).mem_iff
  rw [hmap hp, hmap (List.Perm.refl l)]
  exact (hkeys.map g).sum_eq

end Sums

end PveMaster.Overwriting
