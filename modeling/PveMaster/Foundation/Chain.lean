import Mathlib.Data.List.Nodup

/-! Rows that form a chain.

Each row names the one before it (`parent`) and, once there is one, the one after it
(`next`); a row that has a successor is closed. Only the last row of a chain can be open
(`eq_last`), a chain grows behind its last row (`linked_extend`), and closing rows leaves
it a chain (`linked_map`). -/
namespace PveMaster

/-- How the rows of a chain point at each other, and which of them count as closed. -/
structure Links (ρ κ : Type) where
  id : ρ → κ
  parent : ρ → Option κ
  next : ρ → Option κ
  isClosed : ρ → Prop

namespace Links
variable {ρ κ : Type} (L : Links ρ κ)

/-- The rows in their order, the first one after `parent`. Every row but the last names the one
behind it and is closed; the last one names none. -/
def Linked : Option κ → List ρ → Prop
  | _, [] => True
  | parent, [r] => L.parent r = parent ∧ L.next r = none
  | parent, r :: r' :: rest =>
    L.parent r = parent ∧ L.next r = some (L.id r') ∧ L.isClosed r ∧ Linked (some (L.id r)) (r' :: rest)

variable {L} {parent : Option κ} {l : List ρ}

/-- Rows keep their place, and those that are closed stay closed. -/
theorem linked_map {f : ρ → ρ} (h : L.Linked parent l)
    (hf : ∀ r ∈ l, L.id (f r) = L.id r ∧ L.parent (f r) = L.parent r ∧ L.next (f r) = L.next r ∧
      (L.isClosed r → L.isClosed (f r))) : L.Linked parent (l.map f) := by
  induction l generalizing parent with
  | nil => trivial
  | cons r rest ih =>
    obtain ⟨hid, hparent, hnext, hclosed⟩ := hf r List.mem_cons_self
    cases rest with
    | nil => exact ⟨hparent.trans h.1, hnext.trans h.2⟩
    | cons r' rest =>
      obtain ⟨hp, hn, hc, hrest⟩ := h
      have hid' := (hf r' (List.mem_cons_of_mem _ List.mem_cons_self)).1
      have htail := ih hrest fun q hq => hf q (List.mem_cons_of_mem _ hq)
      refine ⟨hparent.trans hp, hnext.trans (hn.trans (by rw [hid'])), hclosed hc, ?_⟩
      rw [hid]
      exact htail

/-- A chain one row longer. -/
theorem linked_extend {r q : ρ} {f : ρ → ρ} (h : L.Linked parent (l ++ [r]))
    (before : ∀ p ∈ l, f p = p) (id : L.id (f r) = L.id r) (back : L.parent (f r) = L.parent r)
    (next : L.next (f r) = some (L.id q)) (closed : L.isClosed (f r)) (child : L.parent q = some (L.id r))
    (last : L.next q = none) : L.Linked parent ((l ++ [r]).map f ++ [q]) := by
  induction l generalizing parent with
  | nil =>
    refine ⟨back.trans h.1, next, closed, ?_⟩
    rw [id]
    exact ⟨child, last⟩
  | cons p rest ih =>
    have hp : f p = p := before p List.mem_cons_self
    have hrest {parent : Option κ} (h : L.Linked parent (rest ++ [r])) :
        L.Linked parent ((rest ++ [r]).map f ++ [q]) :=
      ih h fun p hp => before p (List.mem_cons_of_mem _ hp)
    cases rest with
    | nil =>
      obtain ⟨hparent, hnext, hclosed, htail⟩ := h
      have hlast : L.Linked (some (L.id p)) ([r].map f ++ [q]) := hrest htail
      show L.Linked parent (f p :: ([r].map f ++ [q]))
      rw [hp]
      refine ⟨hparent, hnext.trans ?_, hclosed, hlast⟩
      rw [id]
    | cons p' rest =>
      obtain ⟨hparent, hnext, hclosed, htail⟩ := h
      have hp' : f p' = p' := before p' (List.mem_cons_of_mem _ List.mem_cons_self)
      have hlast := hrest htail
      show L.Linked parent (f p :: ((p' :: rest ++ [r]).map f ++ [q]))
      rw [hp]
      refine ⟨hparent, hnext.trans ?_, hclosed, hlast⟩
      rw [hp']

/-- Only the last row can be open. -/
theorem eq_last {r : ρ} (h : L.Linked parent l) (hr : r ∈ l) (hopen : ¬ L.isClosed r) :
    ∃ before, l = before ++ [r] := by
  induction l generalizing parent with
  | nil => cases hr
  | cons p rest ih =>
    cases rest with
    | nil =>
      rw [List.mem_singleton] at hr
      exact ⟨[], by rw [hr]; rfl⟩
    | cons p' rest =>
      obtain ⟨-, -, hclosed, htail⟩ := h
      have hmem : r ∈ p' :: rest := by
        cases List.mem_cons.mp hr with
        | inl heq => exact absurd (heq ▸ hclosed) hopen
        | inr hmem => exact hmem
      obtain ⟨before, hbefore⟩ := ih htail hmem
      exact ⟨p :: before, by rw [hbefore]; rfl⟩

/-- At most one row is open. -/
theorem open_unique {r r' : ρ} (h : L.Linked parent l) (hr : r ∈ l) (hopen : ¬ L.isClosed r) (hr' : r' ∈ l)
    (hopen' : ¬ L.isClosed r') : r = r' := by
  obtain ⟨before, hbefore⟩ := eq_last h hr hopen
  obtain ⟨before', hbefore'⟩ := eq_last h hr' hopen'
  have hsame : before ++ [r] = before' ++ [r'] := hbefore.symm.trans hbefore'
  exact (List.append_inj' hsame rfl).2 |> List.cons.inj |>.1

end Links

end PveMaster
