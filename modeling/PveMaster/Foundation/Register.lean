import Mathlib.Data.Option.Basic
import Mathlib.Logic.Relation

/-! An owner that is kept twice: by the thing that is owned, and by a history of entries.

An entry is opened for an owner and closed once. The two agree (`Agreed`) when the open
entries are what the things say of themselves, each thing having one open entry at most.
`Moves` are the changes that keep them so. -/
namespace PveMaster

/-- An entry of the history: what it is about, whom it names, and whether it is still open. -/
structure Entry (K V : Type*) where
  key : K
  value : V
  isOpen : Bool

/-- The owner as the things themselves have it, and the history of entries, each under its own
identifier. -/
structure Register (ι K V : Type*) where
  owner : K → Option V
  entry : ι → Option (Entry K V)

namespace Register
variable {ι K V : Type*} {L L' L'' : Register ι K V}

/-- An open entry of `k`. -/
def Opened (L : Register ι K V) (i : ι) (k : K) (v : V) : Prop := L.entry i = some ⟨k, v, true⟩

/-- The two agree. An open entry names the owner the thing has, no thing has two open entries, and
a thing that has an owner has an open entry. -/
structure Agreed (L : Register ι K V) : Prop where
  opened : ∀ i k v, L.Opened i k v → L.owner k = some v
  once : ∀ i j k v v', L.Opened i k v → L.Opened j k v' → i = j
  recorded : ∀ k v, L.owner k = some v → ∃ i, L.Opened i k v

/-- A closed entry stays as it is: the history is not rewritten. -/
def Settled (L L' : Register ι K V) : Prop :=
  ∀ i e, L.entry i = some e → e.isOpen = false → L'.entry i = some e

theorem Settled.refl (L : Register ι K V) : L.Settled L := fun _ _ h _ => h

theorem Settled.trans (h : L.Settled L') (h' : L'.Settled L'') : L.Settled L'' :=
  fun i e he hclosed => h' i e (h i e he hclosed) hclosed

/-- Something has an owner when it has exactly one open entry, and that is the owner's. -/
theorem Agreed.owner_iff (h : L.Agreed) (k : K) (v : V) :
    L.owner k = some v ↔ ∃ i, L.Opened i k v ∧ ∀ j v', L.Opened j k v' → j = i :=
  ⟨fun hk => (h.recorded k v hk).imp fun i hi => ⟨hi, fun j v' hj => h.once j i k v' v hj hi⟩,
    fun ⟨i, hi, _⟩ => h.opened i k v hi⟩

theorem Agreed.unowned_iff (h : L.Agreed) (k : K) : L.owner k = none ↔ ∀ i v, ¬ L.Opened i k v := by
  constructor
  · intro hk i v hi
    rw [h.opened i k v hi] at hk
    cases hk
  · intro hall
    cases hk : L.owner k with
    | none => rfl
    | some v =>
      obtain ⟨i, hi⟩ := h.recorded k v hk
      exact absurd hi (hall i v)

theorem Agreed.nothing (h : L.Agreed) (owner : ∀ k, L'.owner k = L.owner k)
    (entry : ∀ i, L'.entry i = L.entry i) : L'.Agreed := by
  have hopened (i : ι) (k : K) (v : V) : L'.Opened i k v ↔ L.Opened i k v := by
    unfold Opened
    rw [entry]
  refine ⟨fun i k v hi => ?_, fun i j k v v' hi hj => ?_, fun k v hk => ?_⟩
  · rw [owner]
    exact h.opened i k v ((hopened i k v).mp hi)
  · exact h.once i j k v v' ((hopened i k v).mp hi) ((hopened j k v').mp hj)
  · rw [owner] at hk
    obtain ⟨i, hi⟩ := h.recorded k v hk
    exact ⟨i, (hopened i k v).mpr hi⟩

variable [DecidableEq ι] [DecidableEq K]

/-- The changes that keep the two together: one side is never changed alone. -/
inductive Moves (L L' : Register ι K V) : Prop
  | nothing (owner : ∀ k, L'.owner k = L.owner k) (entry : ∀ i, L'.entry i = L.entry i)
  /-- An entry is opened for something that has none. -/
  | opens (i : ι) (k : K) (v : V) (fresh : L.entry i = none) (unowned : ∀ j v', ¬ L.Opened j k v')
      (owner : ∀ q, L'.owner q = if q = k then some v else L.owner q)
      (entry : ∀ j, L'.entry j = if j = i then some ⟨k, v, true⟩ else L.entry j)
  /-- The open entry of something is closed. -/
  | closes (i : ι) (k : K) (v : V) (opened : L.Opened i k v)
      (owner : ∀ q, L'.owner q = if q = k then none else L.owner q)
      (entry : ∀ j, L'.entry j = if j = i then some ⟨k, v, false⟩ else L.entry j)

theorem Moves.settled (h : L.Moves L') : L.Settled L' := by
  intro j e he hclosed
  cases h with
  | nothing owner entry => rw [entry, he]
  | opens i k v fresh unowned owner entry =>
    have hne : j ≠ i := by
      rintro rfl
      rw [fresh] at he
      cases he
    rw [entry, if_neg hne, he]
  | closes i k v opened owner entry =>
    have hne : j ≠ i := by
      rintro rfl
      rw [Opened, he] at opened
      cases opened
      cases hclosed
    rw [entry, if_neg hne, he]

theorem Agreed.opens (h : L.Agreed) {i : ι} {k : K} {v : V} (fresh : L.entry i = none)
    (unowned : ∀ j v', ¬ L.Opened j k v') (owner : ∀ q, L'.owner q = if q = k then some v else L.owner q)
    (entry : ∀ j, L'.entry j = if j = i then some ⟨k, v, true⟩ else L.entry j) : L'.Agreed := by
  -- an open entry is the new one, or an old one of something else
  have hopened (j : ι) (q : K) (u : V) (hj : L'.Opened j q u) :
      j = i ∧ q = k ∧ u = v ∨ q ≠ k ∧ L.Opened j q u := by
    unfold Opened at hj
    rw [entry] at hj
    split at hj
    · next hji =>
      cases hj
      exact Or.inl ⟨hji, rfl, rfl⟩
    · refine Or.inr ⟨?_, hj⟩
      rintro rfl
      exact unowned j u hj
  refine ⟨fun j q u hj => ?_, fun j j' q u u' hj hj' => ?_, fun q u hq => ?_⟩
  · rcases hopened j q u hj with ⟨-, rfl, rfl⟩ | ⟨hne, hold⟩
    · rw [owner, if_pos rfl]
    · rw [owner, if_neg hne]
      exact h.opened j q u hold
  · rcases hopened j q u hj with ⟨rfl, rfl, rfl⟩ | ⟨hne, hold⟩
    · rcases hopened j' q u' hj' with ⟨rfl, -, -⟩ | ⟨hne', -⟩
      · rfl
      · exact absurd rfl hne'
    · rcases hopened j' q u' hj' with ⟨-, rfl, -⟩ | ⟨-, hold'⟩
      · exact absurd rfl hne
      · exact h.once j j' q u u' hold hold'
  · rw [owner] at hq
    split at hq
    · next hqk =>
      cases hq
      exact ⟨i, by rw [Opened, entry, if_pos rfl, hqk]⟩
    · obtain ⟨j, hj⟩ := h.recorded q u hq
      have hji : j ≠ i := by
        rintro rfl
        rw [Opened, fresh] at hj
        cases hj
      exact ⟨j, by rw [Opened, entry, if_neg hji, hj]⟩

theorem Agreed.closes (h : L.Agreed) {i : ι} {k : K} {v : V} (opened : L.Opened i k v)
    (owner : ∀ q, L'.owner q = if q = k then none else L.owner q)
    (entry : ∀ j, L'.entry j = if j = i then some ⟨k, v, false⟩ else L.entry j) : L'.Agreed := by
  -- what is open still was, and of something else
  have hopened (j : ι) (q : K) (u : V) (hj : L'.Opened j q u) : q ≠ k ∧ L.Opened j q u := by
    unfold Opened at hj
    rw [entry] at hj
    split at hj
    · cases hj
    · next hji =>
      refine ⟨?_, hj⟩
      rintro rfl
      exact hji (h.once j i q u v hj opened)
  refine ⟨fun j q u hj => ?_, fun j j' q u u' hj hj' => ?_, fun q u hq => ?_⟩
  · obtain ⟨hne, hold⟩ := hopened j q u hj
    rw [owner, if_neg hne]
    exact h.opened j q u hold
  · exact h.once j j' q u u' (hopened j q u hj).2 (hopened j' q u' hj').2
  · rw [owner] at hq
    split at hq
    · cases hq
    · next hne =>
      obtain ⟨j, hj⟩ := h.recorded q u hq
      have hji : j ≠ i := by
        rintro rfl
        rw [Opened] at opened hj
        rw [opened] at hj
        cases hj
        exact hne rfl
      exact ⟨j, by rw [Opened, entry, if_neg hji, hj]⟩

/-- **A move keeps the agreement.** -/
theorem Agreed.moves (h : L.Agreed) (hm : L.Moves L') : L'.Agreed := by
  cases hm with
  | nothing owner entry => exact h.nothing owner entry
  | opens i k v fresh unowned owner entry => exact h.opens fresh unowned owner entry
  | closes i k v opened owner entry => exact h.closes opened owner entry

end Register
end PveMaster
