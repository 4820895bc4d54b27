import PveMaster.Foundation.Parallel
import PveMaster.Foundation.Waiting

/-! Two systems with nothing in common.

Their processes take turns, each with the operations of its system on the part of the state that is
its own. What each system's programs keep to about its locks they keep to together
(`lawful_product`, `ranked_rename`). -/
namespace PveMaster

variable {E α : Type} {Op Op' : Type → Type}

variable {Θ Θ' σ σ' ι ι' μ μ' K K' ν ν' : Type}

/-- The machine whose processes are those of either, each on its own part of the state. An input
holds one for each machine, of which an operation takes its own. -/
def Machine.product (M : Machine E Op Θ σ ι μ) (M' : Machine E Op' Θ' σ' ι' μ') :
    Machine E (SumOp Op Op') (Θ ⊕ Θ') (σ × σ') (ι × ι') (μ ⊕ μ') where
  exec o i θ s :=
    match o, θ with
    | .left o, .inl θ => (M.exec o i.1 θ s.1).map fun t => (.inl t.1, (t.2.1, s.2), t.2.2)
    | .right o, .inr θ => (M'.exec o i.2 θ s.2).map fun t => (.inr t.1, (s.1, t.2.1), t.2.2)
    | _, _ => none
  start
    | .inl m => (.inl (M.start m).1, (M.start m).2.rename .left)
    | .inr m => (.inr (M'.start m).1, (M'.start m).2.rename .right)
  drop
    | .inl θ, s => (M.drop θ s.1, s.2)
    | .inr θ, s => (s.1, M'.drop θ s.2)

namespace Locking

/-- The locks of both machines, a row being a row of one of them. No process of the one can ask
for a row of the other. -/
def product (L : Locking Op Θ σ K ν) (L' : Locking Op' Θ' σ' K' ν') :
    Locking (SumOp Op Op') (Θ ⊕ Θ') (σ × σ') (K ⊕ K') (ν ⊕ ν') where
  name := Sum.map L.name L'.name
  holder s := Sum.elim (fun k => (L.holder s.1 k).map .inl) fun k => (L'.holder s.2 k).map .inr
  rank := Sum.elim L.rank L'.rank
  asks
    | .left o => (L.asks o).map .inl
    | .right o => (L'.asks o).map .inr
  reach
    | .left o => L.reach o
    | .right o => L'.reach o
  ends
    | .left o => L.ends o
    | .right o => L'.ends o

variable {L : Locking Op Θ σ K ν} {L' : Locking Op' Θ' σ' K' ν'}

/-- A program asks for the same rows under other names. -/
theorem ranked_rename {J : Locking Op' Θ' σ' K' ν'} {g : {ρ : Type} → Op ρ → Op' ρ} {late : K → Bool} {late' : K' → Bool}
    (hasks : ∀ {ρ : Type} (o : Op ρ), ∀ k' ∈ J.asks (g o), late' k' = false →
      ∃ k ∈ L.asks o, late k = false ∧ L.rank k ≤ J.rank k')
    (hreach : ∀ {ρ : Type} (o : Op ρ), J.reach (g o) = L.reach o) (hends : ∀ {ρ : Type} (o : Op ρ), J.ends (g o) = L.ends o)
    {p : Prog E Op α} {top : Nat} (hp : L.Ranked late p top) : J.Ranked late' (p.rename g) top := by
  induction p generalizing top with
  | done r => trivial
  | node o f ih =>
    refine ⟨fun k' hk' hlate' => ?_, fun r => ?_⟩
    · obtain ⟨k, hk, hlate, hle⟩ := hasks o k' hk' hlate'
      exact (hp.1 k hk hlate).trans hle
    · rw [hreach, hends]
      exact ih r (hp.2 r)

theorem ranked_left {late : K → Bool} {late' : K' → Bool} {p : Prog E Op α} {top : Nat} (hp : L.Ranked late p top) :
    (L.product L').Ranked (Sum.elim late late') (p.rename .left) top := by
  refine ranked_rename (g := SumOp.left) (fun o k' hk' hlate' => ?_) (fun _ => rfl) (fun _ => rfl) hp
  obtain ⟨k, hk, rfl⟩ := Option.map_eq_some_iff.mp hk'
  exact ⟨k, hk, hlate', Nat.le_refl _⟩

theorem ranked_right {late : K → Bool} {late' : K' → Bool} {p : Prog E Op' α} {top : Nat} (hp : L'.Ranked late' p top) :
    (L.product L').Ranked (Sum.elim late late') (p.rename .right) top := by
  refine ranked_rename (g := SumOp.right) (fun o k' hk' hlate' => ?_) (fun _ => rfl) (fun _ => rfl) hp
  obtain ⟨k, hk, rfl⟩ := Option.map_eq_some_iff.mp hk'
  exact ⟨k, hk, hlate', Nat.le_refl _⟩

section Lawful
variable {M : Machine E Op Θ σ ι μ} {M' : Machine E Op' Θ' σ' ι' μ'}

/-- What an operation of both has been: one of them. -/
theorem exec_product {ρ : Type} {o : SumOp Op Op' ρ} {i : ι × ι'} {θ θ' : Θ ⊕ Θ'} {s s' : σ × σ'} {r : ρ}
    (h : (M.product M').exec o i θ s = some (θ', s', r)) :
    (∃ o₁ θ₁ θ₂, o = .left o₁ ∧ θ = .inl θ₁ ∧ θ' = .inl θ₂ ∧ s'.2 = s.2 ∧ M.exec o₁ i.1 θ₁ s.1 = some (θ₂, s'.1, r)) ∨
      ∃ o₁ θ₁ θ₂, o = .right o₁ ∧ θ = .inr θ₁ ∧ θ' = .inr θ₂ ∧ s'.1 = s.1 ∧ M'.exec o₁ i.2 θ₁ s.2 = some (θ₂, s'.2, r) := by
  cases o with
  | left o =>
    cases θ with
    | inl θ =>
      obtain ⟨⟨θ₂, s₂, r₂⟩, hexec, heq⟩ := Option.map_eq_some_iff.mp h
      cases heq
      exact Or.inl ⟨o, θ, θ₂, rfl, rfl, rfl, rfl, hexec⟩
    | inr θ => cases h
  | right o =>
    cases θ with
    | inl θ => cases h
    | inr θ =>
      obtain ⟨⟨θ₂, s₂, r₂⟩, hexec, heq⟩ := Option.map_eq_some_iff.mp h
      cases heq
      exact Or.inr ⟨o, θ, θ₂, rfl, rfl, rfl, rfl, hexec⟩

theorem lawful_product (hL : L.Lawful M) (hL' : L'.Lawful M') : (L.product L').Lawful (M.product M') where
  name o i θ θ' s s' r h := by
    rcases exec_product h with ⟨o, θ, θ', rfl, rfl, rfl, -, hexec⟩ | ⟨o, θ, θ', rfl, rfl, rfl, -, hexec⟩
    · exact congrArg Sum.inl (hL.name o _ θ θ' _ _ r hexec)
    · exact congrArg Sum.inr (hL'.name o _ θ θ' _ _ r hexec)
  others o i θ θ' s s' r h k x hne hk := by
    obtain ⟨s, t⟩ := s
    obtain ⟨s', t'⟩ := s'
    rcases exec_product h with ⟨o, θ, θ', rfl, rfl, rfl, rfl, hexec⟩ | ⟨o, θ, θ', rfl, rfl, rfl, rfl, hexec⟩
    · cases k with
      | inl k =>
        obtain ⟨x, hrow, rfl⟩ := Option.map_eq_some_iff.mp hk
        exact Option.map_eq_some_iff.mpr ⟨x, hL.others o _ θ θ' _ _ r hexec k x (fun h => hne (congrArg _ h)) hrow, rfl⟩
      | inr k => exact hk
    · cases k with
      | inl k => exact hk
      | inr k =>
        obtain ⟨x, hrow, rfl⟩ := Option.map_eq_some_iff.mp hk
        exact Option.map_eq_some_iff.mpr ⟨x, hL'.others o _ θ θ' _ _ r hexec k x (fun h => hne (congrArg _ h)) hrow, rfl⟩
  own o i θ θ' s s' r h k hk := by
    obtain ⟨s, t⟩ := s
    obtain ⟨s', t'⟩ := s'
    -- a row of the other system has none of this system's names
    rcases exec_product h with ⟨o, θ, θ', rfl, rfl, rfl, rfl, hexec⟩ | ⟨o, θ, θ', rfl, rfl, rfl, rfl, hexec⟩
    · cases k with
      | inl k =>
        obtain ⟨x, hrow, hx⟩ := Option.map_eq_some_iff.mp hk
        cases hx
        refine (hL.own o _ θ θ' _ _ r hexec k hrow).imp id (Or.imp id fun hold => ?_)
        exact Option.map_eq_some_iff.mpr ⟨_, hold, rfl⟩
      | inr k =>
        obtain ⟨x, -, hx⟩ := Option.map_eq_some_iff.mp hk
        cases hx
    · cases k with
      | inl k =>
        obtain ⟨x, -, hx⟩ := Option.map_eq_some_iff.mp hk
        cases hx
      | inr k =>
        obtain ⟨x, hrow, hx⟩ := Option.map_eq_some_iff.mp hk
        cases hx
        refine (hL'.own o _ θ θ' _ _ r hexec k hrow).imp id (Or.imp id fun hold => ?_)
        exact Option.map_eq_some_iff.mpr ⟨_, hold, rfl⟩
  drop θ s k x h := by
    cases θ with
    | inl θ =>
      cases k with
      | inl k =>
        obtain ⟨x, hrow, rfl⟩ := Option.map_eq_some_iff.mp h
        exact Option.map_eq_some_iff.mpr ⟨x, hL.drop θ _ k x hrow, rfl⟩
      | inr k => exact h
    | inr θ =>
      cases k with
      | inl k => exact h
      | inr k =>
        obtain ⟨x, hrow, rfl⟩ := Option.map_eq_some_iff.mp h
        exact Option.map_eq_some_iff.mpr ⟨x, hL'.drop θ _ k x hrow, rfl⟩

end Lawful

end Locking
end PveMaster
