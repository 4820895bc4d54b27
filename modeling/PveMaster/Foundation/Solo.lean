import PveMaster.Foundation.RelyGuarantee

/-! A program that runs by itself.

Nobody else acts between its operations, so a contract has nothing to rely on, and what it
guarantees is a condition on every state the program comes to. -/
namespace PveMaster

variable {E : Type} {Op : Type → Type} {Θ σ ι μ : Type} {α β ρ : Type} {M : Machine E Op Θ σ ι μ}

/-- The states a program comes through, each of its operations with an input of its own. It ends
early where an operation has to wait, since nobody is there who could let it go on. -/
def visits (M : Machine E Op Θ σ ι μ) : Prog E Op α → (Nat → ι) → Θ → σ → List σ
  | .done _, _, _, s => [s]
  | .node o k, inputs, θ, s =>
    s :: match M.exec o (inputs 0) θ s with
      | none => []
      | some out => visits M (k out.2.2) (fun n => inputs (n + 1)) out.1 out.2.1

/-- Inputs that are allowed, no interference, and `P` of every state: the contract of a program
nobody else runs beside. -/
def solo (allowed : ι → Prop) (P : σ → Prop) : Contract Op Θ σ ι where
  may _ i _ _ := allowed i
  rely s s' := s' = s
  guar _ s' := P s'

section Rules
variable {allowed : ι → Prop} {P : σ → Prop} {Q : Except E α → Θ → σ → Prop} {θ : Θ} {s : σ}

/-- One operation, and the rest of the program. -/
theorem wp_solo {o : Op ρ} {k : ρ → Prog E Op α}
    (h : ∀ i, allowed i → ∀ out, M.exec o i θ s = some out → P out.2.1 ∧ wp M (solo allowed P) (k out.2.2) Q out.1 out.2.1) :
    wp M (solo allowed P) (.node o k) Q θ s := by
  intro s' hs' i θ' s'' r hmay hexec
  cases hs'
  exact h i hmay (θ', s'', r) hexec

/-- **Every state** a program comes to. -/
theorem visits_all {p : Prog E Op α} {inputs : Nat → ι} (hp : wp M (solo allowed P) p Q θ s)
    (hinputs : ∀ n, allowed (inputs n)) (hs : P s) : ∀ s' ∈ visits M p inputs θ s, P s' := by
  induction p generalizing inputs θ s with
  | done r =>
    intro s' hs'
    rw [List.mem_singleton.mp hs']
    exact hs
  | node o k ih =>
    intro s' hs'
    rw [visits] at hs'
    rcases List.mem_cons.mp hs' with rfl | hrest
    · exact hs
    · cases hexec : M.exec o (inputs 0) θ s with
      | none =>
        rw [hexec] at hrest
        cases hrest
      | some out =>
        rw [hexec] at hrest
        obtain ⟨hP, hk⟩ := hp s rfl (inputs 0) out.1 out.2.1 out.2.2 (hinputs 0) hexec
        exact ih out.2.2 hk (fun n => hinputs (n + 1)) hP s' hrest

/-- **The state** a program ends in, if no operation blocks. -/
theorem visits_end {p : Prog E Op α} (inputs : Nat → ι) (hp : wp M (solo allowed P) p Q θ s)
    (hinputs : ∀ n, allowed (inputs n))
    (hexec : ∀ {ρ : Type} (o : Op ρ) (i : ι) (θ : Θ) (s : σ), (M.exec o i θ s).isSome = true) :
    ∃ s' ∈ visits M p inputs θ s, ∃ r θ', Q r θ' s' := by
  induction p generalizing inputs θ s with
  | done r => exact ⟨s, List.mem_singleton.mpr rfl, r, θ, hp⟩
  | node o k ih =>
    obtain ⟨out, hout⟩ := Option.isSome_iff_exists.mp (hexec o (inputs 0) θ s)
    obtain ⟨-, hk⟩ := hp s rfl (inputs 0) out.1 out.2.1 out.2.2 (hinputs 0) hout
    obtain ⟨s', hs', hQ⟩ := ih out.2.2 (fun n => inputs (n + 1)) hk (fun n => hinputs (n + 1))
    refine ⟨s', ?_, hQ⟩
    rw [visits, hout]
    exact List.mem_cons_of_mem _ hs'

end Rules

end PveMaster
