import PveMaster.Foundation.RelyGuarantee

/-! Two machines over one shared state.

Their processes interleave, each with the operations and the memory of its own machine.
Two protocols with one invariant and one guarantee make a protocol of the machines side by
side (`Protocol.beside`). -/
namespace PveMaster

variable {E : Type} {Op Op₁ Op₂ : Type → Type} {Θ₁ Θ₂ σ ι μ₁ μ₂ α : Type}

/-- An operation of one of two machines. -/
inductive SumOp (Op₁ Op₂ : Type → Type) (ρ : Type) where
  | left (o : Op₁ ρ)
  | right (o : Op₂ ρ)

/-- The same program over operations that are named otherwise. -/
def Prog.rename (f : {ρ : Type} → Op ρ → Op₁ ρ) : Prog E Op α → Prog E Op₁ α
  | .done r => .done r
  | .node o k => .node (f o) fun r => (k r).rename f

/-- Two machines over one state. Every process is one of the first or of the second, and keeps to
the operations of its own machine. -/
def Machine.beside (M₁ : Machine E Op₁ Θ₁ σ ι μ₁) (M₂ : Machine E Op₂ Θ₂ σ ι μ₂) :
    Machine E (SumOp Op₁ Op₂) (Θ₁ ⊕ Θ₂) σ ι (μ₁ ⊕ μ₂) where
  exec o i θ s :=
    match o, θ with
    | .left o, .inl θ => (M₁.exec o i θ s).map fun (θ', s', r) => (.inl θ', s', r)
    | .right o, .inr θ => (M₂.exec o i θ s).map fun (θ', s', r) => (.inr θ', s', r)
    | .left _, .inr _ | .right _, .inl _ => none
  start
    | .inl m => (.inl (M₁.start m).1, (M₁.start m).2.rename .left)
    | .inr m => (.inr (M₂.start m).1, (M₂.start m).2.rename .right)
  drop
    | .inl θ => M₁.drop θ
    | .inr θ => M₂.drop θ

/-- What a process of either machine knows: what its own machine says, of the program as that
machine has it. -/
def Beside (L₁ : Θ₁ → Prog E Op₁ Unit → σ → Prop) (L₂ : Θ₂ → Prog E Op₂ Unit → σ → Prop) :
    Θ₁ ⊕ Θ₂ → Prog E (SumOp Op₁ Op₂) Unit → σ → Prop
  | .inl θ, p, s => ∃ p₁, p = p₁.rename .left ∧ L₁ θ p₁ s
  | .inr θ, p, s => ∃ p₂, p = p₂.rename .right ∧ L₂ θ p₂ s

/-- The conditions of either machine on its own processes. -/
def Conditions.beside (c₁ : Conditions E Op₁ Θ₁ σ ι μ₁) (c₂ : Conditions E Op₂ Θ₂ σ ι μ₂) :
    Conditions E (SumOp Op₁ Op₂) (Θ₁ ⊕ Θ₂) σ ι (μ₁ ⊕ μ₂) where
  spawn
    | .inl m => c₁.spawn m
    | .inr m => c₂.spawn m
  step θ p i s :=
    match θ with
    | .inl θ => ∀ p₁, p = p₁.rename .left → c₁.step θ p₁ i s
    | .inr θ => ∀ p₂, p = p₂.rename .right → c₂.step θ p₂ i s
  crash θ p s :=
    match θ with
    | .inl θ => ∀ p₁, p = p₁.rename .left → c₁.crash θ p₁ s
    | .inr θ => ∀ p₂, p = p₂.rename .right → c₂.crash θ p₂ s
  env s s' := c₁.env s s' ∨ c₂.env s s'

section Rename
variable {f : {ρ : Type} → Op ρ → Op₁ ρ} {ρ : Type} {o : Op₁ ρ} {k : ρ → Prog E Op₁ α} {p : Prog E Op α}

/-- The operation a renamed program comes to is one it had. -/
theorem Prog.rename_node (h : .node o k = p.rename f) :
    ∃ (o' : Op ρ) (k' : ρ → Prog E Op α), p = .node o' k' ∧ o = f o' ∧ ∀ r, k r = (k' r).rename f := by
  cases p with
  | done r => cases h
  | node o' k' =>
    cases h
    exact ⟨o', k', rfl, rfl, fun _ => rfl⟩

theorem Prog.rename_done {r : Except E α} (h : .done r = p.rename f) : p = .done r := by
  cases p with
  | done r' =>
    cases h
    rfl
  | node o' k' => cases h

theorem Prog.rename_andThen {β : Type} (p : Prog E Op α) (g : Except E α → Prog E Op β) :
    (p.andThen g).rename f = (p.rename f).andThen fun r => (g r).rename f := by
  induction p with
  | done r => rfl
  | node o k ih => exact congrArg (Prog.node (f o)) (funext ih)

theorem Prog.rename_bind {β : Type} (p : Prog E Op α) (g : α → Prog E Op β) :
    (p >>= g).rename f = p.rename f >>= fun a => (g a).rename f := by
  refine (Prog.rename_andThen p _).trans (congrArg _ (funext fun r => ?_))
  cases r <;> rfl

theorem Prog.only_rename {P : {ρ : Type} → Op ρ → Prop} {P' : {ρ : Type} → Op₁ ρ → Prop}
    (hP : ∀ {ρ : Type} (o : Op ρ), P o → P' (f o)) (h : p.Only P) : (p.rename f).Only P' := by
  induction p with
  | done r => trivial
  | node o k ih => exact ⟨hP o h.1, fun r => ih r (h.2 r)⟩

end Rename

variable {M₁ : Machine E Op₁ Θ₁ σ ι μ₁} {M₂ : Machine E Op₂ Θ₂ σ ι μ₂}
  {c₁ : Conditions E Op₁ Θ₁ σ ι μ₁} {c₂ : Conditions E Op₂ Θ₂ σ ι μ₂}
  {I : σ → Prop} {L₁ : Θ₁ → Prog E Op₁ Unit → σ → Prop} {L₂ : Θ₂ → Prog E Op₂ Unit → σ → Prop}
  {G : σ → σ → Prop}

theorem Machine.beside_left {ρ : Type} {o : Op₁ ρ} {i : ι} {θ : Θ₁} {θ' : Θ₁ ⊕ Θ₂} {s s' : σ} {r : ρ}
    (h : (M₁.beside M₂).exec (.left o) i (.inl θ) s = some (θ', s', r)) :
    ∃ θ₁, θ' = .inl θ₁ ∧ M₁.exec o i θ s = some (θ₁, s', r) := by
  obtain ⟨⟨θ₁, s₁, r₁⟩, hexec, heq⟩ := Option.map_eq_some_iff.mp h
  cases heq
  exact ⟨θ₁, rfl, hexec⟩

theorem Machine.beside_right {ρ : Type} {o : Op₂ ρ} {i : ι} {θ : Θ₂} {θ' : Θ₁ ⊕ Θ₂} {s s' : σ} {r : ρ}
    (h : (M₁.beside M₂).exec (.right o) i (.inr θ) s = some (θ', s', r)) :
    ∃ θ₂, θ' = .inr θ₂ ∧ M₂.exec o i θ s = some (θ₂, s', r) := by
  obtain ⟨⟨θ₂, s₁, r₁⟩, hexec, heq⟩ := Option.map_eq_some_iff.mp h
  cases heq
  exact ⟨θ₂, rfl, hexec⟩

/-- **Side by side**: what each machine keeps alone, they keep together. -/
theorem Protocol.beside (h₁ : Protocol M₁ c₁ I L₁ G) (h₂ : Protocol M₂ c₂ I L₂ G) :
    Protocol (M₁.beside M₂) (c₁.beside c₂) I (Beside L₁ L₂) G where
  refl := h₁.refl
  start m s hI hm := by
    cases m with
    | inl m => exact ⟨_, rfl, h₁.start m s hI hm⟩
    | inr m => exact ⟨_, rfl, h₂.start m s hI hm⟩
  step o k i θ θ' s s' r hI hL hc hexec := by
    cases θ with
    | inl θ =>
      obtain ⟨p₁, hp, hL⟩ := hL
      obtain ⟨o₁, k₁, rfl, rfl, hk⟩ := Prog.rename_node hp
      obtain ⟨⟨θ₁, s₁, r₁⟩, hexec, heq⟩ := Option.map_eq_some_iff.mp hexec
      cases heq
      obtain ⟨hI', hG, hL'⟩ := h₁.step o₁ k₁ i θ _ s _ _ hI hL (hc _ hp) hexec
      exact ⟨hI', hG, _, hk _, hL'⟩
    | inr θ =>
      obtain ⟨p₂, hp, hL⟩ := hL
      obtain ⟨o₂, k₂, rfl, rfl, hk⟩ := Prog.rename_node hp
      obtain ⟨⟨θ₁, s₁, r₁⟩, hexec, heq⟩ := Option.map_eq_some_iff.mp hexec
      cases heq
      obtain ⟨hI', hG, hL'⟩ := h₂.step o₂ k₂ i θ _ s _ _ hI hL (hc _ hp) hexec
      exact ⟨hI', hG, _, hk _, hL'⟩
  drop θ p s hI hL hend := by
    cases θ with
    | inl θ =>
      obtain ⟨p₁, rfl, hL⟩ := hL
      refine h₁.drop θ p₁ s hI hL (hend.imp (fun hc => hc p₁ rfl) fun ⟨r, hr⟩ => ⟨r, ?_⟩)
      exact Prog.rename_done hr.symm
    | inr θ =>
      obtain ⟨p₂, rfl, hL⟩ := hL
      refine h₂.drop θ p₂ s hI hL (hend.imp (fun hc => hc p₂ rfl) fun ⟨r, hr⟩ => ⟨r, ?_⟩)
      exact Prog.rename_done hr.symm
  env s s' hI h := by
    rcases h with h | h
    · exact h₁.env s s' hI h
    · exact h₂.env s s' hI h
  stable θ p s s' hG hL := by
    cases θ with
    | inl θ =>
      obtain ⟨p₁, hp, hL⟩ := hL
      exact ⟨p₁, hp, h₁.stable θ p₁ s s' hG hL⟩
    | inr θ =>
      obtain ⟨p₂, hp, hL⟩ := hL
      exact ⟨p₂, hp, h₂.stable θ p₂ s s' hG hL⟩

/-! ### Parts of a larger state -/

section Parts
variable {Θ τ μ : Type}

/-- A machine on a part of a larger state, where an operation may have to wait for the rest of it.
-/
def Machine.within (M : Machine E Op Θ σ ι μ) (get : τ → σ) (put : σ → τ → τ)
    (free : {ρ : Type} → Op ρ → Θ → τ → Bool) : Machine E Op Θ τ ι μ where
  exec o i θ t :=
    if free o θ t then (M.exec o i θ (get t)).map fun (θ', s, r) => (θ', put s t, r) else none
  start := M.start
  drop θ t := put (M.drop θ (get t)) t

/-- A machine whose processes have numbers, which their operations neither see nor change. -/
def Machine.numbered (M : Machine E Op Θ σ ι μ) : Machine E Op (Nat × Θ) σ ι (Nat × μ) where
  exec o i θ s := (M.exec o i θ.2 s).map fun (θ', s', r) => ((θ.1, θ'), s', r)
  start m := ((m.1, (M.start m.2).1), (M.start m.2).2)
  drop θ := M.drop θ.2

theorem Machine.within_exec {M : Machine E Op Θ σ ι μ} {get : τ → σ} {put : σ → τ → τ}
    {free : {ρ : Type} → Op ρ → Θ → τ → Bool} {ρ : Type} {o : Op ρ} {i : ι} {θ θ' : Θ} {t t' : τ} {r : ρ}
    (h : (M.within get put free).exec o i θ t = some (θ', t', r)) :
    free o θ t = true ∧ ∃ s, M.exec o i θ (get t) = some (θ', s, r) ∧ t' = put s t := by
  unfold Machine.within at h
  dsimp only at h
  split at h
  · next hfree =>
    obtain ⟨⟨θ₁, s, r₁⟩, hexec, heq⟩ := Option.map_eq_some_iff.mp h
    cases heq
    exact ⟨hfree, s, hexec, rfl⟩
  · cases h

theorem Machine.numbered_exec {M : Machine E Op Θ σ ι μ} {ρ : Type} {o : Op ρ} {i : ι} {θ θ' : Nat × Θ}
    {s s' : σ} {r : ρ} (h : M.numbered.exec o i θ s = some (θ', s', r)) :
    θ'.1 = θ.1 ∧ M.exec o i θ.2 s = some (θ'.2, s', r) := by
  obtain ⟨⟨θ₁, s₁, r₁⟩, hexec, heq⟩ := Option.map_eq_some_iff.mp h
  cases heq
  exact ⟨rfl, hexec⟩

/-- A program of the first machine, beside the second. -/
theorem wp_left {C : Contract (SumOp Op₁ Op₂) (Θ₁ ⊕ Θ₂) σ ι} {C₁ : Contract Op₁ Θ₁ σ ι}
    (rely : ∀ s s', C.rely s s' → C₁.rely s s') (guar : ∀ s s', C₁.guar s s' → C.guar s s')
    (may : ∀ {ρ : Type} (o : Op₁ ρ) i θ s, C.may (.left o) i (.inl θ) s → C₁.may o i θ s)
    {p : Prog E Op₁ α} {Q : Except E α → Θ₁ → σ → Prop} {Q' : Except E α → Θ₁ ⊕ Θ₂ → σ → Prop}
    (hQ : ∀ r θ s, Q r θ s → Q' r (.inl θ) s) {θ : Θ₁} {s : σ} (h : wp M₁ C₁ p Q θ s) :
    wp (M₁.beside M₂) C (p.rename .left) Q' (.inl θ) s := by
  induction p generalizing θ s with
  | done r => exact hQ r θ s h
  | node o k ih =>
    intro s' hr i θ' s'' r hmay hexec
    obtain ⟨⟨θ₁, s₁, r₁⟩, hexec, heq⟩ := Option.map_eq_some_iff.mp hexec
    cases heq
    obtain ⟨hguar, hrest⟩ := h s' (rely s s' hr) i θ₁ s'' r (may o i θ s' hmay) hexec
    exact ⟨guar s' s'' hguar, ih r hrest⟩

end Parts

end PveMaster
