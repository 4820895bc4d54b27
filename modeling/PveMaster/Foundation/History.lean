import PveMaster.Foundation.Budget

/-! What the processes of a system have heard.

`Machine.hearing` keeps, beside the memory of a process, the list of what its operations have
told it since it was started, newest last. The list decides nothing: without it the machine
runs as before (`Sys.forget_run`). -/
namespace PveMaster

variable {E : Type} {Op : Type → Type} {Θ σ ι μ V : Type}

def Machine.hearing (M : Machine E Op Θ σ ι μ) (hear : {ρ : Type} → Op ρ → ρ → List V) :
    Machine E Op (Θ × List V) σ ι μ where
  exec o i θ s := (M.exec o i θ.1 s).map fun (θ', s', r) => ((θ', θ.2 ++ hear o r), s', r)
  start m := (((M.start m).1, []), (M.start m).2)
  drop θ := M.drop θ.1

section Hearing
variable {M : Machine E Op Θ σ ι μ} {hear : {ρ : Type} → Op ρ → ρ → List V}

theorem Machine.hearing_exec {ρ : Type} {o : Op ρ} {i : ι} {θ θ' : Θ × List V} {s s' : σ} {r : ρ}
    (h : (M.hearing hear).exec o i θ s = some (θ', s', r)) :
    M.exec o i θ.1 s = some (θ'.1, s', r) ∧ θ'.2 = θ.2 ++ hear o r := by
  obtain ⟨⟨θ₁, s₁, r₁⟩, hexec, heq⟩ := Option.map_eq_some_iff.mp h
  cases heq
  exact ⟨hexec, rfl⟩

/-- The same system, without what has been heard: the memory of each process as the machine itself
has it. -/
def Sys.forget (s : Sys E Op (Θ × List V) σ) : Sys E Op Θ σ :=
  ⟨s.shared, fun pid => (s.procs pid).map fun p => (p.1.1, p.2)⟩

theorem Sys.forget_setProc (s : Sys E Op (Θ × List V) σ) (pid : Nat) (p : Option ((Θ × List V) × Prog E Op Unit)) :
    (s.setProc pid p).forget = s.forget.setProc pid (p.map fun p => (p.1.1, p.2)) := by
  unfold forget setProc
  congr 1
  funext q
  by_cases hq : q = pid
  · simp only [if_pos hq]
  · simp only [if_neg hq]

variable (M hear)

/-- What has been heard decides nothing. -/
theorem Sys.forget_next (s : Sys E Op (Θ × List V) σ) (a : Action σ ι μ) :
    (s.next (M.hearing hear) a).forget = s.forget.next M a := by
  cases a with
  | env f => rfl
  | spawn pid m =>
    have hlive : (s.forget.procs pid).isSome = (s.procs pid).isSome := Option.isSome_map
    by_cases hp : (s.procs pid).isSome = true
    · simp only [next, hlive, hp, if_true]
    · simp only [next, hlive, hp]
      exact s.forget_setProc pid _
  | crash pid =>
    cases hp : s.procs pid with
    | none =>
      have hforget : s.forget.procs pid = none := by simp [forget, hp]
      simp only [next, hp, hforget]
    | some proc =>
      have hforget : s.forget.procs pid = some (proc.1.1, proc.2) := by simp [forget, hp]
      simp only [next, hp, hforget]
      exact forget_setProc _ pid none
  | step pid i =>
    cases hp : s.procs pid with
    | none =>
      have hforget : s.forget.procs pid = none := by simp [forget, hp]
      simp only [next, hp, hforget]
    | some proc =>
      obtain ⟨⟨θ, heard⟩, p⟩ := proc
      have hforget : s.forget.procs pid = some (θ, p) := by simp [forget, hp]
      cases p with
      | done r =>
        simp only [next, hp, hforget]
        exact forget_setProc _ pid none
      | node o k =>
        simp only [next, hp, hforget, Machine.hearing]
        have hshared : s.forget.shared = s.shared := rfl
        rw [hshared]
        cases hexec : M.exec o i θ s.shared with
        | none => rfl
        | some out =>
          obtain ⟨θ', s', r⟩ := out
          simp only [Option.map_some]
          exact forget_setProc _ pid _

theorem Sys.forget_run (s : Sys E Op (Θ × List V) σ) (actions : List (Action σ ι μ)) :
    (runFrom (Sys.next (M.hearing hear)) s actions).forget = runFrom (Sys.next M) s.forget actions := by
  induction actions generalizing s with
  | nil => rfl
  | cons a rest ih =>
    show (runFrom (Sys.next (M.hearing hear)) (s.next (M.hearing hear) a) rest).forget = _
    rw [ih, Sys.forget_next]
    rfl

end Hearing

/-! ### What is served

`Machine.serving` keeps, beside the memory of a process, the request it has been started with. -/

/-- The machine with, beside the memory of each process, the request it has been started with. The
processes do not see it. -/
def Machine.serving (M : Machine E Op Θ σ ι μ) : Machine E Op (Θ × μ) σ ι μ where
  exec o i θ s := (M.exec o i θ.1 s).map fun (θ', s', r) => ((θ', θ.2), s', r)
  start m := (((M.start m).1, m), (M.start m).2)
  drop θ := M.drop θ.1

/-! ### What has happened

`Machine.recording` keeps an account of the operations beside the state the processes share. -/

section Recording
variable {γ : Type}

/-- The machine with an account of its operations beside the shared state. `note` says what an
operation, performed in some state and answered in some way, adds to it; the processes do not see
it. -/
def Machine.recording (M : Machine E Op Θ σ ι μ) (note : {ρ : Type} → Op ρ → Θ → σ → ρ → γ → γ) :
    Machine E Op Θ (σ × γ) ι μ where
  exec o i θ s := (M.exec o i θ s.1).map fun (θ', s', r) => (θ', (s', note o θ s.1 r s.2), r)
  start := M.start
  drop θ s := (M.drop θ s.1, s.2)

theorem Machine.recording_exec {M : Machine E Op Θ σ ι μ} {note : {ρ : Type} → Op ρ → Θ → σ → ρ → γ → γ}
    {ρ : Type} {o : Op ρ} {i : ι} {θ θ' : Θ} {s s' : σ × γ} {r : ρ}
    (h : (M.recording note).exec o i θ s = some (θ', s', r)) :
    M.exec o i θ s.1 = some (θ', s'.1, r) ∧ s'.2 = note o θ s.1 r s.2 := by
  obtain ⟨⟨θ₁, s₁, r₁⟩, hexec, heq⟩ := Option.map_eq_some_iff.mp h
  cases heq
  exact ⟨hexec, rfl⟩

end Recording

/-! ### The last change

What holds at the end of a run and did not at its start came about at one action, and has
been as it is since. -/

section Changes
variable {S A : Type*} {next : S → A → S}

theorem changed_at {Met : S → A → Prop} {I : S → Prop} {P : S → Prop} {C : S → A → Prop}
    {R : S → S → Prop} (keeps : ∀ s a, I s → Met s a → I (next s a))
    (step : ∀ s a, I s → Met s a → P (next s a) → P s ∧ R s (next s a) ∨ C s a)
    (refl : ∀ s, R s s) (trans : ∀ s s' s'', R s s' → R s' s'' → R s s'') {s : S}
    {actions : List A} (hI : I s) (hs : ¬ P s) (ha : Along next Met s actions)
    (h : P (runFrom next s actions)) :
    ∃ before a after, actions = before ++ a :: after ∧ I (runFrom next s before) ∧
      Met (runFrom next s before) a ∧ C (runFrom next s before) a ∧
        R (next (runFrom next s before) a) (runFrom next s actions) := by
  induction actions using List.reverseRecOn with
  | nil => exact absurd h hs
  | append_singleton init a ih =>
    rw [along_append] at ha
    rw [runFrom_append] at h
    have hinit := run_invariant keeps hI ha.1
    rcases step _ a hinit ha.2.1 h with ⟨hbefore, hsince⟩ | hchange
    · obtain ⟨before, b, after, rfl, hI', hmet, hchange, hrest⟩ := ih ha.1 hbefore
      refine ⟨before, b, after ++ [a], by simp, hI', hmet, hchange, ?_⟩
      rw [runFrom_append]
      exact trans _ _ _ hrest hsince
    · refine ⟨init, a, [], rfl, hinit, ha.2.1, hchange, ?_⟩
      rw [runFrom_append]
      exact refl _

end Changes
end PveMaster
