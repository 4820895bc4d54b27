import PveMaster.Foundation.Process

/-! Calls that are served one after another.

A program that runs by itself has its result and the state it leaves (`alone`). Where no two calls
overlap, a system goes from one idle state to the next as each call does alone, and so does whatever it
simulates (`run_serially`). -/
namespace PveMaster

variable {E A : Type} {Op : Type → Type} {Θ σ ι μ α β : Type}

/-- What a program returns and leaves when nobody else acts between its operations, each with the
same input. It has no result if one of them would have to wait. -/
def Machine.alone (M : Machine E Op Θ σ ι μ) (i : ι) : Prog E Op α → Θ → σ → Option (Except E α × Θ × σ)
  | .done r, θ, s => some (r, θ, s)
  | .node o k, θ, s => (M.exec o i θ s).bind fun out => M.alone i (k out.2.2) out.1 out.2.1

/-- A call by itself, to the end of its process, which releases what the process has held. -/
def Machine.call (M : Machine E Op Θ σ ι μ) (s : σ) (c : μ × ι) : Option σ :=
  (M.alone c.2 (M.start c.1).2 (M.start c.1).1 s).map fun out => M.drop out.2.1 out.2.2

/-- Calls that do not overlap: each is started, takes as many steps as it is given, and has ended
before the next one is started. Steps that are left over do nothing. -/
def serially (n : Nat) (calls : List (μ × ι)) : List (Action σ ι μ) :=
  calls.flatMap fun c => .spawn 0 c.1 :: List.replicate n (.step 0 c.2)

theorem alone_andThen {M : Machine E Op Θ σ ι μ} {i : ι} (p : Prog E Op α) (f : Except E α → Prog E Op β) (θ : Θ) (s : σ) :
    M.alone i (p.andThen f) θ s = (M.alone i p θ s).bind fun out => M.alone i (f out.1) out.2.1 out.2.2 := by
  induction p generalizing θ s with
  | done r => rfl
  | node o k ih =>
    simp only [Prog.andThen, Machine.alone]
    cases M.exec o i θ s with
    | none => rfl
    | some out => exact ih out.2.2 out.1 out.2.1

namespace Sys
variable {M : Machine E Op Θ σ ι μ}

@[simp] theorem setProc_setProc (s : Sys E Op Θ σ) (pid : Nat) (p q : Option (Θ × Prog E Op Unit)) :
    (s.setProc pid p).setProc pid q = s.setProc pid q := by
  unfold setProc
  congr 1
  funext x
  by_cases hx : x = pid <;> simp [hx]

@[simp] theorem idle_setProc (s : σ) (pid : Nat) : (idle s : Sys E Op Θ σ).setProc pid none = idle s := by
  unfold setProc idle
  congr 1
  funext x
  simp

theorem idle_steps (s : σ) (pid n : Nat) (i : ι) :
    runFrom (next M) (idle s) (List.replicate n (.step pid i)) = idle s := by
  induction n with
  | zero => rfl
  | succ n ih => exact ih

/-- A process that is the only one, given steps enough. -/
theorem run_alone {p : Prog E Op Unit} {i : ι} {θ θ' : Θ} {s s' : σ} {r : Except E Unit} (pid : Nat)
    (h : M.alone i p θ s = some (r, θ', s')) :
    ∃ n, ∀ m, n ≤ m → runFrom (next M) ((idle s).setProc pid (some (θ, p))) (List.replicate m (.step pid i)) =
      idle (M.drop θ' s') := by
  induction p generalizing θ s with
  | done r =>
    cases h
    refine ⟨1, fun m hm => ?_⟩
    obtain ⟨m, rfl⟩ := Nat.exists_eq_add_of_le hm
    rw [Nat.add_comm, List.replicate_succ]
    show runFrom (next M) (next M _ _) _ = _
    have hstep : next M ((idle s').setProc pid (some (θ', .done r))) (.step pid i) = idle (M.drop θ' s') := by
      simp only [next, setProc_same]
      exact (setProc_setProc (idle (M.drop θ' s')) pid _ none).trans (idle_setProc _ pid)
    rw [hstep, idle_steps]
  | node o k ih =>
    simp only [Machine.alone, Option.bind_eq_some_iff] at h
    obtain ⟨out, hexec, hrest⟩ := h
    obtain ⟨n, hn⟩ := ih out.2.2 hrest
    refine ⟨n + 1, fun m hm => ?_⟩
    obtain ⟨m, rfl⟩ := Nat.exists_eq_add_of_le hm
    rw [show n + 1 + m = (n + m) + 1 by omega, List.replicate_succ]
    show runFrom (next M) (next M _ _) _ = _
    have hstep : next M ((idle s).setProc pid (some (θ, .node o k))) (.step pid i) =
        (idle out.2.1).setProc pid (some (out.1, k out.2.2)) := by
      have hexec : M.exec o i θ ((idle s : Sys E Op Θ σ).setProc pid (some (θ, .node o k))).shared = some out := hexec
      simp only [next, setProc_same, hexec]
      exact setProc_setProc (idle out.2.1) pid _ _
    rw [hstep]
    exact hn (n + m) (Nat.le_add_right n m)

theorem run_call {s s' : σ} {c : μ × ι} (h : M.call s c = some s') :
    ∃ n, ∀ m, n ≤ m → runFrom (next M) (idle s) (.spawn 0 c.1 :: List.replicate m (.step 0 c.2)) = idle s' := by
  obtain ⟨⟨r, θ', s''⟩, halone, rfl⟩ := Option.map_eq_some_iff.mp h
  exact run_alone 0 halone

/-- **Calls one after another** do what the calls of a simulated system do. -/
theorem run_serially {R : σ → A → Prop} {step : A → μ × ι → A}
    (hstep : ∀ s a c, R s a → ∃ s', M.call s c = some s' ∧ R s' (step a c)) (calls : List (μ × ι)) {s : σ} {a : A}
    (hR : R s a) : ∃ n s', R s' (calls.foldl step a) ∧
      ∀ m, n ≤ m → runFrom (next M) (idle s) (serially m calls) = idle s' := by
  induction calls generalizing s a with
  | nil => exact ⟨0, s, hR, fun m _ => rfl⟩
  | cons c rest ih =>
    obtain ⟨s₁, hcall, hR₁⟩ := hstep s a c hR
    obtain ⟨n₁, hn₁⟩ := run_call hcall
    obtain ⟨n, s', hR', hn⟩ := ih hR₁
    refine ⟨max n₁ n, s', hR', fun m hm => ?_⟩
    have hsplit : serially m (c :: rest) = (.spawn 0 c.1 :: List.replicate m (.step 0 c.2)) ++ (serially m rest : List (Action σ ι μ)) := rfl
    rw [hsplit, runFrom_append, hn₁ m (Nat.le_trans (Nat.le_max_left _ _) hm), hn m (Nat.le_trans (Nat.le_max_right _ _) hm)]

end Sys
end PveMaster
