import PveMaster.Foundation.RelyGuarantee
import Mathlib.Data.Finsupp.Basic
import Mathlib.Algebra.Order.Group.Nat
import Mathlib.Algebra.Order.Monoid.Prod

/-! What the processes of a system may spend between them.

A `Budget` says what an operation costs, in amounts of any kind, and whether it is allowed
in the memory it is performed in. `within` is what a program needs to know so that it keeps
to a budget whatever the shared state; it is compositional, as `wp` is.

A process earns what it spends from the shared state: a `Ledger` says that an operation
moves no more into the process's hands than it takes out of the state's account. So the
account and all that the processes hold never exceed the total (`Ledger.run`). -/
namespace PveMaster

variable {E : Type} {Op : Type → Type} {Θ σ ι μ A : Type}

/-- What an operation costs, and whether it is allowed at all, in the memory it is performed in.
The amounts are those of any ordered monoid, so a budget can count several things at once. -/
structure Budget (Op : Type → Type) (Θ σ ι A : Type) where
  /-- The inputs that are considered, with so much in hand. -/
  may : {ρ : Type} → A → Op ρ → ι → Θ → σ → Prop := fun _ _ _ _ _ => True
  allowed : {ρ : Type} → Op ρ → Θ → Prop := fun _ _ => True
  cost : {ρ : Type} → Op ρ → ι → Θ → σ → A

section Within
variable [AddCommMonoid A] [PartialOrder A]
variable (M : Machine E Op Θ σ ι μ) (B : Budget Op Θ σ ι A) {α β ρ : Type}

/-- What a program needs to know so that it keeps to a budget, whatever the shared state is: each
of its operations is allowed and leaves enough for what comes behind it. At the end the
postcondition is asked for, of what is left. -/
def within : Prog E Op α → (Except E α → A → Θ → Prop) → A → Θ → Prop
  | .done r, Q, n, θ => Q r n θ
  | .node o k, Q, n, θ => B.allowed o θ ∧ ∀ i s θ' s' r, B.may n o i θ s →
      M.exec o i θ s = some (θ', s', r) →
        ∃ n', B.cost o i θ s + n' ≤ n ∧ within (k r) Q n' θ'

/-- An operation that is free while the memory satisfies `J`, and keeps it so, whatever it is
answered with. -/
def Budget.Keeps (J : Θ → Prop) (o : Op ρ) : Prop :=
  ∀ θ, J θ → B.allowed o θ ∧ ∀ i s θ' s' r, M.exec o i θ s = some (θ', s', r) →
    B.cost o i θ s = 0 ∧ J θ'

variable {M B}

theorem within_mono {p : Prog E Op α} {Q Q' : Except E α → A → Θ → Prop} {n : A} {θ : Θ}
    (h : ∀ r n θ, Q r n θ → Q' r n θ) (hp : within M B p Q n θ) : within M B p Q' n θ := by
  induction p generalizing n θ with
  | done r => exact h r n θ hp
  | node o k ih =>
    refine ⟨hp.1, fun i s θ' s' r hmay hexec => ?_⟩
    obtain ⟨n', hcost, hk⟩ := hp.2 i s θ' s' r hmay hexec
    exact ⟨n', hcost, ih r hk⟩

theorem within_andThen {p : Prog E Op α} {f : Except E α → Prog E Op β}
    {Q : Except E β → A → Θ → Prop} {n : A} {θ : Θ} :
    within M B (p.andThen f) Q n θ ↔ within M B p (fun r n θ => within M B (f r) Q n θ) n θ := by
  induction p generalizing n θ with
  | done r => exact Iff.rfl
  | node o k ih =>
    constructor
    · intro h
      refine ⟨h.1, fun i s θ' s' r hmay hexec => ?_⟩
      obtain ⟨n', hcost, hk⟩ := h.2 i s θ' s' r hmay hexec
      exact ⟨n', hcost, (ih r).mp hk⟩
    · intro h
      refine ⟨h.1, fun i s θ' s' r hmay hexec => ?_⟩
      obtain ⟨n', hcost, hk⟩ := h.2 i s θ' s' r hmay hexec
      exact ⟨n', hcost, (ih r).mpr hk⟩

theorem within_bind {p : Prog E Op α} {f : α → Prog E Op β} {Q : Except E β → A → Θ → Prop}
    {n : A} {θ : Θ} (h : within M B p (fun r n θ => match r with
      | .ok a => within M B (f a) Q n θ
      | .error e => Q (.error e) n θ) n θ) : within M B (p >>= f) Q n θ := by
  refine within_andThen.mpr (within_mono (fun r n θ hr => ?_) h)
  cases r with
  | ok a => exact hr
  | error e => exact hr

theorem within_attempt {p : Prog E Op α} {Q : Except E (Except E α) → A → Θ → Prop} {n : A}
    {θ : Θ} (h : within M B p (fun r n θ => Q (.ok r) n θ) n θ) : within M B p.attempt Q n θ :=
  within_andThen.mpr h

/-- A program of free operations leaves the budget as it is. -/
theorem within_of_only {J : Θ → Prop} {p : Prog E Op α} {Q : Except E α → A → Θ → Prop} {n : A}
    {θ : Θ} (hp : p.Only (fun o => B.Keeps M J o)) (hJ : J θ) (h : ∀ r θ, J θ → Q r n θ) :
    within M B p Q n θ := by
  induction p generalizing θ with
  | done r => exact h r θ hJ
  | node o k ih =>
    obtain ⟨hallowed, hkeeps⟩ := hp.1 θ hJ
    refine ⟨hallowed, fun i s θ' s' r _ hexec => ?_⟩
    obtain ⟨hcost, hJ'⟩ := hkeeps i s θ' s' r hexec
    rw [hcost]
    exact ⟨n, le_of_eq (zero_add n), ih r (hp.2 r) hJ'⟩

end Within

/-! ### Accounts -/

section Accounts
variable [AddCommMonoid A]

theorem Ledger.sum_update (held : Nat →₀ A) (pid : Nat) (n : A) :
    (held.update pid n).sum (fun _ n => n) + held pid = held.sum (fun _ n => n) + n :=
  Finsupp.sum_update_add held pid n (fun _ n => n) (fun _ => rfl) (fun _ _ _ => rfl)

variable [PartialOrder A]

/-- What the shared state has spent and can still hand out is `account`. An operation moves no
more into the hands of its process than it takes out of the account, so a process that is lost
takes what it holds with it and nothing is spent twice. -/
structure Ledger (M : Machine E Op Θ σ ι μ) (c : Conditions E Op Θ σ ι μ) (I : σ → Prop)
    (L : Θ → Prog E Op Unit → A → σ → Prop) (G : σ → σ → Prop) (account : σ → A) (total : A) :
    Prop where
  refl : ∀ s, G s s
  start : ∀ m s, I s → c.spawn m s → L (M.start m).1 (M.start m).2 0 s
  step : ∀ {ρ : Type} (o : Op ρ) (k : ρ → Prog E Op Unit) (i : ι) (θ θ' : Θ) (n : A) (s s' : σ)
    (r : ρ), I s → L θ (.node o k) n s → account s + n ≤ total → c.step θ (.node o k) i s →
      M.exec o i θ s = some (θ', s', r) →
        I s' ∧ G s s' ∧ ∃ n', account s' + n' ≤ account s + n ∧ L θ' (k r) n' s'
  drop : ∀ θ p n s, I s → L θ p n s →
    I (M.drop θ s) ∧ G s (M.drop θ s) ∧ account (M.drop θ s) ≤ account s
  env : ∀ s s', I s → c.env s s' → I s' ∧ G s s' ∧ account s' ≤ account s
  stable : ∀ θ p n s s', G s s' → L θ p n s → L θ p n s'

/-- Every process knows what it should, and all that is held, together with the account, comes to
no more than `total`. -/
structure Sys.Accounted (I : σ → Prop) (L : Θ → Prog E Op Unit → A → σ → Prop)
    (account : σ → A) (total : A) (s : Sys E Op Θ σ) : Prop where
  shared : I s.shared
  hands : ∃ held : Nat →₀ A,
    (∀ pid θ p, s.procs pid = some (θ, p) → L θ p (held pid) s.shared) ∧
      account s.shared + held.sum (fun _ n => n) ≤ total

theorem Sys.accounted_idle {I : σ → Prop} {L : Θ → Prog E Op Unit → A → σ → Prop}
    {account : σ → A} {total : A} {s : σ} (h : I s) (hle : account s ≤ total) :
    (Sys.idle s : Sys E Op Θ σ).Accounted I L account total := by
  refine ⟨h, 0, nofun, ?_⟩
  rw [Finsupp.sum_zero_index, add_zero]
  exact hle

namespace Ledger

theorem held_le [CanonicallyOrderedAdd A] (held : Nat →₀ A) (pid : Nat) : held pid ≤ held.sum (fun _ n => n) := by
  have hsum := sum_update held pid 0
  rw [add_zero] at hsum
  rw [← hsum]
  exact le_add_self

theorem account_le [CanonicallyOrderedAdd A] {I : σ → Prop} {L : Θ → Prog E Op Unit → A → σ → Prop} {account : σ → A}
    {total : A} {s : Sys E Op Θ σ} (h : s.Accounted I L account total) :
    account s.shared ≤ total := by
  obtain ⟨_, held, _, hle⟩ := h
  exact le_trans le_self_add hle

variable {M : Machine E Op Θ σ ι μ} {c : Conditions E Op Θ σ ι μ} {I : σ → Prop}
  {L : Θ → Prog E Op Unit → A → σ → Prop} {G : σ → σ → Prop} {account : σ → A} {total : A}

/-- What one process comes to hold, the others staying as they are. -/
theorem accounted_set [IsOrderedCancelAddMonoid A] (h : Ledger M c I L G account total) {pid : Nat} {n : A} {s : Sys E Op Θ σ}
    {s' : σ} {x : Option (Θ × Prog E Op Unit)} {held : Nat →₀ A} (hI : I s') (hG : G s.shared s')
    (each : ∀ pid θ p, s.procs pid = some (θ, p) → L θ p (held pid) s.shared)
    (total_le : account s.shared + held.sum (fun _ n => n) ≤ total)
    (balance : account s' + n ≤ account s.shared + held pid)
    (mine : ∀ θ p, x = some (θ, p) → L θ p n s') :
    (Sys.setProc { s with shared := s' } pid x).Accounted I L account total := by
  refine ⟨hI, held.update pid n, fun q θ p hq => ?_, ?_⟩
  · by_cases hqp : q = pid
    · rw [hqp, Sys.setProc_same] at hq
      rw [hqp, Finsupp.update_apply, if_pos rfl]
      exact mine θ p hq
    · rw [Sys.setProc_of_ne _ _ hqp] at hq
      rw [Finsupp.update_apply, if_neg hqp]
      exact h.stable θ p _ _ _ hG (each q θ p hq)
  · show account s' + (held.update pid n).sum (fun _ n => n) ≤ total
    refine le_trans ?_ total_le
    refine le_of_add_le_add_right (a := held pid) ?_
    rw [add_assoc, sum_update held pid n, add_right_comm (account s.shared),
      add_comm (held.sum _) n, ← add_assoc]
    exact add_le_add_left balance _

variable [IsOrderedCancelAddMonoid A] [CanonicallyOrderedAdd A]

/-- **One action** keeps the account. -/
theorem accounted_next (h : Ledger M c I L G account total) {s : Sys E Op Θ σ} {a : Action σ ι μ}
    (hs : s.Accounted I L account total) (ha : c.Met s a) :
    (s.next M a).Accounted I L account total := by
  obtain ⟨hI, held, each, total_le⟩ := hs
  have hdid := Sys.next_did M s a
  generalize Sys.next M s a = after at hdid ⊢
  cases hdid with
  | nothing => exact ⟨hI, held, each, total_le⟩
  | changed f =>
    obtain ⟨hI', hG, haccount⟩ := h.env _ _ hI ha
    exact ⟨hI', held, fun pid θ p hp => h.stable θ p _ _ _ hG (each pid θ p hp),
      le_trans (add_le_add_left haccount _) total_le⟩
  | @spawned pid m hfree =>
    have hbalance : account s.shared + 0 ≤ account s.shared + held pid :=
      add_le_add_right zero_le _
    refine h.accounted_set (s := s) hI (h.refl _) each total_le hbalance fun θ p hx => ?_
    have hL := h.start m s.shared hI ha
    rw [Option.some.inj hx] at hL
    exact hL
  | @ended pid θ p _ hp hends =>
    obtain ⟨hI', hG, haccount⟩ := h.drop θ p _ s.shared hI (each pid θ p hp)
    exact h.accounted_set hI' hG each total_le (add_le_add haccount zero_le) nofun
  | @performed pid i θ θ' ρ o k s' r hp hexec =>
    simp only [Conditions.Met, hp] at ha
    have hheld : account s.shared + held pid ≤ total :=
      le_trans (add_le_add_right (held_le held pid) _) total_le
    obtain ⟨hI', hG, n', hbalance, hL⟩ :=
      h.step o k i θ θ' _ s.shared s' r hI (each pid θ _ hp) hheld ha hexec
    refine h.accounted_set hI' hG each total_le hbalance fun θ₂ p₂ hx => ?_
    have : (θ', k r) = (θ₂, p₂) := Option.some.inj hx
    cases this
    exact hL

/-- **A run** never spends more than there was. -/
theorem run (h : Ledger M c I L G account total) {s : Sys E Op Θ σ} {actions : List (Action σ ι μ)}
    (hs : s.Accounted I L account total) (ha : Along (Sys.next M) c.Met s actions) :
    (runFrom (Sys.next M) s actions).Accounted I L account total := by
  have step : ∀ t a, t.Accounted I L account total → c.Met t a →
      (Sys.next M t a).Accounted I L account total := fun _ _ ht hP => h.accounted_next ht hP
  exact run_invariant step hs ha

end Ledger
end Accounts
end PveMaster
