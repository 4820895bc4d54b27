import Mathlib.Logic.Relation
import Mathlib.Data.List.Basic

/-! Processes that interleave at their atomic actions.

A program (`Prog`) performs operations, each answered by a value, and returns or
raises. What it does between two operations is invisible to everyone else, so an
operation is the unit of interleaving. A `Machine` says what an operation does to
the process's own memory and to the state all processes share, given an input
that stands for everything decided outside (answers of other systems, random
draws); an operation without a result is blocked. A system runs any number of
processes; a process can be lost at any point, and the outside world can change
the shared state. -/
namespace PveMaster

/-! ### Programs -/

/-- A program: it is done, with a value or an exception, or performs an operation and goes on with
its answer. The operations are an indexed type, so each has its own type of answers. -/
inductive Prog (E : Type) (Op : Type → Type) (α : Type) : Type 1 where
  | done (r : Except E α)
  | node {ρ : Type} (o : Op ρ) (k : ρ → Prog E Op α)

namespace Prog

variable {E : Type} {Op : Type → Type} {α β ρ : Type}

/-- Go on with what a program returns or raises. -/
def andThen (p : Prog E Op α) (f : Except E α → Prog E Op β) : Prog E Op β :=
  match p with
  | done r => f r
  | node o k => node o fun r => (k r).andThen f

/-- Go on with what a program returns; what it raises is raised. -/
def bind (p : Prog E Op α) (f : α → Prog E Op β) : Prog E Op β :=
  p.andThen fun
    | .ok a => f a
    | .error e => done (.error e)

instance : Monad (Prog E Op) where
  pure a := done (.ok a)
  bind := bind

instance : LawfulMonad (Prog E Op) := by
  refine LawfulMonad.mk' _ (fun p => ?_) (fun _ _ => rfl) (fun p f g => ?_)
  · show p.andThen _ = p
    induction p with
    | done r => cases r <;> rfl
    | node o k ih => exact congrArg (node o) (funext ih)
  · show (p.andThen _).andThen _ = p.andThen _
    induction p with
    | done r => cases r <;> rfl
    | node o k ih => exact congrArg (node o) (funext ih)

/-- The program that raises at once. -/
def raise (e : E) : Prog E Op α := done (.error e)

/-- `try` without its handlers: what is raised becomes a value. -/
def attempt (p : Prog E Op α) : Prog E Op (Except E α) := p.andThen fun r => done (.ok r)

/-- Run the second program whether or not the first raises. -/
def always (p : Prog E Op α) (last : Prog E Op Unit) : Prog E Op α :=
  p.andThen fun r => last.andThen fun
    | .ok _ => done r
    | .error e => done (.error e)

/-- One operation, and what it is answered with. -/
def op (o : Op ρ) : Prog E Op ρ := node o fun r => done (.ok r)

/-- An operation that can raise. -/
def perform (o : Op (Except E ρ)) : Prog E Op ρ := node o fun r => done r

/-- Raise what a computation raises. -/
def ofExcept (r : Except E α) : Prog E Op α := done r

/-! ### What a program performs -/

/-- Every operation the program can come to satisfies `P`, whatever the operations before it are
answered with. It is a fact of the program's text: nothing is run. -/
def Only (P : {ρ : Type} → Op ρ → Prop) : Prog E Op α → Prop
  | done _ => True
  | node o k => P o ∧ ∀ r, (k r).Only P

/-- The same up to an operation that satisfies `turn`, and `Q` from there on. This says that a
program changes its manners once, at a point that its answers may decide. -/
def OnlyUntil (P turn Q : {ρ : Type} → Op ρ → Prop) : Prog E Op α → Prop
  | done _ => True
  | node o k => P o ∧ (∀ r, (k r).OnlyUntil P turn Q) ∨ turn o ∧ ∀ r, (k r).Only Q

section Only
variable {P turn Q : {ρ : Type} → Op ρ → Prop}

theorem only_done {r : Except E α} : (done r : Prog E Op α).Only P := trivial

theorem only_andThen {p : Prog E Op α} {f : Except E α → Prog E Op β} (hp : p.Only P)
    (hf : ∀ r, (f r).Only P) : (p.andThen f).Only P := by
  induction p with
  | done r => exact hf r
  | node o k ih => exact ⟨hp.1, fun r => ih r (hp.2 r)⟩

theorem only_bind {p : Prog E Op α} {f : α → Prog E Op β} (hp : p.Only P)
    (hf : ∀ a, (f a).Only P) : (p >>= f).Only P := by
  refine only_andThen hp fun r => ?_
  cases r with
  | ok a => exact hf a
  | error e => exact only_done

theorem only_attempt {p : Prog E Op α} (hp : p.Only P) : p.attempt.Only P :=
  only_andThen hp fun _ => only_done

theorem only_always {p : Prog E Op α} {last : Prog E Op Unit} (hp : p.Only P)
    (hlast : last.Only P) : (p.always last).Only P := by
  refine only_andThen hp fun r => only_andThen hlast fun l => ?_
  cases l <;> exact only_done

theorem only_op {o : Op ρ} (h : P o) : (op o : Prog E Op ρ).Only P := ⟨h, fun _ => only_done⟩

theorem only_perform {o : Op (Except E ρ)} (h : P o) : (perform o : Prog E Op ρ).Only P :=
  ⟨h, fun _ => only_done⟩

theorem Only.mono {p : Prog E Op α} (h : ∀ {ρ : Type} (o : Op ρ), P o → Q o) (hp : p.Only P) :
    p.Only Q := by
  induction p with
  | done r => trivial
  | node o k ih => exact ⟨h o hp.1, fun r => ih r (hp.2 r)⟩

theorem Only.and {p : Prog E Op α} (hP : p.Only P) (hQ : p.Only Q) :
    p.Only (fun o => P o ∧ Q o) := by
  induction p with
  | done r => trivial
  | node o k ih => exact ⟨⟨hP.1, hQ.1⟩, fun r => ih r (hP.2 r) (hQ.2 r)⟩

/-- What holds of every operation. -/
theorem only_all {p : Prog E Op α} (h : ∀ {ρ : Type} (o : Op ρ), P o) : p.Only P := by
  induction p with
  | done r => trivial
  | node o k ih => exact ⟨h o, fun r => ih r⟩

theorem Only.until {p : Prog E Op α} (hp : p.Only P) : p.OnlyUntil P turn Q := by
  induction p with
  | done r => trivial
  | node o k ih => exact Or.inl ⟨hp.1, fun r => ih r (hp.2 r)⟩

theorem onlyUntil_andThen {p : Prog E Op α} {f : Except E α → Prog E Op β}
    (hp : p.OnlyUntil P turn Q) (hf : ∀ r, (f r).OnlyUntil P turn Q) (hq : ∀ r, (f r).Only Q) :
    (p.andThen f).OnlyUntil P turn Q := by
  induction p with
  | done r => exact hf r
  | node o k ih =>
    rcases hp with ⟨ho, hk⟩ | ⟨ho, hk⟩
    · exact Or.inl ⟨ho, fun r => ih r (hk r)⟩
    · exact Or.inr ⟨ho, fun r => only_andThen (hk r) hq⟩

/-- What comes before the turn. -/
theorem onlyUntil_bind {p : Prog E Op α} {f : α → Prog E Op β} (hp : p.Only P)
    (hf : ∀ a, (f a).OnlyUntil P turn Q) : (p >>= f).OnlyUntil P turn Q := by
  induction p with
  | done r =>
    cases r with
    | ok a => exact hf a
    | error e => trivial
  | node o k ih => exact Or.inl ⟨hp.1, fun r => ih r (hp.2 r)⟩

end Only

end Prog

/-! ### Machines and systems -/

/-- What an operation does: to the memory of the process that performs it and to the state all
processes share, given an input that stands for what is decided outside. Where it has no result
the process waits. A message starts a process. -/
structure Machine (E : Type) (Op : Type → Type) (Θ σ ι μ : Type) where
  exec : {ρ : Type} → Op ρ → ι → Θ → σ → Option (Θ × σ × ρ)
  start : μ → Θ × Prog E Op Unit
  /-- What the end of a process, orderly or not, does to the shared state. -/
  drop : Θ → σ → σ

/-- A system: the state its processes share and, for each identifier in use, a process with its
memory and the rest of its program. -/
structure Sys (E : Type) (Op : Type → Type) (Θ σ : Type) where
  shared : σ
  procs : Nat → Option (Θ × Prog E Op Unit)

/-- What can happen to a system: a process begins, goes on by one operation, or is lost, or the
outside world changes the shared state. Every order of these is a run. -/
inductive Action (σ ι μ : Type) where
  | spawn (pid : Nat) (m : μ)
  | step (pid : Nat) (i : ι)
  | crash (pid : Nat)
  | env (f : σ → σ)

namespace Sys

variable {E : Type} {Op : Type → Type} {Θ σ ι μ : Type}

/-- A system without processes. -/
def idle (s : σ) : Sys E Op Θ σ := ⟨s, fun _ => none⟩

def setProc (s : Sys E Op Θ σ) (pid : Nat) (p : Option (Θ × Prog E Op Unit)) : Sys E Op Θ σ :=
  { s with procs := fun q => if q = pid then p else s.procs q }

@[simp] theorem setProc_shared (s : Sys E Op Θ σ) (pid : Nat) (p : Option (Θ × Prog E Op Unit)) :
    (s.setProc pid p).shared = s.shared := rfl

@[simp] theorem setProc_same (s : Sys E Op Θ σ) (pid : Nat) (p : Option (Θ × Prog E Op Unit)) :
    (s.setProc pid p).procs pid = p := if_pos rfl

theorem setProc_of_ne (s : Sys E Op Θ σ) {pid q : Nat} (p : Option (Θ × Prog E Op Unit))
    (h : q ≠ pid) : (s.setProc pid p).procs q = s.procs q := if_neg h

variable (M : Machine E Op Θ σ ι μ)

/-- One action. A process is started under an identifier that is free, and one that is not there
or that waits stays as it is. -/
def next (s : Sys E Op Θ σ) : Action σ ι μ → Sys E Op Θ σ
  | .spawn pid m => if (s.procs pid).isSome then s else s.setProc pid (some (M.start m))
  | .crash pid =>
    match s.procs pid with
    | none => s
    | some (θ, _) => { s with shared := M.drop θ s.shared }.setProc pid none
  | .env f => { s with shared := f s.shared }
  | .step pid i =>
    match s.procs pid with
    | none => s
    | some (θ, .done _) => { s with shared := M.drop θ s.shared }.setProc pid none
    | some (θ, .node o k) =>
      match M.exec o i θ s.shared with
      | none => s
      | some (θ', shared, r) => { s with shared := shared }.setProc pid (some (θ', k r))

/-- What an action did to a system, for the proofs to take apart: an invariant of every run
follows from these five cases, and none of them mentions the others' processes. -/
inductive Did (s : Sys E Op Θ σ) : Action σ ι μ → Sys E Op Θ σ → Prop
  | nothing (a : Action σ ι μ) : Did s a s
  | changed (f : σ → σ) : Did s (.env f) { s with shared := f s.shared }
  | spawned {pid : Nat} (m : μ) (free : s.procs pid = none) :
      Did s (.spawn pid m) (s.setProc pid (some (M.start m)))
  | ended {pid : Nat} {θ : Θ} {p : Prog E Op Unit} {a : Action σ ι μ}
      (live : s.procs pid = some (θ, p)) (ends : a = .crash pid ∨ ∃ i r, a = .step pid i ∧ p = .done r) :
      Did s a ({ s with shared := M.drop θ s.shared }.setProc pid none)
  | performed {pid : Nat} {i : ι} {θ θ' : Θ} {ρ : Type} {o : Op ρ} {k : ρ → Prog E Op Unit}
      {shared : σ} {r : ρ} (live : s.procs pid = some (θ, .node o k))
      (exec : M.exec o i θ s.shared = some (θ', shared, r)) :
      Did s (.step pid i) ({ s with shared := shared }.setProc pid (some (θ', k r)))

theorem next_did (s : Sys E Op Θ σ) (a : Action σ ι μ) : Did M s a (s.next M a) := by
  cases a with
  | env f => exact .changed f
  | spawn pid m =>
    cases hp : s.procs pid with
    | some proc => simp only [next, hp, Option.isSome_some, if_true]; exact .nothing _
    | none => simp only [next, hp, Option.isSome_none]; exact .spawned m hp
  | crash pid =>
    cases hp : s.procs pid with
    | none => simp only [next, hp]; exact .nothing _
    | some proc =>
      obtain ⟨θ, p⟩ := proc
      simp only [next, hp]
      exact .ended hp (Or.inl rfl)
  | step pid i =>
    cases hp : s.procs pid with
    | none => simp only [next, hp]; exact .nothing _
    | some proc =>
      obtain ⟨θ, p⟩ := proc
      cases p with
      | done r =>
        simp only [next, hp]
        exact .ended hp (Or.inr ⟨i, r, rfl, rfl⟩)
      | node o k =>
        cases hexec : M.exec o i θ s.shared with
        | none => simp only [next, hp, hexec]; exact .nothing _
        | some out =>
          obtain ⟨θ', shared, r⟩ := out
          simp only [next, hp, hexec]
          exact .performed hp hexec

/-- A process that is not started stays out of the system. -/
theorem procs_none_next {s : Sys E Op Θ σ} {a : Action σ ι μ} {pid : Nat} (hnone : s.procs pid = none)
    (h : ∀ m, a ≠ .spawn pid m) : (s.next M a).procs pid = none := by
  have hother {q : Nat} {θ : Θ} {p : Prog E Op Unit} (hlive : s.procs q = some (θ, p)) : pid ≠ q := by
    rintro rfl
    rw [hnone] at hlive
    cases hlive
  have hdid := Sys.next_did M s a
  generalize Sys.next M s a = after at hdid ⊢
  cases hdid with
  | nothing => exact hnone
  | changed f => exact hnone
  | @spawned q m _ =>
    have hne : pid ≠ q := fun hq => h m (hq ▸ rfl)
    exact (setProc_of_ne s _ hne).trans hnone
  | ended hlive _ => exact (setProc_of_ne _ _ (hother hlive)).trans hnone
  | performed hlive _ => exact (setProc_of_ne _ _ (hother hlive)).trans hnone

end Sys

/-! ### Runs -/

section Runs
variable {S A : Type*} (next : S → A → S)

/-- The state at the end of a list of actions. -/
def runFrom (s : S) (actions : List A) : S := actions.foldl next s

/-- A condition on every action of a run, in the state it is taken in. Assumptions about a run
that are not about single states take this form. -/
def Along (P : S → A → Prop) : S → List A → Prop
  | _, [] => True
  | s, a :: rest => P s a ∧ Along P (next s a) rest

instance {P : S → A → Prop} [∀ s a, Decidable (P s a)] :
    (s : S) → (actions : List A) → Decidable (Along next P s actions)
  | _, [] => .isTrue trivial
  | s, a :: rest =>
    have : Decidable (Along next P (next s a) rest) := instDecidableAlong (next s a) rest
    inferInstanceAs (Decidable (P s a ∧ Along next P (next s a) rest))

variable {next}

theorem runFrom_append (s : S) (as bs : List A) :
    runFrom next s (as ++ bs) = runFrom next (runFrom next s as) bs :=
  List.foldl_append

theorem along_append {P : S → A → Prop} {s : S} {as bs : List A} :
    Along next P s (as ++ bs) ↔ Along next P s as ∧ Along next P (runFrom next s as) bs := by
  induction as generalizing s with
  | nil => exact ⟨fun h => ⟨trivial, h⟩, fun h => h.2⟩
  | cons a rest ih => exact ⟨fun h => ⟨⟨h.1, (ih.mp h.2).1⟩, (ih.mp h.2).2⟩,
      fun h => ⟨h.1.1, ih.mpr ⟨h.1.2, h.2⟩⟩⟩

/-- What every action meeting the condition preserves holds at the end of the run. -/
theorem run_invariant {P : S → A → Prop} {I : S → Prop}
    (step : ∀ s a, I s → P s a → I (next s a)) {s : S} {actions : List A} (hI : I s)
    (h : Along next P s actions) : I (runFrom next s actions) := by
  induction actions generalizing s with
  | nil => exact hI
  | cons a rest ih => exact ih (step s a hI h.1) h.2

/-- What an invariant makes true of every next action is true along the run. -/
theorem along_of_invariant {P Q : S → A → Prop} {I : S → Prop}
    (step : ∀ s a, I s → P s a → I (next s a)) (holds : ∀ s a, I s → P s a → Q s a) {s : S}
    {actions : List A} (hI : I s) (h : Along next P s actions) : Along next Q s actions := by
  induction actions generalizing s with
  | nil => trivial
  | cons a rest ih => exact ⟨holds s a hI h.1, ih (step s a hI h.1) h.2⟩

/-- What holds of every action of the run, in whatever state. -/
theorem along_of_forall {P : S → A → Prop} {s : S} {actions : List A} (h : ∀ a ∈ actions, ∀ s, P s a) :
    Along next P s actions := by
  induction actions generalizing s with
  | nil => trivial
  | cons a rest ih => exact ⟨h a List.mem_cons_self s, ih fun b hb => h b (List.mem_cons_of_mem _ hb)⟩

/-- What a condition, and how the run has come to it, imply for its actions. -/
theorem Along.of_prefix {P P' : S → A → Prop} {s : S} {actions : List A}
    (h : ∀ before a after, actions = before ++ a :: after → P (runFrom next s before) a → P' (runFrom next s before) a)
    (ha : Along next P s actions) : Along next P' s actions := by
  induction actions generalizing s with
  | nil => trivial
  | cons a rest ih =>
    refine ⟨h [] a rest rfl ha.1, ih (fun before b after hrest hb => ?_) ha.2⟩
    exact h (a :: before) b after (by rw [hrest]; rfl) hb

/-- What a condition implies for the actions of the run. -/
theorem Along.of_mem {P P' : S → A → Prop} {s : S} {actions : List A} (h : ∀ a ∈ actions, ∀ s, P s a → P' s a)
    (ha : Along next P s actions) : Along next P' s actions :=
  ha.of_prefix fun before a after hactions => h a (by rw [hactions]; exact List.mem_append_cons_self) _

theorem Along.mono {P P' : S → A → Prop} (h : ∀ s a, P s a → P' s a) {s : S} {actions : List A}
    (ha : Along next P s actions) : Along next P' s actions :=
  ha.of_mem fun a _ s => h s a

end Runs

end PveMaster
