import PveMaster.Provisioning.Effects
import PveMaster.Requests.Acceptances

/-! The whole platform: requests, the runners of operations, and the provisioning runner.

Their processes interleave over one database and one Proxmox. -/
namespace PveMaster

/-- An operation of one of the three kinds of processes. -/
abbrev PlatformOp : Type → Type := SumOp (SumOp RunnerOp ServiceOp) ProvOp
abbrev PlatformProcess : Type := (OpState ⊕ ServiceProcess) ⊕ ProvState
abbrev PlatformMessage : Type := (OpMessage ⊕ ServiceMessage) ⊕ ProvMessage
abbrev PlatformAction : Type := Action World Input PlatformMessage
abbrev PlatformSys : Type 1 := Sys Exn PlatformOp PlatformProcess World

/-- All of them over one database and one Proxmox, in any order. -/
def platform (rt : Runtime) (api : Api) :
    Machine Exn PlatformOp PlatformProcess World Input PlatformMessage :=
  (jobMachine rt api).beside (provMachine rt)

/-- The state after a run of the platform. -/
def platformReached (rt : Runtime) (api : Api) (w : World) (actions : List PlatformAction) : World :=
  (runFrom (Sys.next (platform rt api)) (Sys.idle w) actions).shared

/-! ### Conditions on one kind of process

What a run is assumed to keep to may depend on the operation a process is about to perform. -/

/-- Conditions on what each kind of process performs, in the state it is performed in. -/
structure Custom where
  runner : {ρ : Type} → RunnerOp ρ → OpState → World → Prop := fun _ _ _ => True
  service : {ρ : Type} → ServiceOp ρ → ServiceProcess → World → Prop := fun _ _ _ => True
  provisioning : {ρ : Type} → ProvOp ρ → ProvState → World → Prop := fun _ _ _ => True
  outside : World → World → Prop

namespace Custom
variable (c : Custom)

/-- The conditions of the three kinds of processes, put together to one of the platform. -/
def conditions : Conditions Exn PlatformOp PlatformProcess World Input PlatformMessage where
  step θ p _ w :=
    match θ, p with
    | .inl (.inl θ), .node (.left (.left o)) _ => c.runner o θ w
    | .inl (.inr θ), .node (.left (.right o)) _ => c.service o θ w
    | .inr θ, .node (.right o) _ => c.provisioning o θ w
    | _, _ => True
  env := c.outside

/-- The conditions of each machine by itself. -/
def ofRunners : Conditions Exn RunnerOp OpState World Input OpMessage where
  step θ p _ w :=
    match p with
    | .node o _ => c.runner o θ w
    | .done _ => True
  env := c.outside

def ofRequests : Conditions Exn ServiceOp ServiceProcess World Input ServiceMessage where
  step θ p _ w :=
    match p with
    | .node o _ => c.service o θ w
    | .done _ => True
  env := c.outside

def ofProvisioning : Conditions Exn ProvOp ProvState World Input ProvMessage where
  step θ p _ w :=
    match p with
    | .node o _ => c.provisioning o θ w
    | .done _ => True
  env := c.outside

variable {c}

theorem met_beside {s : PlatformSys} {a : PlatformAction} (h : c.conditions.Met s a) :
    ((c.ofRunners.beside c.ofRequests).beside c.ofProvisioning).Met s a := by
  refine Conditions.met_mono (fun m w _ => ?_) (fun θ p i w hstep => ?_) (fun θ p w _ => ?_)
    (fun _ _ h => Or.inl (Or.inl h)) h
  · cases m with
    | inl m => cases m <;> trivial
    | inr m => trivial
  · cases θ with
    | inl θ =>
      intro p₁ hp₁
      cases θ with
      | inl θ =>
        intro p₂ hp₂
        cases p₂ with
        | done r => trivial
        | node o k =>
          rw [hp₁, hp₂] at hstep
          exact hstep
      | inr θ =>
        intro p₂ hp₂
        cases p₂ with
        | done r => trivial
        | node o k =>
          rw [hp₁, hp₂] at hstep
          exact hstep
    | inr θ =>
      intro p₁ hp₁
      cases p₁ with
      | done r => trivial
      | node o k =>
        rw [hp₁] at hstep
        exact hstep
  · cases θ with
    | inl θ =>
      intro p₁ _
      cases θ <;> exact fun _ _ => trivial
    | inr θ => exact fun _ _ => trivial

section Decide
variable [hr : ∀ {ρ : Type} (o : RunnerOp ρ) θ w, Decidable (c.runner o θ w)]
  [hs : ∀ {ρ : Type} (o : ServiceOp ρ) θ w, Decidable (c.service o θ w)]
  [hp : ∀ {ρ : Type} (o : ProvOp ρ) θ w, Decidable (c.provisioning o θ w)]

instance (m : PlatformMessage) (w : World) : Decidable (c.conditions.spawn m w) := .isTrue trivial

instance (θ : PlatformProcess) (p : Prog Exn PlatformOp Unit) (i : Input) (w : World) :
    Decidable (c.conditions.step θ p i w) :=
  match θ, p with
  | .inl (.inl θ), .node (.left (.left o)) _ => hr o θ w
  | .inl (.inr θ), .node (.left (.right o)) _ => hs o θ w
  | .inr θ, .node (.right o) _ => hp o θ w
  | .inl (.inl _), .node (.left (.right _)) _ => .isTrue trivial
  | .inl (.inr _), .node (.left (.left _)) _ => .isTrue trivial
  | .inl (.inl _), .node (.right _) _ => .isTrue trivial
  | .inl (.inr _), .node (.right _) _ => .isTrue trivial
  | .inl (.inl _), .done _ => .isTrue trivial
  | .inl (.inr _), .done _ => .isTrue trivial
  | .inr _, .node (.left _) _ => .isTrue trivial
  | .inr _, .done _ => .isTrue trivial

instance (θ : PlatformProcess) (p : Prog Exn PlatformOp Unit) (w : World) :
    Decidable (c.conditions.crash θ p w) := .isTrue trivial

instance [h : ∀ w w', Decidable (c.outside w w')] (w w' : World) :
    Decidable (c.conditions.env w w') := h w w'

end Decide
end Custom

/-- The request a process of the platform serves, and how far it is. -/
def serviceState (s : PlatformSys) (pid : Nat) : Option ServiceProcess :=
  match s.procs pid with
  | some (.inl (.inr θ), _) => some θ
  | _ => none

end PveMaster
