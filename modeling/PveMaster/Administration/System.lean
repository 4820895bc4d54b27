import PveMaster.Administration.Service
import PveMaster.Foundation.Parallel
import PveMaster.Provisioning.Effects
import PveMaster.Requests.Acceptances

/-! The administration beside the requests and the provisioning runners.

Every process has a number of its own. A request or a runner whose insert names an
organization waits while the organization's row is locked. -/
namespace PveMaster.Administration

abbrev WorkerOp : Type → Type := SumOp ServiceOp ProvOp
abbrev Worker : Type := ServiceProcess ⊕ ProvState
abbrev AdminStore : Type := Store Estate Row AdminWrite AdminRequest
abbrev EstateOp : Type → Type := SumOp AdminStatement WorkerOp
abbrev EstateProcess : Type := Transaction AdminRequest Unit ⊕ (Nat × Worker)
abbrev EstateMessage : Type := (Nat × AdminRequest) ⊕ (Nat × (ServiceMessage ⊕ ProvMessage))
abbrev EstateAction : Type := Action AdminStore Input EstateMessage

/-- An assignment is made by an administrator here. -/
def isJob : ServiceMessage → Bool
  | .job _ => true
  | .assign .. | .unassign .. => false

def unlocked (s : AdminStore) (organizationId : Uuid) : Bool := (s.holder (.organization organizationId)).isNone

/-- Whether an operation finds the organization it names unlocked. -/
def free {ρ : Type} (o : WorkerOp ρ) (θ : Worker) (s : AdminStore) : Bool :=
  match o, θ with
  | .left (.create r _ _ _), _ => unlocked s r.organizationId
  | .right o, .inr θ => !o.assigns || θ.current.request.all (fun r => unlocked s r.organizationId)
  | _, _ => true

section
variable (rt : Runtime) (api : Api)

/-- Requests for jobs, and provisioning runners. -/
def workers : Machine Exn WorkerOp (Nat × Worker) AdminStore Input (Nat × (ServiceMessage ⊕ ProvMessage)) :=
  (((serviceMachine rt api).beside (provMachine rt)).within (fun s => s.db.world)
    (fun w s => { s with db := { s.db with world := w } }) free).numbered

def estate : Machine Exn EstateOp EstateProcess AdminStore Input EstateMessage :=
  adminSchema.machine.beside (workers rt api)

def processNumber : EstateProcess → Nat
  | .inl θ => θ.xid
  | .inr θ => θ.1

/-- The state after a run from an estate nobody works on. -/
def after (e : Estate) (actions : List EstateAction) : Estate :=
  (runFrom (Sys.next (estate rt api)) (Sys.idle (Store.unlocked Row AdminWrite AdminRequest e)) actions).shared.db

end

/-! ### What an operation of a worker does -/

section Steps
variable {rt : Runtime} {api : Api} {ρ : Type} {i : Input} {x : Nat} {θ' : Nat × Worker} {s s' : AdminStore} {r : ρ}

/-- The store with another database. -/
def withWorld (s : AdminStore) (w : World) : AdminStore := { s with db := { s.db with world := w } }

theorem service_step {o : ServiceOp ρ} {θ : ServiceProcess}
    (h : (workers rt api).exec (.left o) i (x, .inl θ) s = some (θ', s', r)) :
    free (.left o) (.inl θ) s = true ∧ (∃ θ₁, θ' = (x, .inl θ₁)) ∧
      ∃ w, ServiceEffect i s.db.world.clock o s.db.db w.db ∧ s' = withWorld s w := by
  obtain ⟨hnumber, h⟩ := Machine.numbered_exec h
  obtain ⟨hfree, w, hexec, rfl⟩ := Machine.within_exec h
  obtain ⟨θ₁, hθ, hexec⟩ := Machine.beside_left hexec
  refine ⟨hfree, ⟨θ₁, Prod.ext hnumber hθ⟩, w, ?_, rfl⟩
  cases hexec
  exact service_effect o i θ.state s.db.world

theorem runner_step {o : ProvOp ρ} {θ : ProvState}
    (h : (workers rt api).exec (.right o) i (x, .inr θ) s = some (θ', s', r)) :
    free (.right o) (.inr θ) s = true ∧ ∃ θ₁, θ' = (x, .inr θ₁) ∧
      ∃ w, ProvEffect rt.settings θ s.db.db o θ₁ w.db ∧ s' = withWorld s w := by
  obtain ⟨hnumber, h⟩ := Machine.numbered_exec h
  obtain ⟨hfree, w, hexec, rfl⟩ := Machine.within_exec h
  obtain ⟨θ₁, hθ, hexec⟩ := Machine.beside_right hexec
  exact ⟨hfree, θ₁, Prod.ext hnumber hθ, w, (prov_step hexec).effect, rfl⟩

end Steps

end PveMaster.Administration
