import PveMaster.Provisioning.Effects

/-! Which operations each part of the runner performs.

An operation is plain, or it belongs to the start of a run (`opening`), to the
refusal of a requester (`revoking`), to a renewal of the lease (`renewing`), or to
one of the steps. The lemmas follow the programs, so that an invariant need only look at
one operation at a time and the class it is in. -/
namespace PveMaster

/-- Where in a run an operation may stand. `own` is for what a single step does and no other, so
that an invariant about, say, the clone need only be followed through `fullClone`. -/
inductive OpClass where
  | plain
  | opening
  | revoking
  | renewing
  | own (step : StepName)
  deriving DecidableEq

/-- An assignment belongs to the step that makes it. What several steps assign alike, a UPID or an
error, is plain. -/
def ProvEdit.opClass : ProvEdit → OpClass
  | .revoked => .revoking
  | .stepStarted .. | .stepSucceeded .. | .leaseTouched _ => .renewing
  | .targetVmid _ => .own .reserveVmid
  | .ipAddress _ => .own .reserveIp
  | .cloneSubmitted => .own .fullClone
  | .passwordCleared _ => .own .configureIdentity
  | _ => .plain

/-- Of the requests to Proxmox only two tell the steps apart: the clone, and the configuration
that sets `ipconfig0`. -/
def Request.opClass : Request → OpClass
  | .cloneQemuTemplate .. => .own .fullClone
  | .configureQemu _ _ values =>
    if values.any (fun v => v.1 == "ipconfig0") then .own .configureNetwork else .plain
  | _ => .plain

/-- The class of an operation, by what it reads or writes and not by the program that performs it.
-/
def ProvOp.opClass {ρ : Type} : ProvOp ρ → OpClass
  | .claim _ | .load => .opening
  | .assign e | .commit e _ => e.opClass
  | .selectTarget .. => .own .selectTarget
  | .reserveIp .. => .own .reserveIp
  | .getAddress _ => .own .configureNetwork
  | .assignOrganization _ => .own .assignOrganization
  | .confirmIp _ => .own .confirmIp
  | .call r => r.opClass
  | _ => .plain

/-- The operations of no step in particular. -/
def Plain {ρ : Type} (o : ProvOp ρ) : Prop := o.opClass = .plain

/-- The operations of one step. -/
def InStep (name : StepName) {ρ : Type} (o : ProvOp ρ) : Prop :=
  o.opClass = .plain ∨ o.opClass = .renewing ∨ o.opClass = .own name

/-- The operations of all steps and of what follows them, so everything but the start of a run and
the refusal of its requester. -/
def Ordinary {ρ : Type} (o : ProvOp ρ) : Prop :=
  o.opClass ≠ .opening ∧ o.opClass ≠ .revoking

/-- What is done about a request whose requester may not have it any more. -/
def Revoking {ρ : Type} (o : ProvOp ρ) : Prop := o.opClass = .revoking

theorem plain_inStep {name : StepName} {ρ : Type} {o : ProvOp ρ} (h : Plain o) : InStep name o :=
  Or.inl h

theorem ordinary_plain {ρ : Type} {o : ProvOp ρ} (h : o.opClass = .plain) : Ordinary o := by
  unfold Ordinary
  rw [h]
  decide

theorem ordinary_renewing {ρ : Type} {o : ProvOp ρ} (h : o.opClass = .renewing) : Ordinary o := by
  unfold Ordinary
  rw [h]
  decide

/-- Whatever a step performs is ordinary. -/
theorem inStep_ordinary {name : StepName} {ρ : Type} {o : ProvOp ρ} (h : InStep name o) :
    Ordinary o := by
  rcases h with hplain | hrenewing | hown
  · exact ordinary_plain hplain
  · exact ordinary_renewing hrenewing
  · unfold Ordinary
    rw [hown]
    exact ⟨OpClass.noConfusion, OpClass.noConfusion⟩

namespace ProvisioningRunner
open Prog ProvProg

variable {rt : Runtime} {client : Except AppError Unit} {P : {ρ : Type} → ProvOp ρ → Prop}

/-! ### Reads -/

section Reads

theorem only_request : ProvProg.request.Only Plain :=
  only_bind (only_perform rfl) fun _ => only_done

theorem only_node : node.Only Plain := by
  refine only_bind only_request fun r => ?_
  cases r.targetNodeId with
  | none => exact only_done
  | some id => exact only_bind (only_op rfl) fun _ => only_done

theorem only_vmid : vmid.Only Plain := only_bind only_request fun _ => only_done

theorem only_int (key : String) : (int key).Only Plain := only_bind only_request fun _ => only_done

theorem only_str (key : String) : (str key).Only Plain := only_bind only_request fun _ => only_done

theorem only_ipam (principal : Option Principal) : (ipam principal).Only Plain :=
  only_bind only_done fun _ => only_done

/-- A request to Proxmox is one operation, and none at all if the client could not be opened. -/
theorem only_call {r : Request} (h : P (.call r)) : (ProvProg.call client r).Only P := by
  cases client with
  | ok _ => exact only_perform h
  | error e => exact only_done

theorem only_vmExists (vmid : Int) : (vmExists client vmid).Only Plain :=
  only_bind (only_call rfl) fun _ => only_done

end Reads

/-! ### Steps -/

section Steps
variable {name : StepName}

/-- Plain programs may be part of any step. -/
theorem inStep_of {α : Type} {p : ProvProg α} (h : p.Only Plain) : p.Only (InStep name) :=
  h.mono fun _ => plain_inStep

theorem only_validateRequest : validateRequest.Only Plain := by
  refine only_bind only_request fun r => only_bind (only_op rfl) fun organization =>
    only_bind (only_op rfl) fun cluster => ?_
  split
  · exact only_done
  · split <;> exact only_done

theorem only_checkProduct : checkProduct.Only Plain := by
  refine only_bind only_request fun r => only_bind (only_op rfl) fun product =>
    only_bind (only_op rfl) fun template => ?_
  cases product with
  | none => exact only_done
  | some product =>
    cases template with
    | none => dsimp only; split <;> exact only_done
    | some template =>
      dsimp only
      split
      · exact only_done
      · split
        · exact only_done
        · split
          · exact only_done
          · split <;> exact only_done

theorem only_selectTarget : selectTarget.Only (InStep .selectTarget) := by
  refine only_bind (inStep_of (only_int _)) fun memory => only_bind (inStep_of (only_int _)) fun disk =>
    only_bind (inStep_of only_request) fun r => ?_
  split
  · exact only_bind (inStep_of only_node) fun _ => only_done
  · exact only_bind (only_perform (Or.inr (Or.inr rfl))) fun _ => only_done

theorem only_reserveVmid : (reserveVmid client).Only (InStep .reserveVmid) := by
  refine only_bind (inStep_of only_request) fun r => only_bind (only_op (Or.inl rfl)) fun _ =>
    only_bind (only_call (Or.inl rfl)) fun guests => only_bind (only_op (Or.inl rfl)) fun localVmids =>
    only_bind (only_op (Or.inl rfl)) fun reserved => ?_
  have take (vmid : Int) : (do
      commit (.targetVmid vmid)
      return [("vmid", .int vmid)] : ProvProg Dict).Only (InStep .reserveVmid) :=
    only_bind (only_perform (Or.inr (Or.inr rfl))) fun _ => only_done
  cases r.targetVmid with
  | some vmid =>
    dsimp only
    split
    · exact only_done
    · exact take vmid
  | none =>
    dsimp only
    split
    · exact only_done
    · exact take _

theorem only_reserveIp (principal : Principal) : (reserveIp principal).Only (InStep .reserveIp) :=
  only_bind (inStep_of (only_ipam _)) fun _ => only_bind (inStep_of only_request) fun _ =>
    only_bind (only_perform (Or.inr (Or.inr rfl))) fun _ =>
    only_bind (only_perform (Or.inr (Or.inr rfl))) fun _ => only_done

theorem only_fullClone (stepId : Uuid) : (fullClone stepId client).Only (InStep .fullClone) := by
  refine only_bind (inStep_of only_node) fun node => only_bind (inStep_of only_vmid) fun vmid =>
    only_bind (inStep_of (only_vmExists _)) fun seen => ?_
  split
  · refine only_bind (only_perform (Or.inl rfl)) fun rows => ?_
    split <;> exact only_done
  · exact only_bind (only_perform (Or.inr (Or.inr rfl))) fun _ =>
      only_bind (inStep_of (only_str _)) fun _ => only_bind (inStep_of (only_int _)) fun _ =>
      only_bind (inStep_of only_request) fun _ => only_bind (inStep_of (only_str _)) fun _ =>
      only_bind (only_call (Or.inr (Or.inr rfl))) fun _ =>
      only_bind (only_perform (Or.inl rfl)) fun _ => only_done

theorem only_waitTask (node upid : String) (n : Nat) :
    (waitTask client node upid n).Only (InStep name) := by
  induction n with
  | zero => exact only_done
  | succ n ih =>
    refine only_bind (only_op (Or.inl rfl)) fun _ => only_bind (only_perform (Or.inr (Or.inl rfl)))
      fun _ => only_bind (only_call (Or.inl rfl)) fun status => ?_
    split
    · exact ih
    · split <;> exact only_done

theorem only_waitClone : (waitClone rt client).Only (InStep .waitClone) := by
  refine only_bind (only_op (Or.inl rfl)) fun found => only_bind only_done fun cloneStep => ?_
  cases cloneStep.pveUpid with
  | some upid =>
    exact only_bind (inStep_of only_node) fun _ => only_bind (only_waitTask _ _ _) fun _ => only_done
  | none =>
    refine only_bind (inStep_of only_vmid) fun _ => only_bind (inStep_of (only_vmExists _)) fun _ => ?_
    split <;> exact only_done

theorem only_configureCompute : (configureCompute client).Only Plain :=
  only_bind only_node fun _ => only_bind only_vmid fun _ => only_bind (only_int _) fun _ =>
    only_bind (only_int _) fun _ => only_bind (only_call rfl) fun _ => only_done

theorem only_resizeDisk : (resizeDisk client).Only Plain :=
  only_bind only_node fun _ => only_bind only_vmid fun _ => only_bind (only_str _) fun _ =>
    only_bind (only_int _) fun _ => only_bind (only_call rfl) fun _ => only_done

theorem only_address : address.Only (InStep .configureNetwork) := by
  refine only_bind (inStep_of only_request) fun r => ?_
  cases r.ipAddressId with
  | none => exact only_done
  | some id => exact only_bind (only_op (Or.inr (Or.inr rfl))) fun _ => only_done

theorem only_configureNetwork :
    (configureNetwork client).Only (InStep .configureNetwork) :=
  only_bind only_address fun _ => only_bind (inStep_of only_request) fun _ =>
    only_bind (only_op (Or.inl rfl)) fun _ => only_bind only_done fun _ =>
    only_bind (inStep_of (only_str _)) fun _ => only_bind (inStep_of only_node) fun _ =>
    only_bind (inStep_of only_vmid) fun _ => only_bind (only_call (Or.inr (Or.inr rfl))) fun _ =>
    only_done

theorem only_configurePassword : (configurePassword rt client).Only (InStep .configureIdentity) :=
  only_bind (inStep_of only_request) fun _ => only_bind only_done fun _ =>
    only_bind (inStep_of only_node) fun _ => only_bind (inStep_of only_vmid) fun _ =>
    only_bind (inStep_of (only_str _)) fun _ => only_bind (only_call (Or.inl rfl)) fun _ =>
    only_bind (only_op (Or.inl rfl)) fun _ => only_bind (only_perform (Or.inr (Or.inr rfl))) fun _ =>
    only_done

theorem only_configureKeys : (configureKeys client).Only Plain := by
  refine only_bind only_request fun r => ?_
  split
  · exact only_bind only_node fun _ => only_bind only_vmid fun _ => only_bind (only_str _) fun _ =>
      only_bind (only_call rfl) fun _ => only_done
  · exact only_done

theorem only_configureIdentity :
    (configureIdentity rt client).Only (InStep .configureIdentity) := by
  refine only_bind (inStep_of only_request) fun r => ?_
  split
  · exact only_configurePassword
  · exact inStep_of only_configureKeys

theorem only_startVm (stepId : Uuid) : (startVm rt stepId client).Only (InStep .startVm) := by
  refine only_bind (inStep_of only_request) fun r => ?_
  split
  · exact only_done
  · refine only_bind (inStep_of only_node) fun _ => only_bind (inStep_of only_vmid) fun _ =>
      only_bind (only_call (Or.inl rfl)) fun current => ?_
    split
    · exact only_done
    · exact only_bind (inStep_of only_vmid) fun _ => only_bind (only_call (Or.inl rfl)) fun _ =>
        only_bind (only_perform (Or.inl rfl)) fun _ => only_bind (inStep_of only_node) fun _ =>
        only_bind (only_waitTask _ _ _) fun _ => only_done

theorem only_verifyStatus : (verifyStatus rt client).Only Plain := by
  refine only_bind only_node fun _ => only_bind only_vmid fun _ => only_bind (only_call rfl)
    fun _ => only_bind only_request fun _ => ?_
  split <;> exact only_done

theorem only_assignOrganization (actor : User) :
    (assignOrganization actor).Only (InStep .assignOrganization) :=
  only_bind (only_perform (Or.inr (Or.inr rfl))) fun _ => only_done

theorem only_confirmIp (principal : Principal) : (confirmIp principal).Only (InStep .confirmIp) := by
  refine only_bind (inStep_of only_request) fun r => ?_
  cases r.workloadId with
  | none => exact only_done
  | some workloadId =>
    exact only_bind (inStep_of (only_ipam _)) fun _ =>
      only_bind (only_perform (Or.inr (Or.inr rfl))) fun _ => only_done

/-- **A step performs its own operations**, plain ones and renewals of the lease. -/
theorem only_executeStep (actor : User) (principal : Principal) (stepId : Uuid) (name : StepName) :
    (executeStep rt actor principal client stepId name).Only (InStep name) := by
  cases name with
  | validateRequest => exact inStep_of only_validateRequest
  | checkProduct => exact inStep_of only_checkProduct
  | selectTarget => exact only_selectTarget
  | reserveVmid => exact only_reserveVmid
  | reserveIp => exact only_reserveIp principal
  | fullClone => exact only_fullClone stepId
  | waitClone => exact only_waitClone
  | configureCompute => exact inStep_of only_configureCompute
  | resizeDisk => exact inStep_of only_resizeDisk
  | configureNetwork => exact only_configureNetwork
  | configureIdentity => exact only_configureIdentity
  | startVm => exact only_startVm stepId
  | verifyStatus => exact inStep_of only_verifyStatus
  | assignOrganization => exact only_assignOrganization actor
  | confirmIp => exact only_confirmIp principal

end Steps

/-! ### Failures and runs -/

section Runs

theorem only_rollback (principal : Option Principal) : (rollback principal).Only Plain :=
  only_bind (only_ipam _) fun _ => only_bind (only_perform rfl) fun _ => only_perform rfl

theorem only_needsReview (principal : Option Principal) (error : AppError) :
    (needsReview principal error).Only Plain := by
  refine only_bind only_request fun r => ?_
  split
  · exact only_done
  · refine only_bind (only_attempt (only_rollback principal)) fun rolled => ?_
    cases rolled with
    | ok _ => exact only_done
    | error e => dsimp only; split <;> exact only_done

theorem only_noteFailure (error : AppError) (stepId : Option Uuid) :
    (noteFailure error stepId).Only Plain := by
  cases stepId with
  | none => exact only_done
  | some id => exact only_bind (only_op rfl) fun _ => only_op rfl

theorem only_settle (principal : Option Principal) (error : AppError) :
    (settle principal error).Only Plain := by
  refine only_bind (only_needsReview _ _) fun manualReview => only_bind only_request fun r =>
    only_bind (only_op rfl) fun _ => only_bind (only_op rfl) fun _ =>
    only_bind (only_perform rfl) fun _ => ?_
  split
  · refine only_bind (only_attempt (only_perform rfl)) fun recorded => ?_
    cases recorded with
    | ok _ => exact only_done
    | error e => dsimp only; split <;> exact only_done
  · exact only_done

theorem only_failRequest (principal : Option Principal) (stepId : Option Uuid) (error : AppError) :
    (failRequest principal stepId error).Only Plain :=
  only_bind (only_noteFailure _ _) fun _ => only_settle _ _

theorem only_openClient (clusterId : Uuid) : (openClient clusterId).Only Plain := by
  refine only_bind (only_op rfl) fun cluster => only_bind (only_op rfl) fun credential => ?_
  cases cluster with
  | none => exact only_done
  | some cluster =>
    cases credential with
    | none => exact only_done
    | some credential =>
      dsimp only
      split
      · exact only_op rfl
      · exact only_done

/-- An operation that is plain, renewing or of a step is ordinary. -/
theorem ordinary_of {α : Type} {p : ProvProg α} (h : p.Only Plain) : p.Only Ordinary :=
  h.mono fun _ ho => ordinary_plain ho

/-- A step that has ended is followed by the rest of the run. The commit in between renews the
lease. -/
theorem only_endStep (principal : Principal) (stepId : Uuid) {next : ProvProg Bool}
    (hnext : next.Only Ordinary) (result : Except Exn Dict) :
    (endStep principal stepId next result).Only Ordinary := by
  cases result with
  | ok result =>
    exact only_bind (only_op (ordinary_plain rfl)) fun _ =>
      only_bind (only_op (ordinary_plain rfl)) fun _ =>
      only_bind (only_perform (ordinary_renewing rfl)) fun _ => hnext
  | error e =>
    unfold endStep
    dsimp only
    split
    · exact only_bind (ordinary_of (only_failRequest _ _ _)) fun _ => only_done
    · split
      · exact only_bind (ordinary_of (only_failRequest _ _ _)) fun _ => only_done
      · exact only_done

/-- All steps, from whichever the run goes on with. -/
theorem only_runSteps (actor : User) (principal : Principal) (steps : List ProvisioningStep) :
    (runSteps rt actor principal client steps).Only Ordinary := by
  induction steps with
  | nil => exact only_done
  | cons step rest ih =>
    refine only_bind (only_perform (ordinary_plain rfl)) fun session => ?_
    split
    · exact ih
    · exact only_bind (only_op (ordinary_plain rfl)) fun _ =>
        only_bind (only_op (ordinary_plain rfl)) fun _ =>
        only_bind (only_perform (ordinary_renewing rfl)) fun _ =>
        only_bind (only_attempt ((only_executeStep _ _ _ _).mono fun _ => inStep_ordinary))
          fun _ => only_endStep principal step.id ih _

theorem only_runAuthorized (actor : User) (clusterId : Uuid) :
    (runAuthorized rt actor clusterId).Only Ordinary := by
  refine only_bind (ordinary_of (only_openClient clusterId)) fun client =>
    only_bind (only_op (ordinary_plain rfl)) fun steps =>
    only_bind (only_runSteps actor _ steps) fun ended => ?_
  split
  · exact only_bind (ordinary_of only_request) fun _ => only_bind (only_op (ordinary_plain rfl)) fun _ =>
      only_perform (ordinary_plain rfl)
  · exact only_done

theorem only_releaseClaim : releaseClaim.Only Plain :=
  only_bind only_request fun _ => only_op rfl

/-- What a run does once it has its request: ordinary operations, or plain ones after the
refusal of the requester. -/
theorem onlyUntil_runLoaded :
    (always (runClaimed rt) releaseClaim).OnlyUntil Ordinary Revoking Plain := by
  refine onlyUntil_andThen ?_ (fun r => ?_) (fun r => ?_)
  · refine onlyUntil_bind (ordinary_of only_request) fun r =>
      onlyUntil_bind (only_op (ordinary_plain rfl)) fun user => ?_
    cases authorized user with
    | none => exact Or.inr ⟨rfl, fun _ => only_failRequest none none permissionRevoked⟩
    | some actor => exact (only_runAuthorized actor _).until
  · refine (ordinary_of (only_andThen only_releaseClaim fun l => ?_)).until
    cases l <;> exact only_done
  · refine only_andThen only_releaseClaim fun l => ?_
    cases l <;> exact only_done

end Runs

end ProvisioningRunner
end PveMaster
