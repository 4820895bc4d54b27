import PveMaster.Provisioning.Effects

/-! What the programs of the runner assign themselves.

A node is reserved and released, and a workload recorded, by the transactions that do so; what the
programs assign besides is listed here, the success of a step and of the request apart. An
invariant about capacity or workloads then need not be followed through the fifteen steps: an
assignment that is calm touches neither, and every program of a step makes calm assignments only. -/
namespace PveMaster

/-- The assignments made in the course of a step, or after its failure. -/
def ProvEdit.calm : ProvEdit → Bool
  | .nothing | .stepSucceeded .. | .nodeReserved _ | .workload _ | .capacityReleased | .completed _ => false
  | _ => true

/-- The operations of a run that has its request, with no other assignment. -/
def ProvOp.calm {ρ : Type} : ProvOp ρ → Bool
  | .assign e | .commit e _ => e.calm
  | .load => false
  | _ => true

/-- An operation of a run that has loaded its request, and assigns nothing that an account of a
node or of a workload rests on. -/
def Calm {ρ : Type} (o : ProvOp ρ) : Prop := o.calm = true

namespace ProvisioningRunner
open Prog ProvProg

section Programs
variable {rt : Runtime} {client : Except AppError Unit}

theorem calm_request : ProvProg.request.Only Calm := only_bind (only_perform rfl) fun _ => only_done

theorem calm_node : node.Only Calm := by
  apply only_bind calm_request
  intro r
  cases r.targetNodeId with
  | none => exact only_done
  | some id => exact only_bind (only_op rfl) fun _ => only_done

theorem calm_vmid : vmid.Only Calm := only_bind calm_request fun _ => only_done
theorem calm_int (key : String) : (int key).Only Calm := only_bind calm_request fun _ => only_done
theorem calm_str (key : String) : (str key).Only Calm := only_bind calm_request fun _ => only_done

theorem calm_ipam (principal : Option Principal) : (ipam principal).Only Calm :=
  only_bind only_done fun _ => only_done

theorem calm_call (r : Request) : (ProvProg.call client r).Only Calm := by
  cases client with
  | ok _ => exact only_perform rfl
  | error e => exact only_done

theorem calm_vmExists (vmid : Int) : (vmExists client vmid).Only Calm :=
  only_bind (calm_call _) fun _ => only_done

/-- Waiting for a task of Proxmox touches the lease and reads, however often it has to ask. -/
theorem calm_waitTask (node upid : String) (n : Nat) : (waitTask client node upid n).Only Calm := by
  induction n with
  | zero => exact only_done
  | succ n ih =>
    apply only_bind (only_op rfl)
    intro touched
    apply only_bind (only_perform rfl)
    intro _
    apply only_bind (calm_call _)
    intro status
    split
    · exact ih
    · split <;> exact only_done

theorem calm_address : address.Only Calm := by
  apply only_bind calm_request
  intro r
  cases r.ipAddressId with
  | none => exact only_done
  | some id => exact only_bind (only_op rfl) fun _ => only_done

theorem calm_validateRequest : validateRequest.Only Calm := by
  refine only_bind calm_request fun r => only_bind (only_op rfl) fun organization =>
    only_bind (only_op rfl) fun cluster => ?_
  split
  · exact only_done
  · split <;> exact only_done

theorem calm_checkProduct : checkProduct.Only Calm := by
  refine only_bind calm_request fun r => only_bind (only_op rfl) fun product =>
    only_bind (only_op rfl) fun template => ?_
  repeat' split
  all_goals exact only_done

theorem calm_selectTarget : selectTarget.Only Calm := by
  refine only_bind (calm_int _) fun memory => only_bind (calm_int _) fun disk =>
    only_bind calm_request fun r => ?_
  split
  · exact only_bind calm_node fun _ => only_done
  · exact only_bind (only_perform rfl) fun _ => only_done

theorem calm_reserveVmid : (reserveVmid client).Only Calm := by
  refine only_bind calm_request fun r => only_bind (only_op rfl) fun _ =>
    only_bind (calm_call _) fun guests => only_bind (only_op rfl) fun localVmids =>
    only_bind (only_op rfl) fun reserved => ?_
  dsimp only
  repeat' split
  · exact only_done
  · exact only_bind (only_perform rfl) fun _ => only_done
  · exact only_done
  · exact only_bind (only_perform rfl) fun _ => only_done

theorem calm_reserveIp (principal : Principal) : (reserveIp principal).Only Calm :=
  only_bind (calm_ipam _) fun _ => only_bind calm_request fun _ => only_bind (only_perform rfl)
    fun _ => only_bind (only_perform rfl) fun _ => only_done

theorem calm_fullClone (stepId : Uuid) : (fullClone stepId client).Only Calm := by
  refine only_bind calm_node fun node => only_bind calm_vmid fun vmid =>
    only_bind (calm_vmExists _) fun seen => ?_
  split
  · apply only_bind (only_perform rfl)
    intro rows
    split <;> exact only_done
  · exact only_bind (only_perform rfl) fun _ => only_bind (calm_str _) fun _ =>
      only_bind (calm_int _) fun _ => only_bind calm_request fun _ => only_bind (calm_str _) fun _ =>
      only_bind (calm_call _) fun _ => only_bind (only_perform rfl) fun _ => only_done

theorem calm_waitClone : (waitClone rt client).Only Calm := by
  refine only_bind (only_op rfl) fun found => only_bind only_done fun cloneStep => ?_
  cases cloneStep.pveUpid with
  | some upid => exact only_bind calm_node fun _ => only_bind (calm_waitTask _ _ _) fun _ => only_done
  | none =>
    refine only_bind calm_vmid fun _ => only_bind (calm_vmExists _) fun _ => ?_
    split <;> exact only_done

theorem calm_configureCompute : (configureCompute client).Only Calm :=
  only_bind calm_node fun _ => only_bind calm_vmid fun _ => only_bind (calm_int _) fun _ =>
    only_bind (calm_int _) fun _ => only_bind (calm_call _) fun _ => only_done

theorem calm_resizeDisk : (resizeDisk client).Only Calm :=
  only_bind calm_node fun _ => only_bind calm_vmid fun _ => only_bind (calm_str _) fun _ =>
    only_bind (calm_int _) fun _ => only_bind (calm_call _) fun _ => only_done

theorem calm_configureNetwork : (configureNetwork client).Only Calm :=
  only_bind calm_address fun _ => only_bind calm_request fun _ => only_bind (only_op rfl) fun _ =>
    only_bind only_done fun _ => only_bind (calm_str _) fun _ => only_bind calm_node fun _ =>
    only_bind calm_vmid fun _ => only_bind (calm_call _) fun _ => only_done

theorem calm_configureKeys : (configureKeys client).Only Calm := by
  apply only_bind calm_request
  intro r
  split
  · exact only_bind calm_node fun _ => only_bind calm_vmid fun _ => only_bind (calm_str _) fun _ =>
      only_bind (calm_call _) fun _ => only_done
  · exact only_done

theorem calm_startVm (stepId : Uuid) : (startVm rt stepId client).Only Calm := by
  apply only_bind calm_request
  intro r
  split
  · exact only_done
  · refine only_bind calm_node fun _ => only_bind calm_vmid fun _ => only_bind (calm_call _)
      fun current => ?_
    split
    · exact only_done
    · exact only_bind calm_vmid fun _ => only_bind (calm_call _) fun _ =>
        only_bind (only_perform rfl) fun _ => only_bind calm_node fun _ =>
        only_bind (calm_waitTask _ _ _) fun _ => only_done

theorem calm_verifyStatus : (verifyStatus rt client).Only Calm := by
  refine only_bind calm_node fun _ => only_bind calm_vmid fun _ => only_bind (calm_call _)
    fun _ => only_bind calm_request fun _ => ?_
  split <;> exact only_done

theorem calm_assignOrganization (actor : User) : (assignOrganization actor).Only Calm :=
  only_bind (only_perform rfl) fun _ => only_done

theorem calm_confirmIp (principal : Principal) : (confirmIp principal).Only Calm := by
  apply only_bind calm_request
  intro r
  cases r.workloadId with
  | none => exact only_done
  | some workloadId =>
    exact only_bind (calm_ipam _) fun _ => only_bind (only_perform rfl) fun _ => only_done

theorem calm_configureIdentity : (configureIdentity rt client).Only Calm := by
  apply only_bind calm_request
  intro r
  split
  · exact only_bind calm_request fun _ => only_bind only_done fun _ => only_bind calm_node fun _ =>
      only_bind calm_vmid fun _ => only_bind (calm_str _) fun _ => only_bind (calm_call _) fun _ =>
      only_bind (only_op rfl) fun _ => only_bind (only_perform rfl) fun _ => only_done
  · exact calm_configureKeys

/-- **Every step is calm.** -/
theorem calm_executeStep (actor : User) (principal : Principal) (stepId : Uuid) (name : StepName) :
    (executeStep rt actor principal client stepId name).Only Calm := by
  cases name with
  | validateRequest => exact calm_validateRequest
  | checkProduct => exact calm_checkProduct
  | selectTarget => exact calm_selectTarget
  | reserveVmid => exact calm_reserveVmid
  | reserveIp => exact calm_reserveIp principal
  | fullClone => exact calm_fullClone stepId
  | waitClone => exact calm_waitClone
  | configureCompute => exact calm_configureCompute
  | resizeDisk => exact calm_resizeDisk
  | configureNetwork => exact calm_configureNetwork
  | configureIdentity => exact calm_configureIdentity
  | startVm => exact calm_startVm stepId
  | verifyStatus => exact calm_verifyStatus
  | assignOrganization => exact calm_assignOrganization actor
  | confirmIp => exact calm_confirmIp principal

theorem calm_rollback (principal : Option Principal) : (rollback principal).Only Calm :=
  only_bind (calm_ipam _) fun _ => only_bind (only_perform rfl) fun _ => only_perform rfl

theorem calm_needsReview (principal : Option Principal) (error : AppError) :
    (needsReview principal error).Only Calm := by
  apply only_bind calm_request
  intro r
  split
  · exact only_done
  · refine only_bind (only_attempt (calm_rollback principal)) fun rolled => ?_
    repeat' split
    all_goals exact only_done

/-- Nor does a failure assign anything else: the node is released by an operation of its own. -/
theorem calm_failRequest (principal : Option Principal) (stepId : Option Uuid) (error : AppError) :
    (failRequest principal stepId error).Only Calm := by
  refine only_bind ?_ fun _ => only_bind (calm_needsReview _ _) fun manualReview =>
    only_bind calm_request fun r => only_bind (only_op rfl) fun _ => only_bind (only_op rfl) fun _ =>
    only_bind (only_perform rfl) fun _ => ?_
  · cases stepId with
    | none => exact only_done
    | some id => exact only_bind (only_op rfl) fun _ => only_op rfl
  · split
    · refine only_bind (only_attempt (only_perform rfl)) fun recorded => ?_
      repeat' split
      all_goals exact only_done
    · exact only_done

theorem calm_openClient (clusterId : Uuid) : (openClient clusterId).Only Calm := by
  refine only_bind (only_op rfl) fun cluster => only_bind (only_op rfl) fun credential => ?_
  repeat' split
  all_goals first | exact only_op rfl | exact only_done

theorem calm_releaseClaim : releaseClaim.Only Calm :=
  only_bind calm_request fun _ => only_op rfl

end Programs
end ProvisioningRunner
end PveMaster
