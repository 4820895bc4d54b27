import PveMaster.Foundation.Table
import PveMaster.Ipam.Address
import Mathlib.Data.Fintype.Basic

/-! Products, templates, nodes, and the requests a provisioning run works off
step by step. -/
namespace PveMaster

abbrev Bytes := List UInt8

/-- The values of `provisioning_requests.status`. -/
inductive ProvisioningStatus where
  | queued
  | running
  | succeeded
  | failed
  | manualReview
  deriving DecidableEq, Repr

/-- Whether a request is never worked on again. `MANUAL_REVIEW` is such a status too: a guest was
made, and what has become of it is for an operator to find out. -/
def ProvisioningStatus.terminal : ProvisioningStatus → Bool
  | .succeeded | .failed | .manualReview => true
  | .queued | .running => false

inductive ProvisioningStepStatus where
  | pending
  | running
  | succeeded
  | failed
  deriving DecidableEq, Repr

inductive TemplateOsType where
  | linux
  | windows
  deriving DecidableEq, Repr

/-- The name stored in a template's `os_type` and in the snapshot of it a request keeps. -/
def TemplateOsType.value : TemplateOsType → String
  | .linux => "LINUX"
  | .windows => "WINDOWS"

/-- The names of `PROVISIONING_STEPS`, in their order. -/
inductive StepName where
  | validateRequest
  | checkProduct
  | selectTarget
  | reserveVmid
  | reserveIp
  | fullClone
  | waitClone
  | configureCompute
  | resizeDisk
  | configureNetwork
  | configureIdentity
  | startVm
  | verifyStatus
  | assignOrganization
  | confirmIp
  deriving DecidableEq, Repr

/-- `PROVISIONING_STEPS`: what the runner does for a request, one after the other. A step that has
succeeded is not done again when the request is taken up anew. -/
def provisioningSteps : List StepName :=
  [.validateRequest, .checkProduct, .selectTarget, .reserveVmid, .reserveIp, .fullClone,
    .waitClone, .configureCompute, .resizeDisk, .configureNetwork, .configureIdentity, .startVm,
    .verifyStatus, .assignOrganization, .confirmIp]

/-- The values of `provisioning_requests.current_step`: a step, or the text that stands there at
the end. -/
inductive CurrentStep where
  | step (name : StepName)
  | completed
  deriving DecidableEq, Repr

structure Product where
  id : Uuid
  cpuCores : Int
  memoryBytes : Int
  diskBytes : Int
  isEnabled : Bool
  deriving DecidableEq

structure Template where
  id : Uuid
  sourceWorkloadId : Uuid
  sourceDisk : String
  defaultStorage : String
  defaultBridge : String
  defaultVlanTag : Option Int
  cloudInitEnabled : Bool
  osType : TemplateOsType
  isEnabled : Bool
  deriving DecidableEq

/-- A row of `provisioning_nodes`: a node guests may be made on, and what is left of its memory
and storage by the platform's own account. -/
structure ProvisioningNode where
  id : Uuid
  clusterId : Uuid
  name : String
  isEnabled : Bool
  isMaintenance : Bool
  availableMemoryBytes : Int
  availableStorageBytes : Int
  lastSelectedAt : Option Instant
  deriving DecidableEq

/-- A row of `provisioning_requests`: the order, a snapshot of the product and template it was
accepted with, what has been reserved for it so far, and the lease of the runner that works on it.
-/
structure ProvisioningRequest where
  id : Uuid
  requestedById : Uuid
  idempotencyKeyHash : Digest
  requestFingerprint : Digest
  productId : Uuid
  templateId : Uuid
  organizationId : Uuid
  targetClusterId : Uuid
  targetNodeId : Option Uuid
  targetVmid : Option Int
  targetName : String
  ipPoolId : Uuid
  requestedIpAddress : Option Address
  ipAddressId : Option Uuid
  workloadId : Option Uuid
  status : ProvisioningStatus
  currentStep : CurrentStep
  specSnapshot : Dict
  initialPasswordCiphertext : Option Bytes
  initialPasswordNonce : Option Bytes
  initialPasswordKeyVersion : Option String
  initialPasswordClearedAt : Option Instant
  celeryTaskId : String
  cloneSubmitted : Bool
  errorCode : Option String
  errorSummary : Option String
  startedAt : Option Instant
  finishedAt : Option Instant
  heartbeatAt : Option Instant
  runnerId : Option Uuid
  leaseExpiresAt : Option Instant
  version : Nat
  deriving DecidableEq

/-- A row of `provisioning_steps`: one step of a request, with the result the runner keeps of it
for the steps behind. -/
structure ProvisioningStep where
  id : Uuid
  provisioningRequestId : Uuid
  stepOrder : Nat
  stepName : StepName
  status : ProvisioningStepStatus
  attemptCount : Nat
  pveUpid : Option String
  safeResult : Dict
  errorCode : Option String
  errorSummary : Option String
  startedAt : Option Instant
  finishedAt : Option Instant
  deriving DecidableEq

instance : Keyed Product Uuid := ⟨Product.id⟩
instance : Keyed Template Uuid := ⟨Template.id⟩
instance : Keyed ProvisioningNode Uuid := ⟨ProvisioningNode.id⟩
instance : Keyed ProvisioningRequest Uuid := ⟨ProvisioningRequest.id⟩
instance : Keyed ProvisioningStep Uuid := ⟨ProvisioningStep.id⟩

/-- `uq_provisioning_active_vmid`: among the requests of a cluster that have not failed, no two
take the same VMID (`status IN ('QUEUED','RUNNING','SUCCEEDED','MANUAL_REVIEW')`). -/
def UqProvisioningActiveVmid (t : Table ProvisioningRequest) : Prop :=
  ∀ r ∈ t.rows, ∀ q ∈ t.rows, r.status ≠ .failed → q.status ≠ .failed → r.targetVmid ≠ none →
    r.targetClusterId = q.targetClusterId → r.targetVmid = q.targetVmid → r.id = q.id

instance (t : Table ProvisioningRequest) : Decidable (UqProvisioningActiveVmid t) := by
  unfold UqProvisioningActiveVmid; infer_instance

end PveMaster
