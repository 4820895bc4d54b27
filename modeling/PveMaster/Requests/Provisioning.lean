import PveMaster.Requests.Operations

/-! `ProvisioningService.create_request`.

The request is one commit: the row, a step for each of `PROVISIONING_STEPS` and the audit event.
Before it the product, the template, the organization, the cluster, the pool and the workload the
template was made of are read and tested against each other (`checkReferences`), without a lock;
the specification that the runner will work from is copied from them (`specSnapshot`). A key that
was used before with the same payload leads to the request it led to. -/
namespace PveMaster.ProvisioningService
open Prog ServiceProg

variable (rt : Runtime) (api : Api) (principal : Principal)

/-- `ProvisioningRequestCreate`, with what its bounds admit as fields. -/
structure RequestCreate where
  productId : Uuid
  templateId : Uuid
  organizationId : Uuid
  targetClusterId : Uuid
  targetNodeId : Option Uuid
  targetVmid : Option Int
  targetName : String
  ipPoolId : Uuid
  ipAddress : Option Address
  username : String
  sshPublicKeys : List String
  startAfterCreate : Bool
  vmid : ∀ v, targetVmid = some v → 100 ≤ v ∧ v ≤ 999999999
  ipv4 : ∀ a, ipAddress = some a → a.version = .v4

/-! ### The fingerprint -/

/-- The text of what may be left out. -/
def optionText {α : Type} (text : α → List Char) : Option α → List Char
  | none => "null".toList
  | some a => text a

/-- An identifier within the text of the payload. -/
def uuidText (u : Uuid) : List Char := JsonText.string (String.ofList (Text.uuid u))

/-- `json.dumps(payload.model_dump(mode="json"), sort_keys=True, separators=(",", ":"))`. -/
def payloadText (p : RequestCreate) : List Char :=
  JsonText.object [','] [':']
    [("cloud_init", JsonText.object [','] [':']
        [("ssh_public_keys", JsonText.value [','] (.strs p.sshPublicKeys)),
          ("username", JsonText.string p.username)]),
      ("ip_address", optionText (fun a => JsonText.string a.inet.text) p.ipAddress),
      ("ip_pool_id", uuidText p.ipPoolId),
      ("organization_id", uuidText p.organizationId),
      ("product_id", uuidText p.productId),
      ("start_after_create", JsonText.value [','] (.bool p.startAfterCreate)),
      ("target_cluster_id", uuidText p.targetClusterId),
      ("target_name", JsonText.string p.targetName),
      ("target_node_id", optionText uuidText p.targetNodeId),
      ("target_vmid", optionText Text.integer p.targetVmid),
      ("template_id", uuidText p.templateId)]

/-! ### Validation -/

/-- The refusals of `_validate_references`, all of them 422. -/
def unavailable (code message : String) : Exn := .app ⟨422, code, message, []⟩

/-- `re.fullmatch(r"[a-z_][a-z0-9_-]{0,31}", username)`. -/
def linuxUsername (username : String) : Bool :=
  match username.toList with
  | [] => false
  | c :: rest =>
    (c.isLower || c == '_') && rest.length ≤ 31 &&
      rest.all (fun d => d.isLower || d.isDigit || d == '_' || d == '-')

/-- What `_validate_references` returns. -/
structure References where
  product : Product
  template : Template
  source : Workload
  pool : IpPool

/-- The tests of `_validate_references`, in their order. The first that fails decides the code of
the answer. -/
def checkReferences (p : RequestCreate) (product : Option Product) (template : Option Template)
    (organization : Option Organization) (cluster : Option Cluster) (pool : Option IpPool)
    (source : Option Workload) : Except Exn References := do
  let product ← orRaise (product.filter (·.isEnabled))
    (unavailable "PRODUCT_UNAVAILABLE" "The product is unavailable.")
  let template ← orRaise (template.filter (fun t => t.isEnabled && t.cloudInitEnabled))
    (unavailable "TEMPLATE_UNAVAILABLE" "The QEMU template is unavailable.")
  let source ← orRaise (source.filter (fun s => s.kind == .qemu && s.isTemplate && s.isPresent))
    (unavailable "TEMPLATE_UNAVAILABLE" "The QEMU template is unavailable.")
  raiseIf (template.osType = .linux ∧ linuxUsername p.username = false)
    (unavailable "LINUX_USERNAME_INVALID" "The Linux Cloud-Init username is invalid.")
  raiseIf (template.osType = .linux ∧ p.sshPublicKeys = [])
    (unavailable "SSH_KEYS_REQUIRED" "At least one SSH public key is required for Linux Cloud-Init.")
  let cluster ← orRaise (cluster.filter (fun c => c.isActive && source.clusterId == c.id))
    (unavailable "CLUSTER_INCOMPATIBLE" "The target cluster is incompatible.")
  discard (orRaise (organization.filter (·.isActive))
    (unavailable "ORGANIZATION_UNAVAILABLE" "The organization is unavailable."))
  let pool ← orRaise (pool.filter (fun pool => pool.isActive && pool.ipFamily == .v4 &&
      (pool.clusterId == none || pool.clusterId == some cluster.id)))
    (unavailable "IP_POOL_INCOMPATIBLE" "A compatible IPv4 pool is required.")
  match p.ipAddress with
  | some a =>
    raiseIf (pool.cidr.contains a = false)
      (unavailable "IP_OUTSIDE_POOL" "The requested IPv4 address is outside the pool.")
  | none => pure ()
  return ⟨product, template, source, pool⟩

/-- `_validate_references`: six reads, and the tests on what they have found. -/
def validateReferences (p : RequestCreate) : ServiceProg References := do
  let product ← query (·.products.get? p.productId)
  let template ← query (·.templates.get? p.templateId)
  let organization ← query (·.organizations.get? p.organizationId)
  let cluster ← query (·.clusters.get? p.targetClusterId)
  let pool ← query (·.ipam.pools.get? p.ipPoolId)
  let source ← query (fun db => template.bind (fun t => db.workloads.get? t.sourceWorkloadId))
  ofExcept (checkReferences p product template organization cluster pool source)

/-- `_validate_node`: enabled, not in maintenance, and with room for the product as its row has it
at that moment. The room is not reserved; the runner does that, and may find less. -/
def validateNode (nodeId clusterId : Uuid) (product : Product) : ServiceProg Unit := do
  let node ← query (·.nodes.get? nodeId)
  discard (ofExcept (orRaise (node.filter (fun n => n.clusterId == clusterId && n.isEnabled &&
      !n.isMaintenance && product.memoryBytes ≤ n.availableMemoryBytes &&
      product.diskBytes ≤ n.availableStorageBytes))
    (unavailable "NO_ELIGIBLE_NODE" "No eligible node has sufficient capacity.")))

/-- `_validate_node`, of a request that names one. -/
def validateTarget (p : RequestCreate) (product : Product) : ServiceProg Unit :=
  match p.targetNodeId with
  | some nodeId => validateNode nodeId p.targetClusterId product
  | none => pure ()

/-! ### The request -/

/-- `spec_snapshot`. From here on the product, the template and the pool may change without the
request. -/
def specSnapshot (p : RequestCreate) (refs : References) : Dict :=
  [("cpu_cores", .int refs.product.cpuCores), ("memory_bytes", .int refs.product.memoryBytes),
    ("disk_bytes", .int refs.product.diskBytes), ("storage", .str refs.template.defaultStorage),
    ("bridge", .str refs.template.defaultBridge),
    ("vlan_tag", (refs.template.defaultVlanTag.map Json.int).getD .null),
    ("cloud_init_username", .str p.username), ("ssh_public_keys", .strs p.sshPublicKeys),
    ("start_after_create", .bool p.startAfterCreate), ("source_node", .str refs.source.node),
    ("source_vmid", .int refs.source.vmid), ("source_disk", .str refs.template.sourceDisk),
    ("os_type", .str refs.template.osType.value)]

/-- The row as it is inserted, with the password of a Windows guest encrypted if there is one. -/
def queuedRequest (id : Uuid) (taskId : String) (keyHash fingerprint : Digest) (p : RequestCreate)
    (refs : References) (password : Option (Bytes × Bytes × String)) : ProvisioningRequest where
  id := id
  requestedById := principal.userId
  idempotencyKeyHash := keyHash
  requestFingerprint := fingerprint
  productId := refs.product.id
  templateId := refs.template.id
  organizationId := p.organizationId
  targetClusterId := p.targetClusterId
  targetNodeId := p.targetNodeId
  targetVmid := p.targetVmid
  targetName := rt.lower p.targetName
  ipPoolId := refs.pool.id
  requestedIpAddress := p.ipAddress
  ipAddressId := none
  workloadId := none
  status := .queued
  currentStep := .step .validateRequest
  specSnapshot := specSnapshot p refs
  initialPasswordCiphertext := password.map (·.1)
  initialPasswordNonce := password.map (·.2.1)
  initialPasswordKeyVersion := password.map (·.2.2)
  initialPasswordClearedAt := none
  celeryTaskId := taskId
  cloneSubmitted := false
  errorCode := none
  errorSummary := none
  startedAt := none
  finishedAt := none
  heartbeatAt := none
  runnerId := none
  leaseExpiresAt := none
  version := 1

/-- A step as `create_request` adds it. -/
def pendingStep (requestId : Uuid) (id : Uuid) (order : Nat) (name : StepName) : ProvisioningStep where
  id := id
  provisioningRequestId := requestId
  stepOrder := order
  stepName := name
  status := .pending
  attemptCount := 0
  pveUpid := none
  safeResult := []
  errorCode := none
  errorSummary := none
  startedAt := none
  finishedAt := none

/-- The steps, in the order of `PROVISIONING_STEPS` from 1, with the identifiers drawn for them. -/
def pendingSteps (requestId : Uuid) (ids : Nat → Uuid) : List ProvisioningStep :=
  (provisioningSteps.zipIdx 1).map fun s => pendingStep requestId (ids s.2) s.2 s.1

def requestAudit (r : ProvisioningRequest) : AuditLog where
  action := "VM_PROVISION_REQUEST"
  outcome := .attempted
  actorUserId := some principal.userId
  actorRole := some principal.role
  organizationId := some r.organizationId
  workloadId := none
  operationId := none
  pveUpid := none
  resourceType := "provisioning_request"
  resourceId := some r.id
  errorCode := none

/-- `create_request`, up to the job it answers with. -/
def createRequest (p : RequestCreate) (idempotencyKey : String) : ServiceProg JobAnswer := do
  ofExcept (requireServiceRole principal [.superAdmin])
  let keyHash := api.keyHash idempotencyKey
  let fingerprint := api.sha256 (payloadText p)
  match ← op (.lookupRequest principal.userId keyHash id) with
  | some existing =>
    if existing.requestFingerprint ≠ fingerprint then
      raise (.app (keyReused "The idempotency key was already used for another request."))
    else return ⟨existing.id, false⟩
  | none => do
    let refs ← validateReferences p
    validateTarget p refs.product
    let taskId ← uuid4
    let requestId ← uuid4
    let draws ← op (.random id)
    let password := if refs.template.osType = .windows then
      some (api.encryptPassword draws p.targetClusterId requestId) else none
    let request := queuedRequest rt principal requestId (String.ofList (Text.uuid taskId)) keyHash
      fingerprint p refs password
    let ids ← op (.uuid4s id)
    match ← op (.create request (pendingSteps requestId ids) (requestAudit principal request) id) with
    | .ok () => return ⟨requestId, true⟩
    | .error (.database e) => raise e
    | .error _ =>
      raise (.appFrom ⟨409, "PROVISIONING_REQUEST_CONFLICT",
        "The provisioning request conflicts with an existing reservation.", []⟩)

end PveMaster.ProvisioningService
