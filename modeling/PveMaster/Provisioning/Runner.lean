import PveMaster.Provisioning.Session

/-! `ProvisioningRunner`: the fifteen steps, and what follows a failure of one.

A step that has succeeded is not done again when the request is taken up anew; one that was
interrupted is, so each step looks for what it may have done already. What a step returns is kept
in its row. An `AppError` ends the request: it has failed, its address and its capacity are given
back, unless a guest may have been cloned for it, which only an operator can tell (`settle`). -/
namespace PveMaster

/-- The program of the provisioning runner. -/
abbrev ProvProg (α : Type) := Prog Exn ProvOp α

namespace ProvProg
open Prog

def now : ProvProg Instant := op .now
def commit (e : ProvEdit) (audit : List AuditLog := []) : ProvProg Unit := perform (.commit e audit)
def rows : ProvProg ProvRows := perform .rows

/-- A read of the request, which raises after a rollback. -/
def request : ProvProg ProvisioningRequest := do
  ofExcept (orRaise (← rows).request .attributeError)

/-- A call through a client, or through the one that raises its error each time. -/
def call (client : Except AppError Unit) (r : Request) : ProvProg (Reply r) :=
  match client with
  | .ok () => perform (.call r)
  | .error e => raise (.app e)

end ProvProg

namespace ProvisioningRunner
open Prog ProvProg

variable (rt : Runtime)

def vmidOwnershipConflict (message : String) : Exn :=
  .app ⟨409, "VMID_OWNERSHIP_CONFLICT", message, []⟩

def app {α : Type} (statusCode : Nat) (code message : String) : ProvProg α :=
  raise (.app ⟨statusCode, code, message, []⟩)

/-- `_node`. -/
def node : ProvProg ProvisioningNode := do
  let r ← request
  match r.targetNodeId with
  | none => raise targetNodeMissing
  | some id => do
    ofExcept (orRaise (← op (.getNode id)) targetNodeMissing)

/-- `_vmid`. -/
def vmid : ProvProg Int := do ofExcept (vmidOf (← request))

/-- `_int_spec` of the request the session holds. -/
def int (key : String) : ProvProg Int := do ofExcept (intSpec (← request) key)

/-- `_str_spec` of the request the session holds. -/
def str (key : String) : ProvProg String := do ofExcept (strSpec (← request) key)

/-- `_ipam`: `self._principal` is set once the requester is known to be authorized. -/
def ipam (principal : Option Principal) : ProvProg IpamService := do
  let principal ← ofExcept (orRaise principal .attributeError)
  ofExcept (IpamService.create principal)

/-- `_vm_exists`: the cluster lists a guest of this number, whoever made it. -/
def vmExists (client : Except AppError Unit) (vmid : Int) : ProvProg Bool := do
  let guests : List Dict ← call client .getGuests
  return guests.any (fun item => (item.get? "vmid").any (·.isInt vmid))

/-- `_wait_task`, with `n` polls left. The lease is renewed before every poll. -/
def waitTask (client : Except AppError Unit) (node upid : String) : Nat → ProvProg Unit
  | 0 => app 504 "PVE_TASK_TIMEOUT" "The Proxmox task timed out."
  | n + 1 => do
    let touched ← now
    commit (.leaseTouched touched)
    let status : Dict ← call client (.getTaskStatus node upid)
    if status.get? "status" = some (.str "running") then waitTask client node upid n
    else if status.get? "status" = some (.str "stopped") ∧
        status.get? "exitstatus" = some (.str "OK") then return ()
    else app 502 "PVE_TASK_FAILED" "The Proxmox task failed."

/-! ### The steps -/

/-- `_validate_request`: the organization and the cluster are still active. -/
def validateRequest : ProvProg Dict := do
  let r ← request
  let organization ← op (.getOrganization r.organizationId)
  let cluster ← op (.getCluster r.targetClusterId)
  if (organization.map Organization.isActive).getD false = false then
    app 409 "ORGANIZATION_UNAVAILABLE" "The organization is unavailable."
  else if (cluster.map Cluster.isActive).getD false = false then
    app 409 "CLUSTER_UNAVAILABLE" "The cluster is unavailable."
  else return [("validated", .bool true)]

/-- The comparison of `_check_product` with the saved specification: the product must still be
what was ordered. -/
def sameSpec (spec : Dict) (p : Product) : Bool :=
  (spec.get? "cpu_cores").bind Json.asInt? == some p.cpuCores &&
    (spec.get? "memory_bytes").bind Json.asInt? == some p.memoryBytes &&
    (spec.get? "disk_bytes").bind Json.asInt? == some p.diskBytes

/-- `_check_product`: the product and the template are still offered, and unchanged where it
matters. -/
def checkProduct : ProvProg Dict := do
  let r ← request
  let product ← op (.getProduct r.productId)
  let template ← op (.getTemplate r.templateId)
  match product, template with
  | some product, some template =>
    if !product.isEnabled then app 409 "PRODUCT_UNAVAILABLE" "The product is unavailable."
    else if !template.isEnabled || !template.cloudInitEnabled then
      app 409 "TEMPLATE_UNAVAILABLE" "The QEMU template is unavailable."
    else if r.specSnapshot.get? "os_type" ≠ some (.str template.osType.value) then
      app 409 "TEMPLATE_OS_TYPE_CHANGED" "The template operating system type changed."
    else if !sameSpec r.specSnapshot product then
      app 409 "PRODUCT_SPEC_CHANGED" "The product specification changed."
    else return [("product_id", .int product.id)]
  | some product, none =>
    if !product.isEnabled then app 409 "PRODUCT_UNAVAILABLE" "The product is unavailable."
    else app 409 "TEMPLATE_UNAVAILABLE" "The QEMU template is unavailable."
  | none, _ => app 409 "PRODUCT_UNAVAILABLE" "The product is unavailable."

/-- `_select_target`: a request that has its capacity already keeps its node. -/
def selectTarget : ProvProg Dict := do
  let memory ← int "memory_bytes"
  let disk ← int "disk_bytes"
  let r ← request
  if r.capacityReserved then do
    let resumed ← node
    return [("node", .str resumed.name), ("resumed", .bool true)]
  else do
    let node ← perform (.selectTarget memory disk)
    return [("node", .str node.name)]

/-- The least candidate from `first` on, among `n`, that is not taken. -/
def freeVmid (taken : List Int) (first : Int) : Nat → Option Int
  | 0 => none
  | n + 1 => if taken.contains first then freeVmid taken (first + 1) n else some first

/-- `_reserve_vmid`: the number is free in the cluster and asked for by no other request, under an
advisory lock of the cluster. -/
def reserveVmid (client : Except AppError Unit) : ProvProg Dict := do
  let r ← request
  op (.lock (r.targetClusterId % (2 ^ 63 - 1)))
  let guests : List Dict ← call client .getGuests
  let remote := guests.filterMap (fun item => (item.get? "vmid").bind Json.asInt?)
  let localVmids ← op (.workloadVmids r.targetClusterId)
  let reserved ← op (.requestVmids r.targetClusterId)
  let unavailable := remote ++ localVmids ++ reserved
  match r.targetVmid with
  | some vmid =>
    if unavailable.contains vmid then app 409 "VMID_CONFLICT" "The requested VMID is already in use."
    else do
      commit (.targetVmid vmid)
      return [("vmid", .int vmid)]
  | none =>
    match freeVmid unavailable 100 999900 with
    | none => app 409 "VMID_EXHAUSTED" "No VMID is available."
    | some vmid => do
      commit (.targetVmid vmid)
      return [("vmid", .int vmid)]

/-- `_reserve_ip`: the address is reserved for the request, and is the same one when the step is
repeated. -/
def reserveIp (principal : Principal) : ProvProg Dict := do
  let svc ← ipam (some principal)
  let r ← request
  let address ← perform (.reserveIp svc r.ipPoolId r.requestedIpAddress)
  commit (.ipAddress address.id)
  return [("ip_address", .str address.address.text)]

/-- `_full_clone`: that a clone is about to be asked for is committed before it is, and its UPID
after. A guest that is there already must be the one that was asked for. -/
def fullClone (stepId : Uuid) (client : Except AppError Unit) : ProvProg Dict := do
  let node ← node
  let vmid ← vmid
  if ← vmExists client vmid then do
    let rows ← rows
    if (rows.request.map ProvisioningRequest.cloneSubmitted).getD false &&
        ((rows.steps.get? stepId).bind ProvisioningStep.pveUpid).isSome then
      return [("already_exists", .bool true), ("submission_verified", .bool true)]
    else raise (vmidOwnershipConflict
      "The reserved VMID is occupied by a VM not verified as this provisioning request.")
  else do
    commit .cloneSubmitted
    let sourceNode ← str "source_node"
    let sourceVmid ← int "source_vmid"
    let r ← request
    let storage ← str "storage"
    let upid ← call client
      (.cloneQemuTemplate sourceNode sourceVmid node.name vmid r.targetName storage)
    commit (.stepUpid stepId upid)
    return [("submitted", .bool true)]

/-- `_wait_clone`: without a UPID nothing tells whether the clone was made. -/
def waitClone (client : Except AppError Unit) : ProvProg Dict := do
  let cloneStep ← ofExcept (orRaise (← op (.getStep .fullClone)) .assertion)
  match cloneStep.pveUpid with
  | some upid => do
    let node ← node
    waitTask client node.name upid rt.settings.pveTaskMaxPollAttempts
    return [("clone_complete", .bool true)]
  | none =>
    if ← vmExists client (← vmid) then
      raise (vmidOwnershipConflict
        "The clone VM exists without a verified Proxmox task identifier.")
    else app 409 "CLONE_STATE_UNKNOWN" "The clone result could not be determined."

def configureCompute (client : Except AppError Unit) : ProvProg Dict := do
  let node ← node
  let vmid ← vmid
  let cores ← int "cpu_cores"
  let memory ← int "memory_bytes"
  call client (.configureQemu node.name vmid
    [("cores", toString cores), ("memory", toString (memory / (1024 * 1024)))])
  return [("configured", .bool true)]

def resizeDisk (client : Except AppError Unit) : ProvProg Dict := do
  let node ← node
  let vmid ← vmid
  let disk ← str "source_disk"
  let sizeBytes ← int "disk_bytes"
  call client (.resizeQemuDisk node.name vmid disk sizeBytes)
  return [("resized", .bool true)]

/-- `_address`. -/
def address : ProvProg IpAddress := do
  let missing : Exn := .app ⟨409, "IP_RESERVATION_MISSING", "The IP reservation is missing.", []⟩
  let r ← request
  match r.ipAddressId with
  | none => raise missing
  | some id => do
    ofExcept (orRaise (← op (.getAddress id)) missing)

/-- The `ipconfig0` of an address, in the network of its pool. -/
def ipconfig (a : IpAddress) (pool : IpPool) : String :=
  "ip=" ++ a.address.text ++ "/" ++ toString pool.cidr.prefixlen ++ match pool.gateway with
    | some gateway => ",gw=" ++ gateway.text
    | none => ""

/-- The VLAN suffix of `net0`; a JSON `true` is an `int` too. -/
def vlanTag (spec : Dict) : String :=
  match spec.get? "vlan_tag" with
  | some (.int tag) => ",tag=" ++ toString tag
  | some (.bool tag) => ",tag=" ++ (if tag then "True" else "False")
  | _ => ""

/-- The initializer a step reports. -/
def initializer (r : ProvisioningRequest) : Json :=
  if r.specSnapshot.get? "os_type" = some (.str TemplateOsType.windows.value) then
    .str "CLOUDBASE_INIT" else .str "CLOUD_INIT"

/-- `_configure_network`: the bridge and the tag of the saved specification, and all else of the
pool as it is now. -/
def configureNetwork (client : Except AppError Unit) : ProvProg Dict := do
  let address ← address
  let r ← request
  let pool ← ofExcept (orRaise (← op (.getPool r.ipPoolId)) .assertion)
  let bridge ← str "bridge"
  let net0 := "virtio,bridge=" ++ bridge ++ vlanTag r.specSnapshot
  let nameserver := if pool.dnsServers = [] then []
    else [("nameserver", " ".intercalate (pool.dnsServers.map Inet.text))]
  let node ← node
  let vmid ← vmid
  call client (.configureQemu node.name vmid
    ([("net0", net0), ("ipconfig0", ipconfig address pool)] ++ nameserver))
  return [("network_configured", .bool true), ("initializer", initializer r)]

/-- `_decrypt_initial_password`. -/
def decryptInitialPassword (r : ProvisioningRequest) : Except Exn String :=
  match r.initialPasswordCiphertext, r.initialPasswordNonce, r.initialPasswordKeyVersion with
  | some ciphertext, some nonce, some keyVersion =>
    rt.decryptPassword ciphertext nonce keyVersion r.targetClusterId r.id
  | _, _, _ => .error (.app ⟨409, "WINDOWS_INITIAL_PASSWORD_UNAVAILABLE",
      "The Windows initial password is unavailable.", []⟩)

/-- Whether the request was made for a Windows template. -/
def isWindows (r : ProvisioningRequest) : Prop :=
  r.specSnapshot.get? "os_type" = some (.str TemplateOsType.windows.value)

instance (r : ProvisioningRequest) : Decidable (isWindows r) :=
  inferInstanceAs (Decidable (_ = _))

/-- The Windows half of `_configure_identity`: the password is handed to the guest, and cleared
from the row once Proxmox has accepted it. -/
def configurePassword (client : Except AppError Unit) : ProvProg Dict := do
  let password ← ofExcept (decryptInitialPassword rt (← request))
  let node ← node
  let vmid ← vmid
  let user ← str "cloud_init_username"
  call client (.configureQemu node.name vmid [("ciuser", user), ("cipassword", password)])
  let cleared ← now
  commit (.passwordCleared cleared)
  return [("credential", .str "ONE_TIME_PASSWORD"), ("initializer", .str "CLOUDBASE_INIT")]

/-- The Linux half: the user and the keys of the order. -/
def configureKeys (client : Except AppError Unit) : ProvProg Dict := do
  let r ← request
  match r.specSnapshot.get? "ssh_public_keys" with
  | some (.strs (key :: keys)) => do
    let node ← node
    let vmid ← vmid
    let user ← str "cloud_init_username"
    call client (.configureQemu node.name vmid
      [("ciuser", user), ("sshkeys", "\n".intercalate (key :: keys))])
    return [("ssh_key_count", .int (key :: keys).length), ("initializer", initializer r)]
  | _ => app 409 "SSH_KEYS_INVALID" "The SSH public keys are invalid."

def configureIdentity (client : Except AppError Unit) : ProvProg Dict := do
  if isWindows (← request) then configurePassword rt client else configureKeys client

/-- `_start_vm`: left out where the order does not ask for it. -/
def startVm (stepId : Uuid) (client : Except AppError Unit) : ProvProg Dict := do
  let r ← request
  if !r.startAfterCreate then return [("skipped", .bool true)]
  else do
    let vmNode ← node
    let current : Dict ← call client (.getVmStatus vmNode.name (← vmid))
    if current.get? "status" = some (.str "running") then return [("already_running", .bool true)]
    else do
      let upid ← call client (.submitVmPowerAction vmNode.name (← vmid) "start")
      commit (.stepUpid stepId upid)
      waitTask client (← node).name upid rt.settings.pveTaskMaxPollAttempts
      return [("started", .bool true)]

def verifyStatus (client : Except AppError Unit) : ProvProg Dict := do
  let node ← node
  let status : Dict ← call client (.getVmStatus node.name (← vmid))
  let r ← request
  if r.startAfterCreate ∧ status.get? "status" ≠ some (.str "running") then
    app 409 "VM_START_VERIFICATION_FAILED" "The VM did not reach running state."
  else return [("power_state", .str (rt.upper (rt.strOf status "status" "unknown")))]

def assignOrganization (actor : User) : ProvProg Dict := do
  let workloadId ← perform (.assignOrganization actor)
  return [("workload_id", .int workloadId)]

def confirmIp (principal : Principal) : ProvProg Dict := do
  let r ← request
  match r.workloadId with
  | none => app 409 "WORKLOAD_MISSING" "The created workload is missing."
  | some workloadId => do
    let _ ← ipam (some principal)
    perform (.confirmIp workloadId)
    return [("assigned", .bool true)]

/-- `_execute_step`, with a method for every name of `PROVISIONING_STEPS`. -/
def executeStep (actor : User) (principal : Principal) (client : Except AppError Unit)
    (stepId : Uuid) : StepName → ProvProg Dict
  | .validateRequest => validateRequest
  | .checkProduct => checkProduct
  | .selectTarget => selectTarget
  | .reserveVmid => reserveVmid client
  | .reserveIp => reserveIp principal
  | .fullClone => fullClone stepId client
  | .waitClone => waitClone rt client
  | .configureCompute => configureCompute client
  | .resizeDisk => resizeDisk client
  | .configureNetwork => configureNetwork client
  | .configureIdentity => configureIdentity rt client
  | .startVm => startVm rt stepId client
  | .verifyStatus => verifyStatus rt client
  | .assignOrganization => assignOrganization actor
  | .confirmIp => confirmIp principal

/-! ### Failures -/

/-- The rollback of `_fail_request`: the address goes into quarantine, and the capacity back to
its node. -/
def rollback (principal : Option Principal) : ProvProg Unit := do
  let _ ← ipam principal
  perform .quarantineIp
  perform .releaseNodeCapacity

/-- Whether a failure is left to a person: what was done at Proxmox is not known, or the
rollback raised. -/
def needsReview (principal : Option Principal) (error : AppError) : ProvProg Bool := do
  let r ← request
  if r.cloneSubmitted ∨ error.code = "VMID_OWNERSHIP_CONFLICT" then return true
  else do
    match ← attempt (rollback principal) with
    | .ok () => return false
    | .error e => if e.isException then return true else raise e

/-- The step a failure is noted on. -/
def noteFailure (error : AppError) : Option Uuid → ProvProg Unit
  | none => return ()
  | some id => do
    let failed ← now
    op (.assign (.stepFailed id error failed))

/-- `_fail_request` after the note on its step: the rollback if no guest can have been made, and
the end of the request in one commit. For a review, what is known of the guest is recorded
afterwards. -/
def settle (principal : Option Principal) (error : AppError) : ProvProg Unit := do
  let manualReview ← needsReview principal error
  let r ← request
  let finished ← now
  let cleared ← now
  commit (.settled manualReview error finished cleared)
    [provisioningAudit "VM_PROVISION" (if manualReview then .manualReview else .failed)
      r.requestedById .superAdmin (some r.organizationId) r.workloadId "provisioning_request" r.id
      (some error.code)]
  if manualReview then do
    match ← attempt (perform .recordPartialWorkload) with
    | .ok () => return ()
    | .error e => if e.isException then return () else raise e
  else return ()

/-- `_fail_request`. -/
def failRequest (principal : Option Principal) (stepId : Option Uuid) (error : AppError) :
    ProvProg Unit := do
  noteFailure error stepId
  settle principal error

def internalError : AppError :=
  ⟨500, "PROVISIONING_INTERNAL_ERROR", "The provisioning step failed unexpectedly.", []⟩

def permissionRevoked : AppError :=
  ⟨403, "PERMISSION_REVOKED", "The provisioning requester is no longer authorized.", []⟩

/-! ### Runs -/

/-- `_open_client`. -/
def openClient (clusterId : Uuid) : ProvProg (Except AppError Unit) := do
  let cluster ← op (.getCluster clusterId)
  let credential ← op (.activeCredential clusterId)
  match cluster, credential with
  | some cluster, some credential =>
    if cluster.isActive then op (.connect cluster credential)
    else return .error (clusterUnavailable)
  | _, _ => return .error (clusterUnavailable)
where
  clusterUnavailable : AppError := ⟨409, "CLUSTER_UNAVAILABLE", "The cluster is unavailable.", []⟩

/-- What follows the execution of one step: its result is committed, or the request fails
and the run ends. -/
def endStep (principal : Principal) (stepId : Uuid) (next : ProvProg Bool) :
    Except Exn Dict → ProvProg Bool
  | .ok result => do
    let finished ← now
    let touched ← now
    commit (.stepSucceeded stepId result finished touched)
    next
  | .error e =>
    match e.appError? with
    | some error => do
      failRequest (some principal) (some stepId) error
      return false
    | none =>
      if e.isException then do
        failRequest (some principal) (some stepId) internalError
        raise e
      else raise e

/-- The loop of `_run_claimed`; whether it came to its end. A step that succeeded before is passed
over. -/
def runSteps (actor : User) (principal : Principal) (client : Except AppError Unit) :
    List ProvisioningStep → ProvProg Bool
  | [] => return true
  | step :: rest => do
    let session ← rows
    if (session.steps.get? step.id).map ProvisioningStep.status = some .succeeded then
      runSteps actor principal client rest
    else do
      let touched ← now
      let started ← now
      commit (.stepStarted step.id step.stepName touched started)
      let result ← attempt (executeStep rt actor principal client step.id step.stepName)
      endStep principal step.id (runSteps actor principal client rest) result

/-- The end of `_run_claimed`: the request has succeeded, which is committed with its audit event.
-/
def complete (actor : User) : ProvProg Unit := do
  let r ← request
  let finished ← now
  commit (.completed finished)
    [provisioningAudit "VM_PROVISION" .succeeded actor.id actor.role (some r.organizationId)
      r.workloadId "provisioning_request" r.id]

/-- Whether the requester may still have the request carried out, at the moment it is taken up. -/
def authorized (actor : Option User) : Option User :=
  actor.filter (fun u => u.isActive && u.role == .superAdmin)

/-- The part of `_run_claimed` an authorized requester's run comes to. -/
def runAuthorized (actor : User) (clusterId : Uuid) : ProvProg Unit := do
  let client ← openClient clusterId
  let steps ← op .loadSteps
  if ← runSteps rt actor ⟨actor.id, actor.email, actor.role, actor.sessionEpoch⟩ client steps then
    complete actor
  else return ()

/-- `_run_claimed`: what happens under the claim. -/
def runClaimed : ProvProg Unit := do
  let r ← request
  match authorized (← op (.getUser r.requestedById)) with
  | none => do
    op (.assign .revoked)
    failRequest none none permissionRevoked
  | some actor => runAuthorized rt actor r.targetClusterId

/-- `_release_claim`, called with `request.id`, which is read first and raises if the session was
rolled back. -/
def releaseClaim : ProvProg Unit := do
  let _ ← request
  op .releaseClaim

/-- `run`: a claim, the work, and whatever happens, the release of the claim. -/
def run : ProvProg Unit := do
  let claimed ← now
  if ← perform (.claim claimed) then do
    op .load
    always (runClaimed rt) releaseClaim
  else return ()

end ProvisioningRunner
end PveMaster
