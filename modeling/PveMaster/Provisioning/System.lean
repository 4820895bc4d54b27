import PveMaster.Provisioning.Runner

/-! The provisioning runner as a system, and its recovery at worker start. -/
namespace PveMaster

/-- A task message, and the `runner_id` of the runner made for it. -/
structure ProvMessage where
  requestId : Uuid
  runnerId : Uuid
  deriving DecidableEq

def provMachine (rt : Runtime) : Machine Exn ProvOp ProvState World Input ProvMessage where
  exec o i θ w := o.exec rt.settings i θ w
  start m := ({ requestId := m.requestId, runnerId := m.runnerId }, ProvisioningRunner.run rt)
  drop θ w := w.unlock θ.runnerId

abbrev ProvSys := Sys Exn ProvOp ProvState World
abbrev ProvAction := Action World Input ProvMessage

/-- `recover_provisioning_requests`. -/
def recoverProvisioningRequests (db : Db) (now : Instant) : List Uuid :=
  (db.requests.select (fun r => r.claimable now)).map ProvisioningRequest.id

/-! ### A sample -/

/-- A step as a request is created with it. -/
def pendingStep (id requestId : Uuid) (order : Nat) (name : StepName) : ProvisioningStep where
  id := id
  provisioningRequestId := requestId
  stepOrder := order
  stepName := name
  status := .pending
  attemptCount := 0
  pveUpid := none
  safeResult := []
  errorCode := none
  errorSummary := none
  startedAt := none
  finishedAt := none

/-- A request of a small VM, its password the letters `pw` if it is for Windows. -/
def sampleRequest (id : Uuid) (os : TemplateOsType) : ProvisioningRequest where
  id := id
  requestedById := 1
  idempotencyKeyHash := []
  requestFingerprint := []
  productId := 1
  templateId := 1
  organizationId := 1
  targetClusterId := 1
  targetNodeId := none
  targetVmid := none
  targetName := "vm"
  ipPoolId := 1
  requestedIpAddress := none
  ipAddressId := none
  workloadId := none
  status := .queued
  currentStep := .step .validateRequest
  specSnapshot :=
    [("cpu_cores", .int 2), ("memory_bytes", .int 2147483648), ("disk_bytes", .int 10737418240),
      ("storage", .str "local"), ("bridge", .str "vmbr0"), ("vlan_tag", .null),
      ("cloud_init_username", .str "admin"), ("ssh_public_keys", .strs ["ssh-ed25519 AAAA"]),
      ("start_after_create", .bool true), ("source_node", .str "pve1"), ("source_vmid", .int 9000),
      ("source_disk", .str "scsi0"), ("os_type", .str os.value)]
  initialPasswordCiphertext := if os = .windows then some [112, 119] else none
  initialPasswordNonce := if os = .windows then some [0] else none
  initialPasswordKeyVersion := if os = .windows then some "v1" else none
  initialPasswordClearedAt := none
  celeryTaskId := "task"
  cloneSubmitted := false
  errorCode := none
  errorSummary := none
  startedAt := none
  finishedAt := none
  heartbeatAt := none
  runnerId := none
  leaseExpiresAt := none
  version := 1

/-- The steps of request 1. -/
def sampleSteps : Table ProvisioningStep where
  rows := provisioningSteps.zipIdx.map fun s => pendingStep (101 + s.2) 1 (1 + s.2) s.1
  distinct := by decide

def samplePool : IpPool where
  id := 1
  name := "pool"
  clusterId := some 1
  cidr :=
    { networkAddress := ⟨.v4, 3221225984, none, by decide, fun _ => rfl⟩
      prefixlen := 24
      lenLe := by decide
      aligned := by decide
      unscoped := rfl }
  gateway := none
  dnsServers := []
  bridge := "vmbr0"
  vlanTag := none
  ipFamily := .v4
  allocationStrategy := .sequential
  quarantineSeconds := 60
  nextOffset := 1
  isActive := true
  createdById := 1
  version := 1

/-- One cluster with a node, a product, a template and a pool, and a request for them. -/
def provisioningDb (r : ProvisioningRequest) : Db :=
  { Db.empty with
    users := .single ⟨1, "admin", .superAdmin, true, 1⟩
    organizations := .single ⟨1, true⟩
    clusters := .single ⟨1, true⟩
    credentials := .single ⟨1, 1, true⟩
    products := .single ⟨1, 2, 2147483648, 10737418240, true⟩
    templates := .single ⟨1, 1, "scsi0", "local", "vmbr0", none, true,
      if r.specSnapshot.get? "os_type" = some (.str "WINDOWS") then .windows else .linux, true⟩
    nodes := .single ⟨1, 1, "pve1", true, false, 8589934592, 107374182400, none⟩
    requests := .single r
    steps := sampleSteps
    ipam := { IpamTables.empty with pools := .single samplePool } }

def provisioningWorld (r : ProvisioningRequest) : World := ⟨provisioningDb r, 0, [], []⟩

/-- Proxmox accepts everything, lists some guests, and every task ends well. -/
def provisioningAnswers (guests : List Int) : Answers
  | .getGuests => .ok (guests.map fun vmid => [("vmid", .int vmid)])
  | .getTaskStatus .. => .ok [("status", .str "stopped"), ("exitstatus", .str "OK")]
  | .getVmStatus .. => .ok [("status", .str "running")]
  | .cloneQemuTemplate .. => .ok "UPID:clone"
  | .submitVmPowerAction .. => .ok "UPID:start"
  | .configureQemu .. | .resizeQemuDisk .. => .ok ()
  | _ => .error (.app ⟨502, "PVE_UPSTREAM_ERROR", "Proxmox did not answer.", []⟩)

def provisioningInput (guests : List Int) : Input where
  answers := provisioningAnswers guests
  uuid n := 1000 + n
  random _ := 0
  client := .ok ()
  reject := none

/-- A process takes some actions while Proxmox lists the given guests. -/
def runs (pid count : Nat) (guests : List Int) : List ProvAction :=
  List.replicate count (.step pid (provisioningInput guests))

end PveMaster
