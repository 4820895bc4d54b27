import PveMaster.Requests.Workloads

/-! The workloads of a cluster, as `ClusterService` keeps them: `import_workloads` brings
them up to date with Proxmox, and `delete` marks all of them as gone.

Each is given here as one transaction on what it finds. -/
namespace PveMaster

/-- `UniqueConstraint("cluster_id", "vmid")`. -/
def Workload.clashes (w q : Workload) : Bool := q.clusterId == w.clusterId && q.vmid == w.vmid

/-- `QUEUED`, `RUNNING` or `MANUAL_REVIEW`. -/
def ProvisioningStatus.unsettled : ProvisioningStatus → Bool
  | .queued | .running | .manualReview => true
  | .succeeded | .failed => false

namespace ClusterService

def clusterNotFound : AppError := ⟨404, "CLUSTER_NOT_FOUND", "The Proxmox cluster was not found.", []⟩

def clusterDisabled : AppError := ⟨409, "CLUSTER_DISABLED", "The Proxmox cluster is disabled.", []⟩

def credentialMissing : AppError :=
  ⟨409, "CLUSTER_CREDENTIAL_MISSING", "The Proxmox cluster has no active credential.", []⟩

/-- `_active_credential`. -/
def activeCredential (db : Db) (clusterId : Uuid) : Option ClusterCredential :=
  db.credentials.first (fun c => c.clusterId == clusterId && c.isActive)

/-! ### Guests -/

/-- What the import reads of a `GuestResponse`; `template` is an integer or a boolean. -/
structure GuestResponse where
  vmid : Int
  node : Option String
  type : String
  name : Option String
  status : Option String
  maxcpu : Option Int
  maxmem : Option Int
  maxdisk : Option Int
  template : Option Int
  deriving DecidableEq

/-- A guest as it is stored. -/
structure GuestItem where
  vmid : Int
  node : String
  kind : WorkloadKind
  name : Option String
  powerState : String
  cpuCores : Option Int
  memoryBytes : Option Int
  diskBytes : Option Int
  isTemplate : Bool

variable (rt : Runtime)

def importedKind (guest : GuestResponse) : Option WorkloadKind :=
  if rt.upper guest.type = "QEMU" then some .qemu
  else if rt.upper guest.type = "LXC" then some .lxc
  else none

def importedPowerState (guest : GuestResponse) : String :=
  match guest.status with
  | none => "UNKNOWN"
  | some status =>
    if status = "" then "UNKNOWN"
    else if 20 < (rt.upper status).length then "UNKNOWN"
    else rt.upper status

/-- The checks of one guest, after those seen so far. -/
def importItem (seen : List Int) (guest : GuestResponse) : Except Exn GuestItem :=
  match importedKind rt guest, guest.node with
  | some kind, some node =>
    if guest.vmid ≤ 0 ∨ guest.vmid ∈ seen ∨ strip node = "" ∨ 255 < node.length ∨
        guest.name.any (fun name => decide (255 < name.length)) = true then
      .error invalid
    else .ok
      { vmid := guest.vmid
        node := node
        kind := kind
        name := guest.name
        powerState := importedPowerState rt guest
        cpuCores := guest.maxcpu
        memoryBytes := guest.maxmem
        diskBytes := guest.maxdisk
        isTemplate := guest.template.any (· != 0) }
  | _, _ => .error invalid
where
  invalid : Exn :=
    .app ⟨502, "PVE_INVALID_RESPONSE", "The Proxmox API returned an invalid workload item.", []⟩

/-- A workload that is new. -/
def GuestItem.row (g : GuestItem) (id clusterId : Uuid) (now : Instant) : Workload where
  id := id
  clusterId := clusterId
  vmid := g.vmid
  node := g.node
  kind := g.kind
  name := g.name
  powerState := g.powerState
  cpuCores := g.cpuCores
  memoryBytes := g.memoryBytes
  diskBytes := g.diskBytes
  isTemplate := g.isTemplate
  isPresent := true
  organizationId := none
  observedAt := now
  version := 1

/-- What the import assigns to a workload that is there. -/
def GuestItem.onto (g : GuestItem) (now : Instant) (w : Workload) : Workload :=
  { w with
    node := g.node
    kind := g.kind
    name := g.name
    powerState := g.powerState
    cpuCores := g.cpuCores
    memoryBytes := g.memoryBytes
    diskBytes := g.diskBytes
    isTemplate := g.isTemplate
    isPresent := true
    observedAt := now
    version := w.version + 1 }

/-- The columns the import writes, where they differ from what it has loaded. -/
def mergeImported (loaded current stored : Workload) : Workload :=
  { stored with
    node := written loaded.node current.node stored.node
    kind := written loaded.kind current.kind stored.kind
    name := written loaded.name current.name stored.name
    powerState := written loaded.powerState current.powerState stored.powerState
    cpuCores := written loaded.cpuCores current.cpuCores stored.cpuCores
    memoryBytes := written loaded.memoryBytes current.memoryBytes stored.memoryBytes
    diskBytes := written loaded.diskBytes current.diskBytes stored.diskBytes
    isTemplate := written loaded.isTemplate current.isTemplate stored.isTemplate
    isPresent := written loaded.isPresent current.isPresent stored.isPresent
    observedAt := written loaded.observedAt current.observedAt stored.observedAt
    version := written loaded.version current.version stored.version }

/-- What an import is about to write: rows as loaded and as assigned, and new rows. -/
structure Import where
  changed : List (Workload × Workload) := []
  added : List Workload := []
  seen : List Int := []

/-- One guest, which is among the workloads that were loaded, or is new. -/
def Import.add (b : Import) (clusterId : Uuid) (existing : List Workload) (now : Instant)
    (id : Uuid) (g : GuestItem) : Import :=
  match existing.find? (·.vmid == g.vmid) with
  | some w => { b with changed := b.changed ++ [(w, g.onto now w)], seen := g.vmid :: b.seen }
  | none => { b with added := b.added ++ [g.row id clusterId now], seen := g.vmid :: b.seen }

/-- The loop over the guests. -/
def importGuests (clusterId : Uuid) (existing : List Workload) (now : Instant) :
    List GuestResponse → List Uuid → Import → Except Exn Import
  | [], _, b => .ok b
  | guest :: rest, ids, b => do
    let item ← importItem rt b.seen guest
    importGuests clusterId existing now rest ids.tail
      (b.add clusterId existing now (ids.headD 0) item)

/-- The rows of an import in the table. -/
def Import.store (b : Import) (t : Table Workload) : Except Exn (Table Workload) :=
  let updated := b.changed.foldl (fun t c => t.update c.1.id (mergeImported c.1 c.2)) t
  orRaise (b.added.foldlM (insertUnless Workload.clashes) updated) .integrity

def importConflict : AppError :=
  ⟨409, "WORKLOAD_IMPORT_CONFLICT",
    "The workload inventory changed during import; retry the request.", []⟩

/-- An audit event of a cluster. -/
def clusterAudit (principal : Principal) (action : String) (clusterId : Uuid) : AuditLog where
  action := action
  outcome := .succeeded
  actorUserId := some principal.userId
  actorRole := some principal.role
  organizationId := none
  workloadId := none
  operationId := none
  pveUpid := none
  resourceType := "cluster"
  resourceId := some clusterId
  errorCode := none

variable (principal : Principal)

/-- `import_workloads` from the lock of the cluster's row on. -/
def imported (clusterId : Uuid) (guests : List GuestResponse) (ids : List Uuid) (now : Instant)
    (db : Db) : Except Exn Db := do
  discard (orRaise (db.clusters.get? clusterId) (.app clusterNotFound))
  let existing := db.workloads.select (·.clusterId == clusterId)
  let b ← importGuests rt clusterId existing now guests ids {}
  let workloads ← onIntegrity importConflict (b.store db.workloads)
  return { db with
    workloads := workloads
    auditLogs := db.auditLogs ++ [clusterAudit principal "PVE_WORKLOADS_IMPORTED" clusterId] }

/-- `_connection_snapshot`, as far as it can fail: `client` is what the decryption ends in. -/
def snapshotCheck (client : Except AppError Unit) (clusterId : Uuid) (db : Db) : Except Exn Unit := do
  let cluster ← orRaise (db.clusters.get? clusterId) (.app clusterNotFound)
  raiseIf (cluster.isActive = false) (.app clusterDisabled)
  discard (orRaise (activeCredential db clusterId) (.app credentialMissing))
  match client with
  | .ok () => pure ()
  | .error e => .error (.app e)

/-- `import_workloads` as a whole; `guests` is what Proxmox is found to run. -/
def importWorkloads (clusterId : Uuid) (client : Except AppError Unit)
    (guests : Except Exn (List GuestResponse)) (ids : List Uuid) (now : Instant) (db : Db) :
    Except Exn Db := do
  requireServiceRole principal [.superAdmin, .operator]
  snapshotCheck client clusterId db
  let guests ← guests
  imported rt principal clusterId guests ids now db

/-! ### The removal of a cluster -/

/-- `counts` of `_removal_blocks`. -/
def removalCounts (clusterId : Uuid) (db : Db) : List (String × Nat) :=
  [("ASSIGNED_WORKLOADS",
      (db.workloads.select (fun w => w.clusterId == clusterId && w.organizationId.isSome)).length),
    ("ACTIVE_OPERATIONS",
      (db.operations.select (fun o => o.clusterId == clusterId && o.status.incomplete)).length),
    ("ACTIVE_PROVISIONING_REQUESTS",
      (db.requests.select (fun r => r.targetClusterId == clusterId && r.status.unsettled)).length),
    ("PROVISIONING_NODES", (db.nodes.select (·.clusterId == clusterId)).length),
    ("TEMPLATES", (db.templates.select (fun t =>
      (db.workloads.get? t.sourceWorkloadId).any (·.clusterId == clusterId))).length),
    ("CLUSTER_IP_POOLS", (db.ipam.pools.select (·.clusterId == some clusterId)).length)]

/-- `_removal_blocks`. -/
def removalBlocks (clusterId : Uuid) (db : Db) : List (String × Nat) :=
  (removalCounts clusterId db).filter (fun c => decide (0 < c.2))

/-- Each block with its code and its count. -/
def removalBlocked (blocks : List (String × Nat)) : AppError :=
  ⟨409, "CLUSTER_REMOVAL_BLOCKED", "The cluster still has dependent resources.",
    [("blocks", .strs (blocks.map fun b => b.1 ++ " " ++ toString b.2))]⟩

/-- What the `UPDATE` of `delete` makes of a workload. -/
def gone (clusterId : Uuid) (now : Instant) (w : Workload) : Workload :=
  if w.clusterId = clusterId ∧ w.isPresent = true then
    { w with isPresent := false, observedAt := now, version := w.version + 1 }
  else w

/-- `delete`, as one transaction. -/
def deleted (clusterId : Uuid) (now : Instant) (db : Db) : Except Exn Db := do
  requireServiceRole principal [.superAdmin, .operator]
  let cluster ← orRaise (db.clusters.get? clusterId) (.app clusterNotFound)
  if cluster.isActive = false then return db
  else do
    raiseIf (removalBlocks clusterId db ≠ []) (.app (removalBlocked (removalBlocks clusterId db)))
    let credential ← orRaise (activeCredential db clusterId) (.app credentialMissing)
    return { db with
      clusters := db.clusters.update clusterId (fun c => { c with isActive := false })
      credentials := db.credentials.update credential.id (fun c => { c with isActive := false })
      workloads := db.workloads.each (gone clusterId now)
      auditLogs := db.auditLogs ++ [clusterAudit principal "CLUSTER_DISABLED" clusterId] }

end ClusterService
end PveMaster
