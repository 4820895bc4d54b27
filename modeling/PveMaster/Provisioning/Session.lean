import PveMaster.Foundation.Process
import PveMaster.Runtime
import PveMaster.Ipam.Allocations

/-! The session of a provisioning runner and its transactions.

The runner keeps its request and its steps as loaded and as assigned to since; each
commit writes the columns that differ (`ProvState.flush`). Nothing in it compares the
stored `runner_id` or lease with its own: only `claim` and `releaseClaim` do. A
rollback expires what was loaded, and from then on the rows cannot be read. The two
transactions on a node hold its row lock and are one operation each; so is each call
of the IPAM service, under the lock of its pool or allocation. -/
namespace PveMaster

/-- What a runner has read of its request. -/
structure ProvRows where
  request : Option ProvisioningRequest := none
  steps : Table ProvisioningStep := .empty

/-- One execution of a provisioning task: whose it is, and what it has read and assigned. -/
structure ProvState where
  requestId : Uuid
  /-- `self._runner_id`, drawn when the runner is made. -/
  runnerId : Uuid
  loaded : ProvRows := {}
  current : ProvRows := {}
  /-- The session was rolled back since the rows were loaded. -/
  expired : Bool := false
  /-- The lease the execution holds by what it last wrote. -/
  lease : Option Instant := none
  /-- The execution has ended the request. -/
  ended : Bool := false

/-! ### Column-wise writes -/

/-- The columns of a request that the runner assigns. One it has not touched keeps what others
have written meanwhile, the lease among them. -/
def ProvisioningRequest.merge (loaded current stored : ProvisioningRequest) : ProvisioningRequest :=
  { stored with
    targetNodeId := written loaded.targetNodeId current.targetNodeId stored.targetNodeId
    targetVmid := written loaded.targetVmid current.targetVmid stored.targetVmid
    ipAddressId := written loaded.ipAddressId current.ipAddressId stored.ipAddressId
    workloadId := written loaded.workloadId current.workloadId stored.workloadId
    status := written loaded.status current.status stored.status
    currentStep := written loaded.currentStep current.currentStep stored.currentStep
    specSnapshot := written loaded.specSnapshot current.specSnapshot stored.specSnapshot
    initialPasswordCiphertext := written loaded.initialPasswordCiphertext
      current.initialPasswordCiphertext stored.initialPasswordCiphertext
    initialPasswordNonce := written loaded.initialPasswordNonce current.initialPasswordNonce
      stored.initialPasswordNonce
    initialPasswordKeyVersion := written loaded.initialPasswordKeyVersion
      current.initialPasswordKeyVersion stored.initialPasswordKeyVersion
    initialPasswordClearedAt := written loaded.initialPasswordClearedAt
      current.initialPasswordClearedAt stored.initialPasswordClearedAt
    cloneSubmitted := written loaded.cloneSubmitted current.cloneSubmitted stored.cloneSubmitted
    errorCode := written loaded.errorCode current.errorCode stored.errorCode
    errorSummary := written loaded.errorSummary current.errorSummary stored.errorSummary
    startedAt := written loaded.startedAt current.startedAt stored.startedAt
    finishedAt := written loaded.finishedAt current.finishedAt stored.finishedAt
    heartbeatAt := written loaded.heartbeatAt current.heartbeatAt stored.heartbeatAt
    runnerId := written loaded.runnerId current.runnerId stored.runnerId
    leaseExpiresAt := written loaded.leaseExpiresAt current.leaseExpiresAt stored.leaseExpiresAt
    version := written loaded.version current.version stored.version }

/-- The columns of a step that the runner assigns. -/
def ProvisioningStep.merge (loaded current stored : ProvisioningStep) : ProvisioningStep :=
  { stored with
    status := written loaded.status current.status stored.status
    attemptCount := written loaded.attemptCount current.attemptCount stored.attemptCount
    pveUpid := written loaded.pveUpid current.pveUpid stored.pveUpid
    safeResult := written loaded.safeResult current.safeResult stored.safeResult
    errorCode := written loaded.errorCode current.errorCode stored.errorCode
    errorSummary := written loaded.errorSummary current.errorSummary stored.errorSummary
    startedAt := written loaded.startedAt current.startedAt stored.startedAt
    finishedAt := written loaded.finishedAt current.finishedAt stored.finishedAt }

/-- What a flush makes of one stored step. -/
def ProvState.flushStep (θ : ProvState) (stored : ProvisioningStep) : ProvisioningStep :=
  match θ.loaded.steps.get? stored.id, θ.current.steps.get? stored.id with
  | some loaded, some current => ProvisioningStep.merge loaded current stored
  | _, _ => stored

/-- What a flush makes of the requests. -/
def ProvState.flushRequests (θ : ProvState) (t : Table ProvisioningRequest) :
    Table ProvisioningRequest :=
  match θ.loaded.request, θ.current.request with
  | some loaded, some current => t.update loaded.id (ProvisioningRequest.merge loaded current)
  | _, _ => t

/-- The `UPDATE`s of a flush: its request and its steps, column by column. -/
def ProvState.flush (θ : ProvState) (db : Db) : Db :=
  { db with
    requests := θ.flushRequests db.requests
    steps := db.steps.each θ.flushStep }

/-! ### Assignments -/

/-- What the runner assigns to its request and its steps, place by place. -/
inductive ProvEdit where
  | nothing
  | revoked
  | stepStarted (id : Uuid) (name : StepName) (touched started : Instant)
  | stepSucceeded (id : Uuid) (result : Dict) (finished touched : Instant)
  | stepFailed (id : Uuid) (error : AppError) (finished : Instant)
  | nodeReserved (nodeId : Uuid)
  | targetVmid (vmid : Int)
  | ipAddress (id : Uuid)
  | cloneSubmitted
  | stepUpid (id : Uuid) (upid : String)
  | leaseTouched (now : Instant)
  | passwordCleared (now : Instant)
  | workload (id : Uuid)
  | capacityReleased
  | settled (manualReview : Bool) (error : AppError) (finished cleared : Instant)
  | completed (finished : Instant)

/-- `_touch_lease`: the heartbeat, and a lease from now on. Whose lease the row has by then is not
looked at. -/
def touchLease (settings : Settings) (now : Instant) (r : ProvisioningRequest) :
    ProvisioningRequest :=
  { r with heartbeatAt := some now, leaseExpiresAt := some (settings.leaseDeadline now) }

/-- `_clear_initial_password`: all three columns of it, if any of them is set. -/
def clearInitialPassword (now : Instant) (r : ProvisioningRequest) : ProvisioningRequest :=
  if r.initialPasswordCiphertext.isSome ∨ r.initialPasswordNonce.isSome ∨
      r.initialPasswordKeyVersion.isSome then
    { r with
      initialPasswordCiphertext := none
      initialPasswordNonce := none
      initialPasswordKeyVersion := none
      initialPasswordClearedAt := some now }
  else r

def ProvEdit.onRequest (settings : Settings) : ProvEdit → ProvisioningRequest → ProvisioningRequest
  | .nothing, r | .stepFailed .., r | .stepUpid .., r => r
  | .revoked, r => { r with runnerId := none, leaseExpiresAt := none }
  | .stepStarted _ name touched _, r =>
    touchLease settings touched { r with currentStep := .step name }
  | .stepSucceeded _ _ _ touched, r => touchLease settings touched { r with version := r.version + 1 }
  | .nodeReserved nodeId, r =>
    { r with
      targetNodeId := some nodeId
      specSnapshot := r.specSnapshot.set "node_capacity_reserved" (.bool true) }
  | .targetVmid vmid, r => { r with targetVmid := some vmid }
  | .ipAddress id, r => { r with ipAddressId := some id }
  | .cloneSubmitted, r => { r with cloneSubmitted := true }
  | .leaseTouched now, r => touchLease settings now r
  | .passwordCleared now, r => clearInitialPassword now r
  | .workload id, r => { r with workloadId := some id }
  | .capacityReleased, r =>
    { r with specSnapshot := r.specSnapshot.set "node_capacity_reserved" (.bool false) }
  | .settled manualReview error finished cleared, r =>
    clearInitialPassword cleared
      { r with
        status := if manualReview then .manualReview else .failed
        errorCode := some error.code
        errorSummary := some error.message
        finishedAt := some finished
        runnerId := none
        leaseExpiresAt := none }
  | .completed finished, r =>
    { r with
      status := .succeeded
      currentStep := .completed
      finishedAt := some finished
      heartbeatAt := some finished
      runnerId := none
      leaseExpiresAt := none
      errorCode := none
      errorSummary := none }

def ProvEdit.onStep : ProvEdit → ProvisioningStep → ProvisioningStep
  | .stepStarted id _ _ started, s =>
    if s.id = id then
      { s with
        status := .running
        startedAt := some (s.startedAt.getD started)
        attemptCount := s.attemptCount + 1
        errorCode := none
        errorSummary := none }
    else s
  | .stepSucceeded id result finished _, s =>
    if s.id = id then
      { s with status := .succeeded, safeResult := result, finishedAt := some finished }
    else s
  | .stepFailed id error finished, s =>
    if s.id = id then
      { s with
        status := .failed
        errorCode := some error.code
        errorSummary := some error.message
        finishedAt := some finished }
    else s
  | .stepUpid id upid, s => if s.id = id then { s with pveUpid := some upid } else s
  | _, s => s

def ProvState.assign (settings : Settings) (θ : ProvState) (e : ProvEdit) : ProvState :=
  { θ with current :=
    { request := θ.current.request.map (e.onRequest settings)
      steps := θ.current.steps.each e.onStep } }

/-! ### Transactions -/

/-- The transaction's end gives its advisory locks back. -/
def World.unlock (w : World) (holder : Uuid) : World :=
  { w with locks := w.locks.filter (fun l => l.2 != holder) }

/-- After a rollback the loaded rows are expired, and reading an attribute of one raises. -/
def ProvState.expire (θ : ProvState) : ProvState := { θ with expired := true }

/-- A commit went through: what was assigned is what is loaded, and the lease is the one just
stored. -/
def ProvState.saved (θ : ProvState) : ProvState :=
  { θ with
    loaded := θ.current
    lease := θ.current.request.bind ProvisioningRequest.leaseExpiresAt
    ended := θ.ended || θ.current.request.any (·.status.terminal) }

/-- Whether a flush writes the column of `uq_provisioning_active_vmid`, which is the one that can
clash. -/
def ProvState.movesVmid (θ : ProvState) : Bool :=
  θ.loaded.request.map ProvisioningRequest.targetVmid !=
    θ.current.request.map ProvisioningRequest.targetVmid

/-- The commit of a transaction that has written `db` besides the session's own rows. -/
def ProvState.commit (θ : ProvState) (i : Input) (w : World) (db : Db) :
    ProvState × World × Except Exn Unit :=
  let db := θ.flush db
  if θ.expired then (θ, w, .error .sessionState)
  else match i.reject with
    | some e => (θ.expire, w.unlock θ.runnerId, .error e)
    | none =>
      if θ.movesVmid ∧ ¬ UqProvisioningActiveVmid db.requests then
        (θ.expire, w.unlock θ.runnerId, .error .integrity)
      else (θ.saved, (w.setDb db).unlock θ.runnerId, .ok ())

/-- The result of a transaction that committed. -/
def committing {α : Type} (a : α) : ProvState × World × Except Exn Unit →
    ProvState × World × Except Exn α
  | (θ, w, .ok ()) => (θ, w, .ok a)
  | (θ, w, .error e) => (θ, w, .error e)

/-- The end of a transaction that raises before its commit: an error of the database has rolled it
back. -/
def ProvState.raising {α : Type} (θ : ProvState) (w : World) (e : Exn) :
    ProvState × World × Except Exn α :=
  if e.rollsBack then (θ.expire, w.unlock θ.runnerId, .error e) else (θ, w, .error e)

/-- The condition of `_claim`, and of the recovery query: nobody has the request, or nobody's
lease lasts. -/
def ProvisioningRequest.claimable (now : Instant) (r : ProvisioningRequest) : Bool :=
  r.status == .queued || (r.status == .running &&
    (r.runnerId.isNone || match r.leaseExpiresAt with
      | none => true
      | some lease => decide (lease ≤ now)))

/-- What `_claim` writes, in one guarded `UPDATE`: of two runners that claim a request at once,
one finds it claimed. -/
def claimed (settings : Settings) (now : Instant) (runnerId : Uuid) (r : ProvisioningRequest) :
    ProvisioningRequest :=
  { r with
    status := .running
    runnerId := some runnerId
    leaseExpiresAt := some (settings.leaseDeadline now)
    startedAt := some (r.startedAt.getD now)
    heartbeatAt := some now
    version := r.version + 1 }

/-- The `UPDATE` of `_claim`, which has read the clock before, and its commit. -/
def claim (settings : Settings) (now : Instant) (i : Input) (θ : ProvState) (w : World) :
    ProvState × World × Except Exn Bool :=
  match w.db.requests.get? θ.requestId with
  | none => (θ, w, .ok false)
  | some r =>
    if r.claimable now then
      match i.reject with
      | some e => (θ, w, .error e)
      | none =>
        let requests := w.db.requests.update θ.requestId (claimed settings now θ.runnerId)
        ({ θ with lease := some (settings.leaseDeadline now) },
          w.setDb { w.db with requests := requests }, .ok true)
    else (θ, w, .ok false)

/-- `session.get(ProvisioningRequest, claimed_id)`, in a transaction after the claim. -/
def loadRequest (θ : ProvState) (db : Db) : ProvState :=
  { θ with
    loaded := { θ.loaded with request := db.requests.get? θ.requestId }
    current := { θ.current with request := db.requests.get? θ.requestId } }

/-- The steps of the request. -/
def storedSteps (db : Db) (requestId : Uuid) : Table ProvisioningStep :=
  db.steps.restrict (fun s => s.provisioningRequestId == requestId)

/-- The `SELECT` of the steps, before the loop over them. -/
def loadSteps (θ : ProvState) (db : Db) : ProvState :=
  { θ with
    loaded := { θ.loaded with steps := storedSteps db θ.requestId }
    current := { θ.current with steps := storedSteps db θ.requestId } }

/-- `ORDER BY step_order`, the order of `PROVISIONING_STEPS`. -/
def inOrder (t : Table ProvisioningStep) : List ProvisioningStep :=
  t.rows.insertionSort (fun a b => a.stepOrder ≤ b.stepOrder)

/-- What `_release_claim` writes: its `UPDATE` is guarded, so it takes nobody else's claim away.
-/
def released (runnerId : Uuid) (r : ProvisioningRequest) : ProvisioningRequest :=
  if r.runnerId == some runnerId && r.status == .running then
    { r with runnerId := none, leaseExpiresAt := none }
  else r

/-- `_release_claim`. -/
def releaseClaim (i : Input) (θ : ProvState) (w : World) : ProvState × World :=
  match i.reject with
  | some _ => (θ.expire, w.unlock θ.runnerId)
  | none =>
    let requests := w.db.requests.update θ.requestId (released θ.runnerId)
    ({ θ.expire with lease := none },
      (w.setDb { w.db with requests := requests }).unlock θ.runnerId)

/-! ### Nodes -/

def noEligibleNode (message : String) : AppError := ⟨409, "NO_ELIGIBLE_NODE", message, []⟩

/-- Whether a node can take a request, by the platform's own account of it. -/
def ProvisioningNode.fits (memory disk : Int) (n : ProvisioningNode) : Bool :=
  n.isEnabled && !n.isMaintenance && decide (memory ≤ n.availableMemoryBytes) &&
    decide (disk ≤ n.availableStorageBytes)

/-- `ORDER BY last_selected_at NULLS FIRST, name`: the node that was chosen longest ago comes
first. -/
def ProvisioningNode.before (a b : ProvisioningNode) : Bool :=
  match a.lastSelectedAt, b.lastSelectedAt with
  | none, some _ => true
  | some _, none => false
  | none, none => decide (a.name ≤ b.name)
  | some s, some t => decide (s < t) || (s == t && decide (a.name ≤ b.name))

/-- The node `_select_target` locks: the one the request names, if it fits, or the first that
fits. -/
def selectNode (db : Db) (r : ProvisioningRequest) (memory disk : Int) :
    Except AppError ProvisioningNode :=
  match r.targetNodeId with
  | some id =>
    match db.nodes.get? id with
    | none => .error (noEligibleNode "The selected node is unavailable.")
    | some node =>
      if node.fits memory disk then .ok node
      else .error (noEligibleNode "The selected node is unavailable.")
  | none =>
    let fitting := db.nodes.select (fun n => n.clusterId == r.targetClusterId && n.fits memory disk)
    match fitting.foldl (fun best n => match best with
      | none => some n
      | some b => if b.before n then some b else some n) none with
    | none => .error (noEligibleNode "No node has sufficient capacity.")
    | some node => .ok node

/-- What a reservation takes from the node, and the mark of its selection. -/
def ProvisioningNode.reserve (memory disk : Int) (now : Instant) (n : ProvisioningNode) :
    ProvisioningNode :=
  { n with
    availableMemoryBytes := n.availableMemoryBytes - memory
    availableStorageBytes := n.availableStorageBytes - disk
    lastSelectedAt := some now }

/-- What a release gives back. -/
def ProvisioningNode.release (memory disk : Int) (n : ProvisioningNode) : ProvisioningNode :=
  { n with
    availableMemoryBytes := n.availableMemoryBytes + memory
    availableStorageBytes := n.availableStorageBytes + disk }

/-- `_select_target` from its query on: the node and the request are written in one transaction,
under the lock of the node. -/
def selectTarget (settings : Settings) (memory disk : Int) (i : Input) (θ : ProvState) (w : World) :
    ProvState × World × Except Exn ProvisioningNode :=
  match θ.current.request with
  | none => (θ, w, .error .sessionState)
  | some r =>
    match selectNode w.db r memory disk with
    | .error e => (θ, w, .error (.app e))
    | .ok node =>
      let nodes := w.db.nodes.update node.id (ProvisioningNode.reserve memory disk w.clock)
      committing node
        ((θ.assign settings (.nodeReserved node.id)).commit i w { w.db with nodes := nodes })

/-- `_int_spec`. -/
def intSpec (r : ProvisioningRequest) (key : String) : Except Exn Int :=
  orRaise ((r.specSnapshot.get? key).bind Json.asInt?)
    (.app ⟨409, "SPEC_SNAPSHOT_INVALID", "The saved specification is invalid.", []⟩)

/-- `_str_spec`. -/
def strSpec (r : ProvisioningRequest) (key : String) : Except Exn String :=
  orRaise ((r.specSnapshot.get? key).bind Json.asStr?)
    (.app ⟨409, "SPEC_SNAPSHOT_INVALID", "The saved specification is invalid.", []⟩)

/-- `_vmid`. -/
def vmidOf (r : ProvisioningRequest) : Except Exn Int :=
  orRaise r.targetVmid
    (.app ⟨409, "VMID_RESERVATION_MISSING", "The VMID reservation is missing.", []⟩)

def targetNodeMissing : Exn :=
  .app ⟨409, "TARGET_NODE_MISSING", "The target node is missing.", []⟩

/-- `spec_snapshot.get("node_capacity_reserved") is True`: the request still has its amounts taken
from its node. -/
def ProvisioningRequest.capacityReserved (r : ProvisioningRequest) : Bool :=
  r.specSnapshot.get? "node_capacity_reserved" == some (.bool true)

/-- The node a release gives its capacity back to, and how much. -/
def releasable (db : Db) (r : ProvisioningRequest) : Except Exn (ProvisioningNode × Int × Int) := do
  let nodeId ← orRaise r.targetNodeId .runtimeError
  let node ← orRaise (db.nodes.get? nodeId) .runtimeError
  let memory ← intSpec r "memory_bytes"
  let disk ← intSpec r "disk_bytes"
  return (node, memory, disk)

/-- `_release_node_capacity`: the amounts go back to the node, and the request says so, in one
transaction. -/
def releaseNodeCapacity (settings : Settings) (i : Input) (θ : ProvState) (w : World) :
    ProvState × World × Except Exn Unit :=
  match θ.current.request with
  | none => (θ, w, .error .sessionState)
  | some r =>
    if θ.expired then (θ, w, .error .sessionState)
    else if r.capacityReserved then
      match releasable w.db r with
      | .error e => (θ, w, .error e)
      | .ok (node, memory, disk) =>
        let nodes := w.db.nodes.update node.id (ProvisioningNode.release memory disk)
        (θ.assign settings .capacityReleased).commit i w { w.db with nodes := nodes }
    else (θ, w, .ok ())

/-! ### Addresses -/

/-- `reserve_for_provisioning` in the runner's session. -/
def reserveIp (svc : IpamService) (poolId : Uuid) (requested : Option Address) (i : Input)
    (θ : ProvState) (w : World) : ProvState × World × Except Exn IpAddress :=
  let out := svc.reserveForProvisioning w.db poolId θ.requestId requested (i.draws w)
  match out.result with
  | .error e => θ.raising w e
  | .ok (address, _) =>
    if (IpamService.requestAllocation w.db.ipam θ.requestId [.reserved, .assigned]).isSome then
      (θ, w, .ok address)
    else
      match θ.commit i w out.db with
      | (θ, w, .ok ()) => (θ, w, .ok address)
      | (θ, w, .error e) => (θ, w, onIntegrity IpamService.addressUnavailable (.error e))

/-- `confirm_provisioning_ip` in the runner's session. -/
def confirmIp (workloadId : Uuid) (i : Input) (θ : ProvState) (w : World) :
    ProvState × World × Except Exn Unit :=
  let out := IpamService.confirmProvisioningIp w.db θ.requestId workloadId (i.draws w)
  match out.result with
  | .error e => θ.raising w e
  | .ok () =>
    if (IpamService.requestAllocation w.db.ipam θ.requestId [.reserved]).isNone then (θ, w, .ok ())
    else θ.commit i w out.db

/-- `quarantine_provisioning_ip` in the runner's session. -/
def quarantineIp (i : Input) (θ : ProvState) (w : World) : ProvState × World × Except Exn Unit :=
  let out := IpamService.quarantineProvisioningIp w.db θ.requestId (i.draws w)
  match out.result with
  | .error e => θ.raising w e
  | .ok () =>
    if (IpamService.requestAllocation w.db.ipam θ.requestId [.reserved]).isNone then (θ, w, .ok ())
    else θ.commit i w out.db

/-! ### Workloads -/

/-- The workload of the request's VM, as `_assign_organization` and
`_record_partial_workload` insert it. -/
def newWorkload (id : Uuid) (r : ProvisioningRequest) (vmid : Int) (node : ProvisioningNode)
    (powerState : String) (cores memory disk : Int) (organizationId : Option Uuid)
    (now : Instant) : Workload where
  id := id
  clusterId := r.targetClusterId
  vmid := vmid
  node := node.name
  kind := .qemu
  name := some r.targetName
  powerState := powerState
  cpuCores := some cores
  memoryBytes := some memory
  diskBytes := some disk
  isTemplate := false
  isPresent := true
  organizationId := organizationId
  observedAt := now
  version := 1

/-- The row of `(cluster_id, vmid)`, of which there is one at most. -/
def workloadOf (t : Table Workload) (r : ProvisioningRequest) (vmid : Int) : Option Workload :=
  t.first (fun v => v.clusterId == r.targetClusterId && v.vmid == vmid)

def ownershipConflict : Exn :=
  .app ⟨409, "WORKLOAD_OWNERSHIP_CONFLICT", "The VM is assigned elsewhere.", []⟩

/-- `start_after_create`. -/
def ProvisioningRequest.startAfterCreate (r : ProvisioningRequest) : Bool :=
  r.specSnapshot.get? "start_after_create" == some (.bool true)

/-- `_node`. -/
def nodeOf (db : Db) (r : ProvisioningRequest) : Except Exn ProvisioningNode := do
  let id ← orRaise r.targetNodeId targetNodeMissing
  orRaise (db.nodes.get? id) targetNodeMissing

/-- The workload of the request, inserted if there is none under its VMID. -/
def ensureWorkload (db : Db) (r : ProvisioningRequest) (i : Input) (now : Instant) :
    Except Exn (Table Workload × Workload) := do
  let vmid ← vmidOf r
  match workloadOf db.workloads r vmid with
  | some workload => do
    raiseIf (workload.organizationId ≠ none ∧ workload.organizationId ≠ some r.organizationId)
      ownershipConflict
    return (db.workloads, workload)
  | none => do
    let node ← nodeOf db r
    let cores ← intSpec r "cpu_cores"
    let memory ← intSpec r "memory_bytes"
    let disk ← intSpec r "disk_bytes"
    let workload := newWorkload (i.uuid 0) r vmid node
      (if r.startAfterCreate then "RUNNING" else "STOPPED") cores memory disk
      (some r.organizationId) now
    let workloads ← orRaise (db.workloads.insert workload) .integrity
    return (workloads, workload)

/-- The unrevoked assignment of a workload, if somebody has it. -/
def activeAssignment (t : Table WorkloadAssignment) (workloadId : Uuid) :
    Option WorkloadAssignment :=
  t.first (fun a => a.workloadId == workloadId && a.revokedAt.isNone)

/-- The assignments with the one the request needs. One of another organization is a conflict. -/
def ensureAssignment (t : Table WorkloadAssignment) (r : ProvisioningRequest) (workloadId : Uuid)
    (actorId : Uuid) (i : Input) : Except Exn (Table WorkloadAssignment) :=
  match activeAssignment t workloadId with
  | some assignment => do
    raiseIf (assignment.organizationId ≠ r.organizationId) ownershipConflict
    return t
  | none => orRaise (t.insert
      { id := i.uuid 1
        workloadId := workloadId
        organizationId := r.organizationId
        assignedById := actorId
        revokedById := none
        revokedAt := none }) .integrity

/-- The audit events of a provisioning run. -/
def provisioningAudit (action : String) (outcome : AuditOutcome) (actorId : Uuid) (role : UserRole)
    (organizationId workloadId : Option Uuid) (resourceType : String) (resourceId : Uuid)
    (errorCode : Option String := none) : AuditLog where
  action := action
  outcome := outcome
  actorUserId := some actorId
  actorRole := some role
  organizationId := organizationId
  workloadId := workloadId
  operationId := none
  pveUpid := none
  resourceType := resourceType
  resourceId := some resourceId
  errorCode := errorCode

/-- What `_assign_organization` writes, before its commit: the workload, its owner and its
assignment together. -/
def assignedWorkload (db : Db) (r : ProvisioningRequest) (actor : User) (i : Input)
    (now : Instant) : Except Exn (Db × Uuid) := do
  let (workloads, workload) ← ensureWorkload db r i now
  let assignments ← ensureAssignment db.assignments r workload.id actor.id i
  let workloads := workloads.update workload.id (fun v =>
    { v with organizationId := some r.organizationId, isPresent := true })
  let audit := provisioningAudit "VM_ASSIGNED" .succeeded actor.id actor.role
    (some r.organizationId) (some workload.id) "workload" workload.id
  return ({ db with workloads := workloads, assignments := assignments,
                    auditLogs := db.auditLogs ++ [audit] }, workload.id)

/-- `_assign_organization`. -/
def assignOrganization (settings : Settings) (actor : User) (i : Input) (θ : ProvState) (w : World) :
    ProvState × World × Except Exn Uuid :=
  match θ.current.request with
  | none => (θ, w, .error .sessionState)
  | some r =>
    match assignedWorkload w.db r actor i w.clock with
    | .error e => θ.raising w e
    | .ok (db, workloadId) =>
      committing workloadId ((θ.assign settings (.workload workloadId)).commit i w db)

/-- A step of the request as the session has it, or else as it is stored. -/
def stepNamed (θ : ProvState) (db : Db) (name : StepName) : Option ProvisioningStep :=
  (θ.current.steps.first (fun s => s.stepName == name)).or
    (db.steps.first (fun s => s.provisioningRequestId == θ.requestId && s.stepName == name))

/-- The insert of `_record_partial_workload`: `ON CONFLICT (cluster_id, vmid) DO NOTHING`, so a
workload that is there stays as it is. -/
def insertPartial (t : Table Workload) (r : ProvisioningRequest) (vmid : Int)
    (node : ProvisioningNode) (i : Input) (now : Instant) : Except Exn (Table Workload) := do
  let cores ← intSpec r "cpu_cores"
  let memory ← intSpec r "memory_bytes"
  let disk ← intSpec r "disk_bytes"
  match workloadOf t r vmid with
  | some _ => return t
  | none =>
    orRaise (t.insert (newWorkload (i.uuid 0) r vmid node "UNKNOWN" cores memory disk none now))
      .integrity

/-- What it writes after the insert, and the workload it records, unless that is assigned
elsewhere. -/
def markPartial (db : Db) (workloads : Table Workload) (r : ProvisioningRequest) (vmid : Int)
    (now : Instant) : Option (Db × Uuid) :=
  match workloadOf workloads r vmid with
  | none => none
  | some workload =>
    if workload.organizationId ≠ none ∧ workload.organizationId ≠ some r.organizationId then none
    else
      let workloads := workloads.update workload.id (fun v =>
        { v with isPresent := true, observedAt := now })
      let audit := provisioningAudit "PARTIAL_PROVISIONING_VM_RECORDED" .succeeded r.requestedById
        .superAdmin workload.organizationId (some workload.id) "workload" workload.id
      some ({ db with workloads := workloads, auditLogs := db.auditLogs ++ [audit] }, workload.id)

/-- What `_record_partial_workload` writes before its commit: a guest that has been cloned for a
request that failed, so that somebody can see it. -/
def partialWorkload (θ : ProvState) (db : Db) (r : ProvisioningRequest) (i : Input) (now : Instant) :
    Except Exn (Option (Db × Uuid)) :=
  match r.targetVmid, r.targetNodeId.bind db.nodes.get?, stepNamed θ db .waitClone with
  | some vmid, some node, some cloneWait =>
    if cloneWait.status ≠ .succeeded then .ok none
    else do
      let workloads ← insertPartial db.workloads r vmid node i now
      return markPartial db workloads r vmid now
  | _, _, _ => .ok none

/-- `_record_partial_workload` and its commit; whatever it raises is followed by a rollback. -/
def recordPartialWorkload (settings : Settings) (i : Input) (θ : ProvState) (w : World) :
    ProvState × World × Except Exn Unit :=
  match θ.current.request with
  | none => (θ, w, .error .sessionState)
  | some r =>
    match partialWorkload θ w.db r i w.clock with
    | .error e => (θ.expire, w.unlock θ.runnerId, .error e)
    | .ok none => θ.commit i w w.db
    | .ok (some (db, workloadId)) => (θ.assign settings (.workload workloadId)).commit i w db

/-! ### The operations of the runner -/

/-- What a provisioning runner can do at once: one transaction, one call to Proxmox, or a reading
of its rows. -/
inductive ProvOp : Type → Type where
  | now : ProvOp Instant
  | claim (time : Instant) : ProvOp (Except Exn Bool)
  | load : ProvOp Unit
  /-- The rows, where an attribute of one is read. -/
  | rows : ProvOp (Except Exn ProvRows)
  | getUser (id : Uuid) : ProvOp (Option User)
  | getOrganization (id : Uuid) : ProvOp (Option Organization)
  | getCluster (id : Uuid) : ProvOp (Option Cluster)
  | activeCredential (clusterId : Uuid) : ProvOp (Option ClusterCredential)
  | connect (cluster : Cluster) (credential : ClusterCredential) : ProvOp (Except AppError Unit)
  | getProduct (id : Uuid) : ProvOp (Option Product)
  | getTemplate (id : Uuid) : ProvOp (Option Template)
  | getNode (id : Uuid) : ProvOp (Option ProvisioningNode)
  | getAddress (id : Uuid) : ProvOp (Option IpAddress)
  | getPool (id : Uuid) : ProvOp (Option IpPool)
  | loadSteps : ProvOp (List ProvisioningStep)
  | getStep (name : StepName) : ProvOp (Option ProvisioningStep)
  /-- `pg_advisory_xact_lock`. -/
  | lock (key : Int) : ProvOp Unit
  | workloadVmids (clusterId : Uuid) : ProvOp (List Int)
  | requestVmids (clusterId : Uuid) : ProvOp (List Int)
  | assign (e : ProvEdit) : ProvOp Unit
  | commit (e : ProvEdit) (audit : List AuditLog) : ProvOp (Except Exn Unit)
  | selectTarget (memory disk : Int) : ProvOp (Except Exn ProvisioningNode)
  | releaseNodeCapacity : ProvOp (Except Exn Unit)
  | reserveIp (svc : IpamService) (poolId : Uuid) (requested : Option Address) :
      ProvOp (Except Exn IpAddress)
  | confirmIp (workloadId : Uuid) : ProvOp (Except Exn Unit)
  | quarantineIp : ProvOp (Except Exn Unit)
  | assignOrganization (actor : User) : ProvOp (Except Exn Uuid)
  | recordPartialWorkload : ProvOp (Except Exn Unit)
  | releaseClaim : ProvOp Unit
  | call (r : Request) : ProvOp (Except Exn (Reply r))

/-- An advisory lock, unless another transaction holds it: then nothing, and who asks for it
waits. -/
def World.lock? (w : World) (key : Int) (holder : Uuid) : Option World :=
  if w.locks.any (fun l => l.1 == key && l.2 != holder) then none
  else some { w with locks := w.locks ++ [(key, holder)] }

def ProvOp.exec (settings : Settings) {ρ : Type} (o : ProvOp ρ) (i : Input) (θ : ProvState)
    (w : World) : Option (ProvState × World × ρ) :=
  match o with
  | .now => some (θ, w, w.clock)
  | .claim time => some (PveMaster.claim settings time i θ w)
  | .load => some (loadRequest θ w.db, w, ())
  | .rows => some (θ, w, if θ.expired then .error .sessionState else .ok θ.current)
  | .getUser id => some (θ, w, w.db.users.get? id)
  | .getOrganization id => some (θ, w, w.db.organizations.get? id)
  | .getCluster id => some (θ, w, w.db.clusters.get? id)
  | .activeCredential clusterId =>
    some (θ, w, w.db.credentials.first (fun c => c.clusterId == clusterId && c.isActive))
  | .connect _ _ => some (θ, w, i.client)
  | .getProduct id => some (θ, w, w.db.products.get? id)
  | .getTemplate id => some (θ, w, w.db.templates.get? id)
  | .getNode id => some (θ, w, w.db.nodes.get? id)
  | .getAddress id => some (θ, w, w.db.ipam.addresses.get? id)
  | .getPool id => some (θ, w, w.db.ipam.pools.get? id)
  | .loadSteps => some (PveMaster.loadSteps θ w.db, w, inOrder (storedSteps w.db θ.requestId))
  | .getStep name => some (θ, w, stepNamed θ w.db name)
  | .lock key => (w.lock? key θ.runnerId).map (fun w => (θ, w, ()))
  | .workloadVmids clusterId =>
    some (θ, w, (w.db.workloads.select (fun v => v.clusterId == clusterId)).map Workload.vmid)
  | .requestVmids clusterId =>
    some (θ, w, (w.db.requests.select (fun r => r.targetClusterId == clusterId &&
      r.id != θ.requestId && r.status != .failed)).filterMap ProvisioningRequest.targetVmid)
  | .assign e => some (θ.assign settings e, w, ())
  | .commit e audit =>
    some ((θ.assign settings e).commit i w { w.db with auditLogs := w.db.auditLogs ++ audit })
  | .selectTarget memory disk => some (PveMaster.selectTarget settings memory disk i θ w)
  | .releaseNodeCapacity => some (PveMaster.releaseNodeCapacity settings i θ w)
  | .reserveIp svc poolId requested => some (PveMaster.reserveIp svc poolId requested i θ w)
  | .confirmIp workloadId => some (PveMaster.confirmIp workloadId i θ w)
  | .quarantineIp => some (PveMaster.quarantineIp i θ w)
  | .assignOrganization actor => some (PveMaster.assignOrganization settings actor i θ w)
  | .recordPartialWorkload => some (PveMaster.recordPartialWorkload settings i θ w)
  | .releaseClaim => some ((PveMaster.releaseClaim i θ w).1, (PveMaster.releaseClaim i θ w).2, ())
  | .call r => some (θ, w.logCall (.provisioning θ.requestId) i.answers r, i.answers r)

end PveMaster
