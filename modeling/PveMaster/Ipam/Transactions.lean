import PveMaster.Ipam.Allocations
import PveMaster.Ipam.Statements
import PveMaster.Foundation.Parallel

/-! The calls on addresses, statement by statement.

A row is selected for update before it is changed, but for the address of a reservation that is
confirmed or given up, which is locked by its update at the commit. The automatic choice passes over
the addresses that others have locked. `create_pool` locks no row; the advisory lock it and
`update_pool` take is none. A call that returns without a commit, as `reserve_for_provisioning` does
where the request has an address, keeps its locks until its session ends. -/
namespace PveMaster.Addresses
open Prog IpamService

/-- The rows a call can have locked. -/
inductive IpamRow where
  | pool (id : Uuid)
  | workload (id : Uuid)
  | allocation (id : Uuid)
  | address (id : Uuid)
  deriving DecidableEq

/-! ### Writes -/

/-- What a call says to `add_audit_event`. -/
structure AuditEntry where
  action : String
  targetType : String
  targetId : Uuid
  workloadId : Option Uuid

/-- What a call has added and assigned: a row as it was loaded, and as it is now. The session
writes the columns in which the two differ. -/
structure Edits where
  pool : Option (IpPool × IpPool) := none
  added : Option IpAddress := none
  address : Option (IpAddress × IpAddress) := none
  allocation : Option (IpAllocation × IpAllocation) := none
  allocated : Option IpAllocation := none
  audit : Option AuditEntry := none

/-- The columns of an address that are written, where they differ from what was loaded; all others
stay as they are stored by then. -/
def mergeAddress (loaded current stored : IpAddress) : IpAddress :=
  { stored with
    state := written loaded.state current.state stored.state
    reservedFor := written loaded.reservedFor current.reservedFor stored.reservedFor
    quarantinedUntil := written loaded.quarantinedUntil current.quarantinedUntil stored.quarantinedUntil
    lastAllocatedAt := written loaded.lastAllocatedAt current.lastAllocatedAt stored.lastAllocatedAt
    version := written loaded.version current.version stored.version }

/-- The columns of an allocation that are written, where they differ from what was loaded. -/
def mergeAllocation (loaded current stored : IpAllocation) : IpAllocation :=
  { stored with
    workloadId := written loaded.workloadId current.workloadId stored.workloadId
    status := written loaded.status current.status stored.status
    confirmedAt := written loaded.confirmedAt current.confirmedAt stored.confirmedAt
    releasedAt := written loaded.releasedAt current.releasedAt stored.releasedAt
    releaseReason := written loaded.releaseReason current.releaseReason stored.releaseReason
    version := written loaded.version current.version stored.version }

/-- Of a pool, the choice of an address moves the next offset. -/
def mergeOffset (loaded current stored : IpPool) : IpPool :=
  { stored with nextOffset := written loaded.nextOffset current.nextOffset stored.nextOffset }

/-- The commit of a call: the updates and inserts of its rows, with their constraints. -/
def Edits.apply (w : Edits) (svc : IpamService) (db : Db) : Except Exn Db := do
  let t := match w.pool with
    | some (loaded, current) =>
      { db.ipam with pools := db.ipam.pools.update loaded.id (mergeOffset loaded current) }
    | none => db.ipam
  let t ← match w.added with
    | some address => insertAddress t address
    | none => .ok t
  let t := match w.address with
    | some (loaded, current) => updateAddress t loaded.id (mergeAddress loaded current)
    | none => t
  let t ← match w.allocation with
    | some (loaded, current) => do
      -- a foreign key is checked where its column has changed
      raiseIf (current.workloadId ≠ loaded.workloadId ∧ ∃ id ∈ current.workloadId, db.workloads.get? id = none) .integrity
      Except.ok (updateAllocation t loaded.id (mergeAllocation loaded current))
    | none => .ok t
  let t ← match w.allocated with
    | some allocation => insertAllocation db t allocation
    | none => .ok t
  let db := { db with ipam := t }
  return match w.audit with
    | some a => svc.audit db a.action a.targetType a.targetId a.workloadId
    | none => db

/-- What a transaction hands to its commit. -/
inductive IpamWrite where
  | pool (w : Pools.PoolWrite)
  | edits (svc : IpamService) (w : Edits)
  /-- A new pool, with its excluded ranges. -/
  | create (svc : IpamService) (pool : IpPool) (exclusions : List IpPoolExclusion)

def IpamWrite.apply : IpamWrite → Db → Except Exn Db
  | .pool w, db => w.apply db
  | .edits svc w, db => w.apply svc db
  | .create svc added exclusions, db => do
    let t ← insertPool db.ipam added exclusions
    return svc.audit { db with ipam := t } "IP_POOL_CREATE" "ip_pool" added.id

/-! ### Statements -/

/-- What a call can do at once. The commit is where its updates and inserts reach the others, all
of them together. -/
inductive IpamOp (ρ : Type) where
  | draw (k : Draws → ρ)
  | read (q : Db → ρ)
  | lock (row : IpamRow) (wanted : Db → Bool) (q : Db → ρ)
  /-- `ORDER BY address LIMIT 1 FOR UPDATE SKIP LOCKED`. -/
  | skipLocked (poolId : Uuid) (k : Option IpAddress → ρ)
  | commit (w : IpamWrite) (k : Except Exn Unit → ρ)

abbrev IpamProg (α : Type) := Prog Exn IpamOp α

namespace IpamProg
variable {α : Type}

/-- The clock and the draws of a call. -/
def draw : IpamProg Draws := op (.draw id)
def read (q : Db → α) : IpamProg α := op (.read q)
def lock (row : IpamRow) (wanted : Db → Bool) (q : Db → α) : IpamProg α := op (.lock row wanted q)
def commit (w : IpamWrite) : IpamProg Unit := perform (.commit w id)

end IpamProg
open IpamProg

/-- A commit whose constraints are answered with a conflict, after a rollback. -/
def commitOr (error : AppError) (w : IpamWrite) : IpamProg Unit := do
  match ← attempt (commit w) with
  | .error .integrity => raise (.appFrom error)
  | r => ofExcept r

/-- `_locked_pool`: the row is locked whether or not it turns out to be active. -/
def lockedPool (poolId : Uuid) : IpamProg IpPool := do
  ofExcept (← lock (.pool poolId) (fun db => (db.ipam.pools.get? poolId).isSome)
    fun db => IpamService.lockedPool db.ipam poolId)

/-- The address of a pool, if it is materialised: it is found first and locked then, so it can
have been changed in between, and what counts is the row under the lock. -/
def lockedAddress (poolId : Uuid) (address : Inet) : IpamProg (Option IpAddress) := do
  match ← read fun db => addressRow db.ipam poolId address with
  | none => return none
  | some a =>
    let still (db : Db) : Option IpAddress :=
      (db.ipam.addresses.get? a.id).filter (fun a => a.poolId == poolId && a.address == address)
    lock (.address a.id) (fun db => (still db).isSome) still

/-- The first allocation with a property. It is found first and locked then, and is none if it has
lost the property meanwhile. -/
def lockedAllocation (p : IpAllocation → Bool) : IpamProg (Option IpAllocation) := do
  match ← read fun db => db.ipam.allocations.first p with
  | none => return none
  | some l =>
    let still (db : Db) : Option IpAllocation := (db.ipam.allocations.get? l.id).filter p
    lock (.allocation l.id) (fun db => (still db).isSome) still

/-- `session.get` of the address of an allocation, which is asserted to be there. -/
def addressOf (l : IpAllocation) : IpamProg IpAddress := do
  ofExcept (orRaise (← read fun db => db.ipam.addresses.get? l.ipAddressId) .assertion)

/-- The pool of an address, read without a lock. -/
def poolOf (a : IpAddress) : IpamProg IpPool := do
  ofExcept (orRaise (← read fun db => db.ipam.pools.get? a.poolId) .assertion)

/-- The lock that the update of an address takes at its flush, where the row was not selected for
update before. -/
def touch (a : IpAddress) : IpamProg Unit :=
  lock (.address a.id) (fun db => (db.ipam.addresses.get? a.id).isSome) fun _ => ()

/-! ### A new pool -/

/-- `create_pool`, statement by statement. The advisory lock it takes before its check for
overlaps is no row, and is not among the locks here. -/
def createPool (svc : IpamService) (payload : IpPoolCreate) : IpamProg PoolResponse := do
  let network ← ofExcept (network payload.cidr)
  ofExcept (gatewayInside payload.gateway network)
  ofExcept (← read fun db => knownCluster db payload.clusterId)
  ofExcept (excludedInside network payload.excludedRanges)
  ofExcept (dnsFamily payload.dnsServers network)
  let overlaps ← read fun db => overlapsExisting db.ipam none payload.clusterId network
  ofExcept (raiseIf (overlaps = true) poolOverlap)
  let draws ← draw
  let pool := svc.newPool payload network draws
  commitOr ⟨409, "IP_POOL_CONFLICT", "The IP pool already exists.", []⟩
    (.create svc pool (exclusionRows pool.id payload.excludedRanges draws))
  read fun db => poolResponse db.ipam pool network payload.gateway payload.dnsServers

/-! ### Reserving and taking -/

/-- `reserve_address`, statement by statement: the pool first, then the address. -/
def reserveAddress (svc : IpamService) (poolId : Uuid) (address : Address) (reason : String) :
    IpamProg AddressResponse := do
  let pool ← lockedPool poolId
  let candidate ← ofExcept (validatedCandidate pool address)
  match ← lockedAddress pool.id candidate.inet with
  | some existing =>
    ofExcept (raiseIf (existing.state ≠ .available) (.app addressUnavailable))
    let item := disabled reason existing
    commit (.edits svc
      { address := some (existing, item)
        audit := some ⟨"IP_ADDRESS_EXCLUDE", "ip_address", item.id, none⟩ })
    return addressResponse item existing.address.address none
  | none =>
    let draws ← draw
    let item := disabled reason (availableAddress (draws.uuid 0) pool.id candidate.inet)
    commit (.edits svc
      { added := some item
        audit := some ⟨"IP_ADDRESS_EXCLUDE", "ip_address", item.id, none⟩ })
    return addressResponse item candidate none

/-- An address that has been chosen: how the pool has moved, and whether it is a new row. -/
structure Choice where
  pool : IpPool
  address : IpAddress
  fresh : Bool

/-- A new address is flushed, and its constraints are raised as they come. -/
def flushed (pool : IpPool) (address : IpAddress) : IpamProg Choice := do
  let inserted ← read fun db => insertAddress db.ipam address
  discard (ofExcept inserted)
  return ⟨pool, address, true⟩

/-- `_automatic_candidate`: the least free address that nobody else has locked, or a new one. The
second is safe since all who add rows have locked the pool. -/
def automaticCandidate (pool : IpPool) : IpamProg Choice := do
  match ← op (.skipLocked pool.id id) with
  | some available => return ⟨pool, available, false⟩
  | none => do
    let draws ← draw
    -- the exclusions and the materialised addresses, which change under the lock of the pool only
    let offset ← read fun db => chosenOffset db.ipam pool draws.random
    let offset ← ofExcept (orRaise offset
      (.app ⟨409, "IP_POOL_EXHAUSTED", "No allocatable IP address remains in the pool.", []⟩))
    let candidate ← ofExcept (addressAt pool.cidr.toNetwork offset)
    flushed (movedOffset ((offset + 1) % pool.cidr.numAddresses) pool) (availableAddress (draws.uuid 0) pool.id candidate)

/-- The named address, under its lock, or an automatic one. -/
def candidateAddress (pool : IpPool) (requested : Option Address) : IpamProg Choice := do
  match requested with
  | none => automaticCandidate pool
  | some requested => do
    let candidate ← ofExcept (validatedCandidate pool requested)
    let excluded ← read fun db => isExcluded db.ipam pool.id candidate
    ofExcept (raiseIf (excluded = true)
      (.app ⟨409, "IP_ADDRESS_EXCLUDED", "The IP address is excluded.", []⟩))
    match ← lockedAddress pool.id candidate.inet with
    | some address => return ⟨pool, address, false⟩
    | none => do
      let draws ← draw
      flushed pool (availableAddress (draws.uuid 0) pool.id candidate.inet)

/-- The workload an address is for. -/
def lockedWorkload (workloadId : Uuid) : IpamProg Workload := do
  let present (db : Db) : Option Workload := db.workloads.first (fun w => w.id == workloadId && w.isPresent)
  ofExcept (orRaise (← lock (.workload workloadId) (fun db => (present db).isSome) present)
    (.app ⟨404, "WORKLOAD_NOT_FOUND", "The workload was not found.", []⟩))

/-- `allocate`, statement by statement: the pool, the workload and the address are locked in this
order. -/
def allocate (svc : IpamService) (poolId workloadId : Uuid) (requestedAddress : Option Address) :
    IpamProg AllocationResponse := do
  let pool ← lockedPool poolId
  let workload ← lockedWorkload workloadId
  ofExcept (raiseIf (∃ c ∈ pool.clusterId, workload.clusterId ≠ c)
    (.app ⟨409, "IP_POOL_CLUSTER_MISMATCH", "The workload is in another cluster.", []⟩))
  let choice ← candidateAddress pool requestedAddress
  let address := choice.address
  ofExcept (raiseIf (address.state ≠ .available) (.app addressUnavailable))
  let draws ← draw
  let allocation : IpAllocation :=
    { id := draws.uuid 1
      ipAddressId := address.id
      workloadId := some workload.id
      provisioningRequestId := none
      kind := allocationKind requestedAddress
      status := .assigned
      allocatedById := svc.principal.userId
      allocatedAt := draws.serverNow
      confirmedAt := some draws.now
      releasedAt := none
      releaseReason := none
      version := 1 }
  commitOr addressUnavailable (.edits svc
    { pool := some (pool, choice.pool)
      added := if choice.fresh then some address else none
      address := some (address, assigned draws.now address)
      allocated := some allocation
      audit := some ⟨"IP_ALLOCATE", "ip_allocation", allocation.id, some workload.id⟩ })
  ofExcept (allocationResponse allocation (assigned draws.now address)
    (shownAddress address requestedAddress choice.fresh) pool)

/-- `reserve_for_provisioning`, statement by statement. Where the request has an address already
there is no commit, and the lock of the pool stays until the session ends. -/
def reserveForProvisioning (svc : IpamService) (poolId provisioningRequestId : Uuid)
    (requestedAddress : Option Address) : IpamProg (IpAddress × IpAllocation) := do
  let pool ← lockedPool poolId
  match ← read fun db => requestAllocation db.ipam provisioningRequestId [.reserved, .assigned] with
  | some existing =>
    let address ← addressOf existing
    return (address, existing)
  | none =>
    let choice ← candidateAddress pool requestedAddress
    let address := choice.address
    ofExcept (raiseIf (address.state ≠ .available) (.app addressUnavailable))
    let draws ← draw
    let allocation : IpAllocation :=
      { id := draws.uuid 1
        ipAddressId := address.id
        workloadId := none
        provisioningRequestId := some provisioningRequestId
        kind := allocationKind requestedAddress
        status := .reserved
        allocatedById := svc.principal.userId
        allocatedAt := draws.serverNow
        confirmedAt := none
        releasedAt := none
        releaseReason := none
        version := 1 }
    commitOr addressUnavailable (.edits svc
      { pool := some (pool, choice.pool)
        added := if choice.fresh then some address else none
        address := some (address, reserved draws.now address)
        allocated := some allocation })
    return (reserved draws.now address, allocation)

/-! ### Confirming and releasing -/

/-- The allocation of a request with one of these statuses. -/
def ofRequest (requestId : Uuid) (status : IpAllocationStatus) (l : IpAllocation) : Bool :=
  l.provisioningRequestId == some requestId && l.status == status

/-- `confirm_provisioning_ip`, statement by statement: the allocation is locked, its address only
by its update. -/
def confirmProvisioningIp (svc : IpamService) (provisioningRequestId workloadId : Uuid) : IpamProg Unit := do
  match ← lockedAllocation (ofRequest provisioningRequestId .reserved) with
  | none =>
    let already ← read fun db => db.ipam.allocations.first (ofRequest provisioningRequestId .assigned)
    ofExcept (raiseIf (already = none)
      (.app ⟨409, "IP_RESERVATION_MISSING", "The provisioning IP reservation is missing.", []⟩))
  | some allocation =>
    let address ← addressOf allocation
    let draws ← draw
    touch address
    commit (.edits svc
      { address := some (address, confirmedAddress address)
        allocation := some (allocation, confirmed workloadId draws.now allocation) })

/-- `quarantine_provisioning_ip`, statement by statement. -/
def quarantineProvisioningIp (svc : IpamService) (provisioningRequestId : Uuid) : IpamProg Unit := do
  match ← lockedAllocation (ofRequest provisioningRequestId .reserved) with
  | none => return ()
  | some allocation =>
    let address ← addressOf allocation
    let pool ← poolOf address
    let draws ← draw
    touch address
    commit (.edits svc
      { address := some (address, quarantinedAddress pool draws.now address)
        allocation := some (allocation,
          quarantinedAllocation "Provisioning failed before clone completion" draws.now allocation) })

/-- `release`, statement by statement: the allocation before its address. -/
def release (svc : IpamService) (allocationId : Uuid) (reason : String) : IpamProg AllocationResponse := do
  let allocation ← lock (.allocation allocationId) (fun db => (db.ipam.allocations.get? allocationId).isSome)
    fun db => db.ipam.allocations.get? allocationId
  let allocation ← ofExcept (orRaise allocation
    (.app ⟨404, "IP_ALLOCATION_NOT_FOUND", "The IP allocation was not found.", []⟩))
  let address ← lock (.address allocation.ipAddressId) (fun db => (db.ipam.addresses.get? allocation.ipAddressId).isSome)
    fun db => db.ipam.addresses.get? allocation.ipAddressId
  let address ← ofExcept (orRaise address .assertion)
  let pool ← poolOf address
  if allocation.status = .released ∨ allocation.status = .quarantined then
    ofExcept (allocationResponse allocation address address.address.address pool)
  else do
    let draws ← draw
    let released := quarantinedAllocation reason draws.now allocation
    let rested := quarantinedAddress pool draws.now address
    commit (.edits svc
      { address := some (address, rested)
        allocation := some (allocation, released)
        audit := some ⟨"IP_RELEASE_TO_QUARANTINE", "ip_allocation", allocation.id, none⟩ })
    ofExcept (allocationResponse released rested address.address.address pool)

/-- `approve_release`, statement by statement: the address before its allocation, the other way
round than everywhere else. -/
def approveRelease (svc : IpamService) (addressId : Uuid) : IpamProg AddressResponse := do
  let address ← lock (.address addressId) (fun db => (db.ipam.addresses.get? addressId).isSome)
    fun db => db.ipam.addresses.get? addressId
  let address ← ofExcept (orRaise address
    (.app ⟨404, "IP_ADDRESS_NOT_FOUND", "The IP address was not found.", []⟩))
  ofExcept (raiseIf (address.state ≠ .quarantined)
    (.app ⟨409, "IP_ADDRESS_NOT_QUARANTINED", "The address is not quarantined.", []⟩))
  let draws ← draw
  ofExcept (raiseIf (∃ deadline ∈ address.quarantinedUntil, deadline > draws.now)
    (.app ⟨409, "IP_QUARANTINE_ACTIVE", "The quarantine period has not elapsed.", []⟩))
  let allocation ← lockedAllocation (fun l => l.ipAddressId == address.id && l.status == .quarantined)
  let allocation ← ofExcept (orRaise allocation
    (.app ⟨409, "IP_ALLOCATION_STATE_INVALID", "No quarantined allocation exists.", []⟩))
  discard (poolOf address)
  commit (.edits svc
    { address := some (address, freedAddress address)
      allocation := some (allocation, releasedAllocation allocation)
      audit := some ⟨"IP_RELEASE_APPROVE", "ip_address", address.id, none⟩ })
  return addressResponse (freedAddress address) address.address.address none

/-! ### Requests -/

/-- A call on a pool, as one of these. -/
def ofPoolStatement {ρ : Type} : Pools.PoolStatement ρ → IpamOp ρ
  | .read q => .read (q ())
  | .lock row wanted q => .lock (.pool row) wanted q
  | .commit w k => .commit (.pool w) k
  | .call _ k => .read fun _ => k ()
  | .answer _ k => .read fun _ => k ()

/-- The calls that write, as requests a transaction serves. -/
inductive IpamRequest where
  | createPool (payload : IpPoolCreate)
  | pool (request : Pools.PoolRequest)
  | reserveAddress (poolId : Uuid) (address : Address) (reason : String)
  | allocate (poolId workloadId : Uuid) (requestedAddress : Option Address)
  | reserveForProvisioning (poolId provisioningRequestId : Uuid) (requestedAddress : Option Address)
  | confirmProvisioningIp (provisioningRequestId workloadId : Uuid)
  | quarantineProvisioningIp (provisioningRequestId : Uuid)
  | release (allocationId : Uuid) (reason : String)
  | approveRelease (addressId : Uuid)

/-- A request, with the principal the service is built for. -/
structure IpamMessage where
  svc : IpamService
  request : IpamRequest

def IpamMessage.program (m : IpamMessage) : IpamProg Unit :=
  match m.request with
  | .createPool payload => discard (createPool m.svc payload)
  | .pool request => (Pools.PoolMessage.program ⟨m.svc, request⟩).rename ofPoolStatement
  | .reserveAddress poolId address reason => discard (reserveAddress m.svc poolId address reason)
  | .allocate poolId workloadId requestedAddress => discard (allocate m.svc poolId workloadId requestedAddress)
  | .reserveForProvisioning poolId requestId requestedAddress =>
    discard (reserveForProvisioning m.svc poolId requestId requestedAddress)
  | .confirmProvisioningIp requestId workloadId => confirmProvisioningIp m.svc requestId workloadId
  | .quarantineProvisioningIp requestId => quarantineProvisioningIp m.svc requestId
  | .release allocationId reason => discard (release m.svc allocationId reason)
  | .approveRelease addressId => discard (approveRelease m.svc addressId)

/-- The committed rows with their locks. -/
abbrev IpamStore := Store Db IpamRow IpamWrite IpamMessage

/-- The addresses that others than a transaction have not locked: what `SKIP LOCKED` lets it see.
-/
def IpamStore.unlocked (s : IpamStore) (x : Nat) : IpamTables :=
  { s.db.ipam with addresses := s.db.ipam.addresses.restrict fun a => (s.holder (.address a.id)).all (· == x) }

/-- The calls as processes. A statement that asks for a row another transaction holds waits; the
choice with `SKIP LOCKED` never does. -/
def ipamMachine : Machine Exn IpamOp (Transaction IpamMessage Unit) IpamStore Draws (Nat × IpamMessage) where
  exec o i θ s :=
    match o with
    | .draw k => some (θ, s, k i)
    | .read q => some (θ, s, q s.db)
    | .lock row wanted q =>
      match s.holder row with
      | some y => if y = θ.xid then some (θ, s, q s.db) else none
      | none => some (θ, if wanted s.db then s.take row θ.xid else s, q s.db)
    | .skipLocked poolId k =>
      match leastAvailable (IpamStore.unlocked s θ.xid) poolId with
      | some a => some (θ, s.take (.address a.id) θ.xid, k (some a))
      | none => some (θ, s, k none)
    | .commit w k =>
      match w.apply s.db with
      | .ok db => some (θ, s.commit db ⟨θ.xid, θ.request, w⟩, k (.ok ()))
      | .error e => some (θ, s.release θ.xid, k (.error e))
  start m := (⟨m.1, m.2, none⟩, m.2.program)
  drop θ s := s.release θ.xid

end PveMaster.Addresses
