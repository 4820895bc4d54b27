import PveMaster.Ipam.Service

/-! Addresses and allocations: reserving, allocating, confirming, quarantining and
releasing.

Each call writes an address row and its allocation row in one transaction. The
helpers `taken`, `confirmed`, `quarantined` and `freed` are the columns the
source sets. -/
namespace PveMaster.IpamService

def updateAddress (t : IpamTables) (id : Uuid) (f : IpAddress → IpAddress) : IpamTables :=
  { t with addresses := t.addresses.update id f }

def updateAllocation (t : IpamTables) (id : Uuid) (f : IpAllocation → IpAllocation) : IpamTables :=
  { t with allocations := t.allocations.update id f }

/-- An inserted `IpAllocation` row, with its key, its two partial unique indexes and
the foreign key of its provisioning request. -/
def insertAllocation (db : Db) (t : IpamTables) (l : IpAllocation) : Except Exn IpamTables := do
  raiseIf (∃ id ∈ l.provisioningRequestId, db.requests.get? id = none) .integrity
  let allocations ← orRaise (t.allocations.insert l) .integrity
  raiseIf (¬ (UqActiveAddress allocations ∧ UqActiveProvisioningRequest allocations)) .integrity
  return { t with allocations := allocations }

/-! ### Reserving an address for good -/

/-- What `reserve_address` writes on a row. -/
def disabled (reason : String) (a : IpAddress) : IpAddress :=
  { a with state := .disabled, reservedFor := some reason, quarantinedUntil := none }

/-- `reserve_address`: an address is taken out of the pool for good. No call takes the row back
from `DISABLED`. -/
def reserveAddress (svc : IpamService) (db : Db) (poolId : Uuid) (address : Address)
    (reason : String) (draws : Draws) : Outcome AddressResponse :=
  .of db do
    let t := db.ipam
    let pool ← lockedPool t poolId
    let candidate ← validatedCandidate pool address
    match addressRow t pool.id candidate.inet with
    | some existing =>
      raiseIf (existing.state ≠ .available) (.app addressUnavailable)
      let t := updateAddress t existing.id (disabled reason)
      return ⟨svc.audit { db with ipam := t } "IP_ADDRESS_EXCLUDE" "ip_address" existing.id,
        .ok (addressResponse (disabled reason existing) existing.address.address none)⟩
    | none =>
      let item := disabled reason (availableAddress (draws.uuid 0) pool.id candidate.inet)
      let t ← insertAddress t item
      return ⟨svc.audit { db with ipam := t } "IP_ADDRESS_EXCLUDE" "ip_address" item.id,
        .ok (addressResponse item candidate none)⟩

/-! ### Taking an address -/

/-- `MANUAL` when an address was named, `AUTOMATIC` when the pool chose one. -/
def allocationKind (requested : Option Address) : IpAllocationKind :=
  if requested.isSome then .manual else .automatic

/-- What `allocate` writes on the address. -/
def assigned (now : Instant) (a : IpAddress) : IpAddress :=
  { a with
    state := .assigned
    lastAllocatedAt := some now
    quarantinedUntil := none
    reservedFor := none
    version := a.version + 1 }

/-- What `reserve_for_provisioning` writes on the address. -/
def reserved (now : Instant) (a : IpAddress) : IpAddress :=
  { a with state := .reserved, lastAllocatedAt := some now, version := a.version + 1 }

/-- The literal an address object shows: a new row keeps the caller's, scope id and all, until it
is read back. -/
def shownAddress (a : IpAddress) (requested : Option Address) (fresh : Bool) : Address :=
  if fresh then requested.getD a.address.address else a.address.address

/-- `allocate`: a workload that is present is given an address of a pool of its cluster, or of a
pool of all clusters. -/
def allocate (svc : IpamService) (db : Db) (poolId workloadId : Uuid)
    (requestedAddress : Option Address) (draws : Draws) : Outcome AllocationResponse :=
  .of db do
    let pool ← lockedPool db.ipam poolId
    let workload ← orRaise (db.workloads.first (fun w => w.id == workloadId && w.isPresent))
      (.app ⟨404, "WORKLOAD_NOT_FOUND", "The workload was not found.", []⟩)
    raiseIf (∃ c ∈ pool.clusterId, workload.clusterId ≠ c)
      (.app ⟨409, "IP_POOL_CLUSTER_MISMATCH", "The workload is in another cluster.", []⟩)
    let (t, address) ← candidateAddress db.ipam pool requestedAddress draws
    raiseIf (address.state ≠ .available) (.app addressUnavailable)
    let allocation : IpAllocation :=
      { id := draws.uuid 1
        ipAddressId := address.id
        workloadId := some workload.id
        provisioningRequestId := none
        kind := allocationKind requestedAddress
        status := .assigned
        allocatedById := svc.principal.userId
        allocatedAt := draws.serverNow
        confirmedAt := some draws.now
        releasedAt := none
        releaseReason := none
        version := 1 }
    let t ← onIntegrity addressUnavailable
      (insertAllocation db (updateAddress t address.id (assigned draws.now)) allocation)
    let fresh := decide (db.ipam.addresses.get? address.id = none)
    return ⟨svc.audit { db with ipam := t } "IP_ALLOCATE" "ip_allocation" allocation.id
        (some workload.id),
      allocationResponse allocation (assigned draws.now address)
        (shownAddress address requestedAddress fresh) pool⟩

/-- The allocation of a request with one of the given statuses. There is at most one of them that
is active. -/
def requestAllocation (t : IpamTables) (requestId : Uuid) (statuses : List IpAllocationStatus) :
    Option IpAllocation :=
  t.allocations.first (fun l => l.provisioningRequestId == some requestId && statuses.contains l.status)

/-- `reserve_for_provisioning`: a request that holds an address already is given that one again,
so a step that is repeated takes no second one. -/
def reserveForProvisioning (svc : IpamService) (db : Db) (poolId provisioningRequestId : Uuid)
    (requestedAddress : Option Address) (draws : Draws) : Outcome (IpAddress × IpAllocation) :=
  .of db do
    let pool ← lockedPool db.ipam poolId
    match requestAllocation db.ipam provisioningRequestId [.reserved, .assigned] with
    | some existing =>
      let address ← orRaise (db.ipam.addresses.get? existing.ipAddressId) .assertion
      return ⟨db, .ok (address, existing)⟩
    | none =>
      let (t, address) ← candidateAddress db.ipam pool requestedAddress draws
      raiseIf (address.state ≠ .available) (.app addressUnavailable)
      let allocation : IpAllocation :=
        { id := draws.uuid 1
          ipAddressId := address.id
          workloadId := none
          provisioningRequestId := some provisioningRequestId
          kind := allocationKind requestedAddress
          status := .reserved
          allocatedById := svc.principal.userId
          allocatedAt := draws.serverNow
          confirmedAt := none
          releasedAt := none
          releaseReason := none
          version := 1 }
      let t ← onIntegrity addressUnavailable
        (insertAllocation db (updateAddress t address.id (reserved draws.now)) allocation)
      return ⟨{ db with ipam := t }, .ok (reserved draws.now address, allocation)⟩

/-! ### Confirming a reservation -/

/-- What `confirm_provisioning_ip` writes on the allocation. -/
def confirmed (workloadId : Uuid) (now : Instant) (l : IpAllocation) : IpAllocation :=
  { l with
    workloadId := some workloadId
    status := .assigned
    confirmedAt := some now
    version := l.version + 1 }

/-- What it writes on the address. -/
def confirmedAddress (a : IpAddress) : IpAddress :=
  { a with state := .assigned, version := a.version + 1 }

/-- `confirm_provisioning_ip`: the reserved address goes over to the workload that was made.
Called again, it finds it done. -/
def confirmProvisioningIp (db : Db) (provisioningRequestId workloadId : Uuid) (draws : Draws) :
    Outcome Unit :=
  .of db do
    match requestAllocation db.ipam provisioningRequestId [.reserved] with
    | none =>
      match requestAllocation db.ipam provisioningRequestId [.assigned] with
      | some _ => return ⟨db, .ok ()⟩
      | none => .error (.app ⟨409, "IP_RESERVATION_MISSING",
          "The provisioning IP reservation is missing.", []⟩)
    | some allocation =>
      let address ← orRaise (db.ipam.addresses.get? allocation.ipAddressId) .assertion
      raiseIf (db.workloads.get? workloadId = none) .integrity
      let t := updateAddress (updateAllocation db.ipam allocation.id (confirmed workloadId draws.now))
        address.id confirmedAddress
      return ⟨{ db with ipam := t }, .ok ()⟩

/-! ### Quarantine and release -/

/-- What goes on an allocation that enters quarantine. -/
def quarantinedAllocation (reason : String) (now : Instant) (l : IpAllocation) : IpAllocation :=
  { l with
    status := .quarantined
    releasedAt := some now
    releaseReason := some reason
    version := l.version + 1 }

/-- What goes on its address. -/
def quarantinedAddress (pool : IpPool) (now : Instant) (a : IpAddress) : IpAddress :=
  { a with
    state := .quarantined
    quarantinedUntil := some (now + pool.quarantineSeconds * second)
    version := a.version + 1 }

/-- Both rows of an allocation that enters quarantine, in one transaction. The rest ends at a time
that is written down here, whatever becomes of the pool's setting later. -/
def quarantine (t : IpamTables) (l : IpAllocation) (a : IpAddress) (pool : IpPool)
    (reason : String) (now : Instant) : IpamTables :=
  updateAddress (updateAllocation t l.id (quarantinedAllocation reason now)) a.id
    (quarantinedAddress pool now)

/-- `quarantine_provisioning_ip`: a failed request gives its address back, by way of quarantine.
Where it holds none, nothing happens. -/
def quarantineProvisioningIp (db : Db) (provisioningRequestId : Uuid) (draws : Draws) :
    Outcome Unit :=
  .of db do
    match requestAllocation db.ipam provisioningRequestId [.reserved] with
    | none => return ⟨db, .ok ()⟩
    | some allocation =>
      let address ← orRaise (db.ipam.addresses.get? allocation.ipAddressId) .assertion
      let pool ← orRaise (db.ipam.pools.get? address.poolId) .assertion
      let t := quarantine db.ipam allocation address pool
        "Provisioning failed before clone completion" draws.now
      return ⟨{ db with ipam := t }, .ok ()⟩

/-- `release`: an allocation in use enters quarantine. Called again, it changes nothing, and
neither the deadline nor the reason is written anew. -/
def release (svc : IpamService) (db : Db) (allocationId : Uuid) (reason : String) (draws : Draws) :
    Outcome AllocationResponse :=
  .of db do
    let allocation ← orRaise (db.ipam.allocations.get? allocationId)
      (.app ⟨404, "IP_ALLOCATION_NOT_FOUND", "The IP allocation was not found.", []⟩)
    let address ← orRaise (db.ipam.addresses.get? allocation.ipAddressId) .assertion
    let pool ← orRaise (db.ipam.pools.get? address.poolId) .assertion
    if allocation.status = .released ∨ allocation.status = .quarantined then
      return ⟨db, allocationResponse allocation address address.address.address pool⟩
    else
      let t := quarantine db.ipam allocation address pool reason draws.now
      return ⟨svc.audit { db with ipam := t } "IP_RELEASE_TO_QUARANTINE" "ip_allocation" allocation.id,
        allocationResponse (quarantinedAllocation reason draws.now allocation)
          (quarantinedAddress pool draws.now address) address.address.address pool⟩

/-- What `approve_release` writes on the address. -/
def freedAddress (a : IpAddress) : IpAddress :=
  { a with state := .available, quarantinedUntil := none, version := a.version + 1 }

/-- What `approve_release` writes on the allocation. -/
def releasedAllocation (l : IpAllocation) : IpAllocation :=
  { l with status := .released, version := l.version + 1 }

/-- `approve_release`: an address goes back to the pool when its quarantine is over. -/
def approveRelease (svc : IpamService) (db : Db) (addressId : Uuid) (draws : Draws) :
    Outcome AddressResponse :=
  .of db do
    let address ← orRaise (db.ipam.addresses.get? addressId)
      (.app ⟨404, "IP_ADDRESS_NOT_FOUND", "The IP address was not found.", []⟩)
    raiseIf (address.state ≠ .quarantined)
      (.app ⟨409, "IP_ADDRESS_NOT_QUARANTINED", "The address is not quarantined.", []⟩)
    raiseIf (∃ deadline ∈ address.quarantinedUntil, deadline > draws.now)
      (.app ⟨409, "IP_QUARANTINE_ACTIVE", "The quarantine period has not elapsed.", []⟩)
    let allocation ← orRaise
      (db.ipam.allocations.first (fun l => l.ipAddressId == address.id && l.status == .quarantined))
      (.app ⟨409, "IP_ALLOCATION_STATE_INVALID", "No quarantined allocation exists.", []⟩)
    let _ ← orRaise (db.ipam.pools.get? address.poolId) .assertion
    let t := updateAddress (updateAllocation db.ipam allocation.id releasedAllocation) address.id
      freedAddress
    return ⟨svc.audit { db with ipam := t } "IP_RELEASE_APPROVE" "ip_address" address.id,
      .ok (addressResponse (freedAddress address) address.address.address none)⟩

end PveMaster.IpamService
