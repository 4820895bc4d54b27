import PveMaster.Database
import PveMaster.Ipam.Offsets

/-! What the calls of `IpamService` share: the principal it is built for, the pool
lock, the checks on a candidate address, the automatic choice of one, and the
responses.

A call is one transaction. It either leaves the database as it was and raises, or
commits once (`Outcome`); what it raises after its commit is part of the outcome.
A constraint that fails while a new address is flushed is raised as it comes; one
that fails in a commit the source guards becomes an `AppError`. -/
namespace PveMaster

/-- The service exists for a super administrator only: its constructor refuses every other
principal, so its calls need no check of their own. -/
structure IpamService where
  principal : Principal
  superAdmin : principal.role = .superAdmin

/-- What a call takes from outside: the clock, the server's `now()`, the `uuid4` results in the
order they are drawn, and the random generator. The clock of the application and that of the
database are two. -/
structure Draws where
  now : Instant
  serverNow : Instant
  uuid : Nat → Uuid
  random : Nat → Nat

/-- What a call leaves committed, and what it returns or raises. The two are apart, since a call
can raise after its commit. -/
structure Outcome (α : Type) where
  db : Db
  result : Except Exn α

/-- A transaction that raises before its commit leaves nothing behind. -/
def Outcome.of {α : Type} (db : Db) : Except Exn (Outcome α) → Outcome α
  | .ok o => o
  | .error e => ⟨db, .error e⟩

theorem Outcome.of_cases {α : Type} {db : Db} {x : Except Exn (Outcome α)} {P : Db → Prop}
    (unchanged : P db) (committed : ∀ o, x = .ok o → P o.db) : P (Outcome.of db x).db := by
  cases x with
  | error e => exact unchanged
  | ok o => exact committed o rfl

/-- The same for the outcome as a whole. -/
theorem Outcome.of_elim {α : Type} {db : Db} {x : Except Exn (Outcome α)} {P : Outcome α → Prop}
    (raised : ∀ e, P ⟨db, .error e⟩) (committed : ∀ o, x = .ok o → P o) : P (Outcome.of db x) := by
  cases x with
  | error e => exact raised e
  | ok o => exact committed o rfl

namespace IpamService

/-- `__init__`, which is where the role is checked. -/
def create (principal : Principal) : Except Exn IpamService :=
  if h : principal.role = .superAdmin then .ok ⟨principal, h⟩ else .error (.app forbidden)

/-! ### Errors -/

def invalid (code message : String) : Exn := .app ⟨422, code, message, []⟩

def poolNotFound : Exn := .app ⟨404, "IP_POOL_NOT_FOUND", "The IP pool was not found.", []⟩
def clusterNotFound : Exn := .app ⟨404, "CLUSTER_NOT_FOUND", "The cluster was not found.", []⟩
def addressUnavailable : AppError :=
  ⟨409, "IP_ADDRESS_UNAVAILABLE", "The IP address is not available.", []⟩
def poolOverlap : Exn :=
  .app ⟨409, "IP_POOL_OVERLAP", "The CIDR overlaps an existing pool in the same scope.", []⟩

/-! ### Audit -/

/-- `add_audit_event` as this service calls it: a row behind all others, in the transaction of the
call. -/
def audit (svc : IpamService) (db : Db) (action targetType : String) (targetId : Uuid)
    (workloadId : Option Uuid := none) : Db :=
  { db with auditLogs := db.auditLogs ++
      [{ action := action
         outcome := .succeeded
         actorUserId := some svc.principal.userId
         actorRole := some svc.principal.role
         organizationId := none
         workloadId := workloadId
         operationId := none
         pveUpid := none
         resourceType := targetType
         resourceId := some targetId
         errorCode := none }] }

@[simp] theorem audit_ipam (svc : IpamService) (db : Db) (action targetType : String)
    (targetId : Uuid) (workloadId : Option Uuid) :
    (svc.audit db action targetType targetId workloadId).ipam = db.ipam := rfl

/-! ### Checks -/

/-- `_network`: the text was parsed by `ip_network(.., strict=False)`. -/
def network (value : Option Network) : Except Exn Network :=
  orRaise value (invalid "INVALID_CIDR" "The CIDR is invalid.")

/-- `_locked_pool`: an active pool, selected for update. An inactive one is answered as one that
is not there. -/
def lockedPool (t : IpamTables) (poolId : Uuid) : Except Exn IpPool := do
  let pool ← orRaise (t.pools.get? poolId) poolNotFound
  raiseIf (pool.isActive = false) poolNotFound
  return pool

/-- `_exclusion_bounds`: the excluded ranges of a pool, by their numeric ends. -/
def exclusionBounds (t : IpamTables) (poolId : Uuid) : List (Int × Int) :=
  (t.exclusions.select (fun e => e.poolId == poolId)).map
    (fun e => (e.startAddress.ip, e.endAddress.ip))

/-- `_is_excluded`: a range of the pool holds the address, both ends included. -/
def isExcluded (t : IpamTables) (poolId : Uuid) (address : Address) : Bool :=
  (exclusionBounds t poolId).any (fun b => b.1 ≤ address.ip ∧ address.ip ≤ b.2)

/-- `_special`: the network's own address, the broadcast address of IPv4, and the gateway. The
comparisons are those of address objects, so an IPv6 literal with a scope id equals none of the
stored addresses. -/
def special (pool : IpPool) (candidate : Address) : Bool :=
  candidate == pool.cidr.networkAddress ||
    (pool.cidr.version == .v4 && candidate.ip == pool.cidr.broadcast) ||
    pool.gateway.map Inet.address == some candidate

/-- `_validated_candidate` with `allow_special=False`, as every caller has it. -/
def validatedCandidate (pool : IpPool) (candidate : Address) : Except Exn Address := do
  raiseIf (candidate.version ≠ pool.cidr.version ∨ pool.cidr.contains candidate = false)
    (invalid "IP_OUTSIDE_POOL" "The IP address is outside the pool CIDR.")
  raiseIf (special pool candidate = true)
    (.app ⟨409, "IP_ADDRESS_EXCLUDED", "The IP address is reserved by the network.", []⟩)
  return candidate

/-! ### New addresses -/

/-- A flushed `IpAddress` row. The primary key and `(pool_id, address)` are unique; what fails
there is raised as it comes. -/
def insertAddress (t : IpamTables) (a : IpAddress) : Except Exn IpamTables := do
  let addresses ← orRaise (t.addresses.insert a) .integrity
  raiseIf (¬ AddressesUnique addresses) .integrity
  return { t with addresses := addresses }

/-- The row of an address that has not been touched before. -/
def availableAddress (id poolId : Uuid) (address : Inet) : IpAddress where
  id := id
  poolId := poolId
  address := address
  state := .available
  reservedFor := none
  quarantinedUntil := none
  lastAllocatedAt := none
  version := 1

/-- The row of `(pool_id, address)`. -/
def addressRow (t : IpamTables) (poolId : Uuid) (address : Inet) : Option IpAddress :=
  t.addresses.first (fun a => a.poolId == poolId && a.address == address)

/-- `ORDER BY address`: `INET` sorts IPv4 before IPv6, then numerically. -/
def inetLe (v w : Inet) : Bool :=
  match v.version, w.version with
  | .v4, .v6 => true
  | .v6, .v4 => false
  | _, _ => v.ip ≤ w.ip

/-- The least `AVAILABLE` address of the pool. -/
def leastAvailable (t : IpamTables) (poolId : Uuid) : Option IpAddress :=
  (t.addresses.select (fun a => a.poolId == poolId && a.state == .available)).foldl
    (fun best a => match best with
      | none => some a
      | some b => if inetLe b.address a.address then some b else some a) none

/-- The intervals of offsets an automatic choice avoids. -/
def blockedOffsets (t : IpamTables) (pool : IpPool) : List (Int × Int) :=
  let base : Int := pool.cidr.base
  let last : Int := pool.cidr.numAddresses - 1
  (exclusionBounds t pool.id).map (fun b => (max 0 (b.1 - base), min last (b.2 - base))) ++
    (t.addresses.select (fun a => a.poolId == pool.id)).map
      (fun a => ((a.address.ip : Int) - base, (a.address.ip : Int) - base)) ++
    [(0, 0)] ++ (if pool.cidr.version = .v4 then [(last, last)] else []) ++
    (match pool.gateway with
      | some g => [((g.ip : Int) - base, (g.ip : Int) - base)]
      | none => [])

/-- The `RANDOM` strategy's draws, from the `i`-th on, `n` at most. -/
def randomOffset (size : Nat) (blocked : List (Int × Int)) (random : Nat → Nat) :
    Nat → Nat → Option Nat
  | _, 0 => none
  | i, n + 1 =>
    let o := random i % size
    if blocked.any (fun b => b.1 ≤ (o : Int) ∧ (o : Int) ≤ b.2) then
      randomOffset size blocked random (i + 1) n
    else some o

/-- The offset an automatic choice takes in a pool without an `AVAILABLE` row. -/
def chosenOffset (t : IpamTables) (pool : IpPool) (random : Nat → Nat) : Option Nat :=
  let size := pool.cidr.numAddresses
  let blocked := blockedOffsets t pool
  let drawn := if pool.allocationStrategy = .random ∧ 2 < size then
    randomOffset size blocked random 0 1024 else none
  drawn.or ((Ipam.firstFreeOffset size pool.nextOffset blocked).map Int.toNat)

/-- `network.network_address + offset`; past the last address of the family the
library raises `AddressValueError`, a `ValueError`. -/
def addressAt (n : Network) (offset : Nat) : Except Exn Inet :=
  if h : n.base + offset < 2 ^ n.version.bits then .ok ⟨n.version, n.base + offset, h⟩
  else .error .valueError

/-- `pool.next_offset` after the choice of an offset. -/
def movedOffset (next : Nat) (p : IpPool) : IpPool := { p with nextOffset := next }

/-- `_automatic_candidate`: a released address of the pool, the least first, and where there is
none, an address that has no row yet. -/
def automaticCandidate (t : IpamTables) (pool : IpPool) (draws : Draws) :
    Except Exn (IpamTables × IpAddress) :=
  match leastAvailable t pool.id with
  | some available => .ok (t, available)
  | none => do
    let offset ← orRaise (chosenOffset t pool draws.random)
      (.app ⟨409, "IP_POOL_EXHAUSTED", "No allocatable IP address remains in the pool.", []⟩)
    let candidate ← addressAt pool.cidr.toNetwork offset
    let pools := t.pools.update pool.id (movedOffset ((offset + 1) % pool.cidr.numAddresses))
    let address := availableAddress (draws.uuid 0) pool.id candidate
    let t ← insertAddress { t with pools := pools } address
    return (t, address)

/-- The branch `allocate` and `reserve_for_provisioning` have in common: the named address,
materialised if need be, or an automatic one. -/
def candidateAddress (t : IpamTables) (pool : IpPool) (requested : Option Address)
    (draws : Draws) : Except Exn (IpamTables × IpAddress) :=
  match requested with
  | none => automaticCandidate t pool draws
  | some requested => do
    let candidate ← validatedCandidate pool requested
    raiseIf (isExcluded t pool.id candidate = true)
      (.app ⟨409, "IP_ADDRESS_EXCLUDED", "The IP address is excluded.", []⟩)
    match addressRow t pool.id candidate.inet with
    | some address => return (t, address)
    | none =>
      let address := availableAddress (draws.uuid 0) pool.id candidate.inet
      let t ← insertAddress t address
      return (t, address)

/-! ### Responses -/

structure PoolResponse where
  id : Uuid
  name : String
  clusterId : Option Uuid
  cidr : Network
  gateway : Option Address
  dnsServers : List Address
  bridge : String
  vlanTag : Option Nat
  ipFamily : Family
  allocationStrategy : AllocationStrategy
  quarantineSeconds : Nat
  isActive : Bool
  allocatedCount : Nat
  quarantinedCount : Nat
  availabilityStatus : String
  version : Nat

structure AddressResponse where
  id : Uuid
  poolId : Uuid
  address : Address
  state : IpAddressState
  reservedFor : Option String
  quarantinedUntil : Option Instant
  workloadId : Option Uuid

structure AllocationResponse where
  id : Uuid
  poolId : Uuid
  ipAddressId : Uuid
  address : Address
  workloadId : Uuid
  kind : IpAllocationKind
  status : IpAllocationStatus
  allocatedAt : Instant
  releasedAt : Option Instant
  quarantinedUntil : Option Instant

/-- `_pool_response`: the row's values, and the network and addresses as the object
holds them, scope ids included. -/
def poolResponse (t : IpamTables) (pool : IpPool) (cidr : Network) (gateway : Option Address)
    (dnsServers : List Address) : PoolResponse :=
  let count (state : IpAddressState) : Nat :=
    (t.addresses.select (fun a => a.poolId == pool.id && a.state == state)).length
  { id := pool.id
    name := pool.name
    clusterId := pool.clusterId
    cidr := cidr
    gateway := gateway
    dnsServers := dnsServers
    bridge := pool.bridge
    vlanTag := pool.vlanTag
    ipFamily := pool.ipFamily
    allocationStrategy := pool.allocationStrategy
    quarantineSeconds := pool.quarantineSeconds
    isActive := pool.isActive
    allocatedCount := count .assigned
    quarantinedCount := count .quarantined
    availabilityStatus := if pool.isActive then "AVAILABLE" else "DISABLED"
    version := pool.version }

/-- `_address_response`, of the row and of the address object that is shown. -/
def addressResponse (a : IpAddress) (address : Address) (workloadId : Option Uuid) :
    AddressResponse where
  id := a.id
  poolId := a.poolId
  address := address
  state := a.state
  reservedFor := a.reservedFor
  quarantinedUntil := a.quarantinedUntil
  workloadId := workloadId

/-- `_allocation_response`, which asserts that the allocation has a workload. -/
def allocationResponse (l : IpAllocation) (a : IpAddress) (address : Address) (pool : IpPool) :
    Except Exn AllocationResponse :=
  match l.workloadId with
  | none => .error .assertion
  | some workloadId => .ok
    { id := l.id
      poolId := pool.id
      ipAddressId := a.id
      address := address
      workloadId := workloadId
      kind := l.kind
      status := l.status
      allocatedAt := l.allocatedAt
      releasedAt := l.releasedAt
      quarantinedUntil := a.quarantinedUntil }

end IpamService
end PveMaster
