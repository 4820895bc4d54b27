import PveMaster.Foundation.Table
import PveMaster.Ipam.Address

/-! The four IPAM tables and the constraints the schema puts on them.

The partial unique indexes are predicates of a whole table
(`AddressesUnique`, `uqActiveAddress`, `uqActiveProvisioningRequest`), checked
when a transaction flushes. -/
namespace PveMaster

/-- The values of `ip_addresses.state`. An address without a row is free as well. -/
inductive IpAddressState where
  | available
  | reserved
  | assigned
  | quarantined
  | disabled
  deriving DecidableEq, Repr

inductive IpAllocationKind where
  | automatic
  | manual
  deriving DecidableEq, Repr

inductive IpAllocationStatus where
  | reserved
  | assigned
  | quarantined
  | released
  deriving DecidableEq, Repr

/-- `status IN ('RESERVED','ASSIGNED','QUARANTINED')`, the condition of the partial unique
indexes: an allocation that still keeps its address from others. -/
def IpAllocationStatus.active : IpAllocationStatus → Bool
  | .released => false
  | _ => true

/-- The address state that goes with an active allocation's status. The service writes the two
rows in one transaction, and that they agree is an invariant of the reachable states. -/
def IpAllocationStatus.addressState : IpAllocationStatus → IpAddressState
  | .reserved => .reserved
  | .assigned => .assigned
  | .quarantined => .quarantined
  | .released => .available

inductive AllocationStrategy where
  | sequential
  | random
  deriving DecidableEq, Repr

/-- A row of `ip_pools`. `nextOffset` is where the search for a free address goes on, and
`quarantineSeconds` the rest an address is given when it is released. -/
structure IpPool where
  id : Uuid
  name : String
  clusterId : Option Uuid
  cidr : Cidr
  gateway : Option Inet
  dnsServers : List Inet
  bridge : String
  vlanTag : Option Nat
  ipFamily : Family
  allocationStrategy : AllocationStrategy
  quarantineSeconds : Nat
  nextOffset : Nat
  isActive : Bool
  createdById : Uuid
  version : Nat
  deriving DecidableEq

/-- A range of a pool that is never given out, both of its ends included. -/
structure IpPoolExclusion where
  id : Uuid
  poolId : Uuid
  startAddress : Inet
  endAddress : Inet
  reason : Option String
  deriving DecidableEq

/-- An address of a pool that has been touched. The table holds no row for an address that nobody
has reserved or been given yet. -/
structure IpAddress where
  id : Uuid
  poolId : Uuid
  address : Inet
  state : IpAddressState
  reservedFor : Option String
  quarantinedUntil : Option Instant
  lastAllocatedAt : Option Instant
  version : Nat
  deriving DecidableEq

/-- What an address has been given to: a workload, or the provisioning request that is making one.
Allocations are never deleted, so the table is also the history of an address. -/
structure IpAllocation where
  id : Uuid
  ipAddressId : Uuid
  workloadId : Option Uuid
  provisioningRequestId : Option Uuid
  kind : IpAllocationKind
  status : IpAllocationStatus
  allocatedById : Uuid
  allocatedAt : Instant
  confirmedAt : Option Instant
  releasedAt : Option Instant
  releaseReason : Option String
  version : Nat
  deriving DecidableEq

instance : Keyed IpPool Uuid := ⟨IpPool.id⟩
instance : Keyed IpPoolExclusion Uuid := ⟨IpPoolExclusion.id⟩
instance : Keyed IpAddress Uuid := ⟨IpAddress.id⟩
instance : Keyed IpAllocation Uuid := ⟨IpAllocation.id⟩

/-! ### Unique constraints -/

/-- `UniqueConstraint` on `IpPool.name`, over the whole table: inactive pools count as well. -/
def PoolNamesUnique (t : Table IpPool) : Prop :=
  ∀ p ∈ t.rows, ∀ q ∈ t.rows, p.name = q.name → p.id = q.id

/-- `UniqueConstraint("pool_id", "start_address", "end_address")`. -/
def ExclusionsUnique (t : Table IpPoolExclusion) : Prop :=
  ∀ e ∈ t.rows, ∀ f ∈ t.rows, e.poolId = f.poolId → e.startAddress = f.startAddress →
    e.endAddress = f.endAddress → e.id = f.id

/-- `UniqueConstraint("pool_id", "address")`. -/
def AddressesUnique (t : Table IpAddress) : Prop :=
  ∀ a ∈ t.rows, ∀ b ∈ t.rows, a.poolId = b.poolId → a.address = b.address → a.id = b.id

/-- `uq_ip_allocations_active_address`: an address has at most one allocation that is not
released. -/
def UqActiveAddress (t : Table IpAllocation) : Prop :=
  ∀ a ∈ t.rows, ∀ b ∈ t.rows, a.status.active = true → b.status.active = true →
    a.ipAddressId = b.ipAddressId → a.id = b.id

/-- `uq_ip_allocations_active_provisioning_request`: a request holds at most one address at a
time. -/
def UqActiveProvisioningRequest (t : Table IpAllocation) : Prop :=
  ∀ a ∈ t.rows, ∀ b ∈ t.rows, a.status.active = true → b.status.active = true →
    a.provisioningRequestId ≠ none → a.provisioningRequestId = b.provisioningRequestId → a.id = b.id

instance (t : Table IpPool) : Decidable (PoolNamesUnique t) := by
  unfold PoolNamesUnique; infer_instance
instance (t : Table IpPoolExclusion) : Decidable (ExclusionsUnique t) := by
  unfold ExclusionsUnique; infer_instance
instance (t : Table IpAddress) : Decidable (AddressesUnique t) := by
  unfold AddressesUnique; infer_instance
instance (t : Table IpAllocation) : Decidable (UqActiveAddress t) := by
  unfold UqActiveAddress; infer_instance
instance (t : Table IpAllocation) : Decidable (UqActiveProvisioningRequest t) := by
  unfold UqActiveProvisioningRequest; infer_instance

end PveMaster
