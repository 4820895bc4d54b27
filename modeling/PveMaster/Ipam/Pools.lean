import PveMaster.Ipam.Service

/-! Pools: `create_pool`, `update_pool`, `delete_pool`.

The overlap check compares a pool with the active pools of its scope: a pool
without a cluster shares a scope with every pool. -/
namespace PveMaster

/-- `IpRangeRequest`: a range to exclude. -/
structure IpRange where
  start : Address
  stop : Address
  reason : Option String

/-- `IpPoolCreate`, after the validation of its fields. The texts of addresses have been parsed,
and a CIDR that does not parse is `none`. -/
structure IpPoolCreate where
  name : String
  clusterId : Option Uuid
  cidr : Option Network
  gateway : Option Address
  dnsServers : List Address
  bridge : String
  vlanTag : Option Nat
  excludedRanges : List IpRange
  allocationStrategy : AllocationStrategy
  quarantineSeconds : Nat

/-- `IpPoolUpdate`. The outer option of a field is whether the request set it; what it did not set
stays. -/
structure IpPoolUpdate where
  name : Option String := none
  clusterId : Option (Option Uuid) := none
  cidr : Option (Option Network) := none
  gateway : Option (Option Address) := none
  dnsServers : Option (Option (List Address)) := none
  bridge : Option String := none
  vlanTag : Option (Option Nat) := none
  allocationStrategy : Option AllocationStrategy := none
  quarantineSeconds : Option Nat := none
  version : Nat

namespace IpamService

/-- `same_scope`: two pools that guests of one cluster could both be given addresses of. A pool
without a cluster serves all of them. -/
def sameScope (c d : Option Uuid) : Bool := c == d || c == none || d == none

/-- An active pool of the scope, other than `self`, that the network overlaps. -/
def overlapsExisting (t : IpamTables) (self : Option Uuid) (clusterId : Option Uuid)
    (network : Network) : Bool :=
  (t.pools.select (fun p => p.isActive && some p.id != self)).any
    (fun existing => sameScope existing.clusterId clusterId && network.overlaps existing.cidr.toNetwork)

/-- The cluster a pool names must exist. -/
def knownCluster (db : Db) (clusterId : Option Uuid) : Except Exn Unit :=
  match clusterId with
  | none => .ok ()
  | some id => raiseIf (db.clusters.get? id = none) clusterNotFound

/-- The gateway must belong to the network. -/
def gatewayInside (gateway : Option Address) (network : Network) : Except Exn Unit :=
  raiseIf (∃ g ∈ gateway, network.contains g = false)
    (invalid "GATEWAY_OUTSIDE_POOL" "The gateway must belong to the pool CIDR.")

/-- The DNS servers must be of the pool's family. -/
def dnsFamily (dns : List Address) (network : Network) : Except Exn Unit :=
  raiseIf (∃ a ∈ dns, a.version ≠ network.version)
    (invalid "IP_FAMILY_MISMATCH" "DNS addresses must match the pool family.")

/-- The loop over `excluded_ranges`: each must be of the family, inside the network, and end where
it begins or behind. -/
def excludedInside (network : Network) : List IpRange → Except Exn Unit
  | [] => .ok ()
  | item :: rest => do
    raiseIf (item.start.version ≠ network.version ∨ item.stop.version ≠ network.version)
      (invalid "IP_FAMILY_MISMATCH" "Excluded addresses must match the pool family.")
    raiseIf (network.contains item.start = false ∨ network.contains item.stop = false ∨
        item.start.ip > item.stop.ip)
      (invalid "INVALID_EXCLUDED_RANGE" "An excluded range is outside the pool.")
    excludedInside network rest

/-- The rows of `excluded_ranges`; the pool took the first `uuid4`. -/
def exclusionRows (poolId : Uuid) (ranges : List IpRange) (draws : Draws) : List IpPoolExclusion :=
  ranges.zipIdx.map (fun r =>
    { id := draws.uuid (r.2 + 1)
      poolId := poolId
      startAddress := r.1.start.inet
      endAddress := r.1.stop.inet
      reason := r.1.reason })

/-- The flush of `create_pool`: the pool, and then its exclusions. A name or a range that is there
already violates its constraint. -/
def insertPool (t : IpamTables) (pool : IpPool) (exclusions : List IpPoolExclusion) :
    Except Exn IpamTables := do
  let pools ← orRaise (t.pools.insert pool) .integrity
  raiseIf (¬ PoolNamesUnique pools) .integrity
  let exclusions ← orRaise (t.exclusions.insertAll exclusions) .integrity
  raiseIf (¬ ExclusionsUnique exclusions) .integrity
  return { t with pools := pools, exclusions := exclusions }

/-- The row `create_pool` inserts, whose texts are stripped. The search for a free address will
begin at its first one. -/
def newPool (svc : IpamService) (payload : IpPoolCreate) (network : Network) (draws : Draws) :
    IpPool where
  id := draws.uuid 0
  name := strip payload.name
  clusterId := payload.clusterId
  cidr := network.stored
  gateway := payload.gateway.map Address.inet
  dnsServers := payload.dnsServers.map Address.inet
  bridge := strip payload.bridge
  vlanTag := payload.vlanTag
  ipFamily := network.version
  allocationStrategy := payload.allocationStrategy
  quarantineSeconds := payload.quarantineSeconds
  nextOffset := 0
  isActive := true
  createdById := svc.principal.userId
  version := 1

/-- `create_pool`: the checks in the order of the source, the flush, the audit row and the commit
in one transaction. -/
def createPool (svc : IpamService) (db : Db) (payload : IpPoolCreate) (draws : Draws) :
    Outcome PoolResponse :=
  .of db do
    let network ← network payload.cidr
    gatewayInside payload.gateway network
    knownCluster db payload.clusterId
    excludedInside network payload.excludedRanges
    dnsFamily payload.dnsServers network
    raiseIf (overlapsExisting db.ipam none payload.clusterId network = true) poolOverlap
    let pool := svc.newPool payload network draws
    let t ← onIntegrity ⟨409, "IP_POOL_CONFLICT", "The IP pool already exists.", []⟩
      (insertPool db.ipam pool (exclusionRows pool.id payload.excludedRanges draws))
    return ⟨svc.audit { db with ipam := t } "IP_POOL_CREATE" "ip_pool" pool.id,
      .ok (poolResponse t pool network payload.gateway payload.dnsServers)⟩

/-- What `update_pool` and `delete_pool` answer to a version that is not the row's. -/
def versionConflict : Exn :=
  .app ⟨409, "IP_POOL_VERSION_CONFLICT", "The IP pool was modified by another request.", []⟩

/-- The columns `update_pool` writes. -/
def editedPool (payload : IpPoolUpdate) (clusterId : Option Uuid) (network : Network)
    (gateway : Option Address) (dns : List Address) (p : IpPool) : IpPool :=
  { p with
    name := (payload.name.map strip).getD p.name
    clusterId := clusterId
    cidr := network.stored
    gateway := gateway.map Address.inet
    dnsServers := dns.map Address.inet
    bridge := (payload.bridge.map strip).getD p.bridge
    vlanTag := payload.vlanTag.getD p.vlanTag
    allocationStrategy := payload.allocationStrategy.getD p.allocationStrategy
    quarantineSeconds := payload.quarantineSeconds.getD p.quarantineSeconds
    ipFamily := network.version
    version := p.version + 1 }

/-- The network the pool is to have: the one the request sets, or the one it has. -/
def targetNetwork (payload : IpPoolUpdate) (pool : IpPool) : Except Exn Network :=
  match payload.cidr with
  | some cidr => network cidr
  | none => .ok pool.cidr.toNetwork

/-- The DNS servers it is to have. -/
def targetDns (payload : IpPoolUpdate) (pool : IpPool) : List Address :=
  match payload.dnsServers with
  | some dns => dns.getD []
  | none => pool.dnsServers.map Inet.address

/-- `update_pool`: the pool is locked, its version compared, and everything checked again for the
columns it is to have. A pool that has address rows keeps its CIDR, cluster and gateway, and one
with exclusions its CIDR. -/
def updatePool (svc : IpamService) (db : Db) (poolId : Uuid) (payload : IpPoolUpdate) :
    Outcome PoolResponse :=
  .of db do
    let t := db.ipam
    let pool ← lockedPool t poolId
    raiseIf (pool.version ≠ payload.version) versionConflict
    let targetClusterId := payload.clusterId.getD pool.clusterId
    let targetNetwork ← targetNetwork payload pool
    let targetGateway := payload.gateway.getD (pool.gateway.map Inet.address)
    let targetDns := targetDns payload pool
    gatewayInside targetGateway targetNetwork
    dnsFamily targetDns targetNetwork
    knownCluster db targetClusterId
    let addressingChanged : Prop := targetNetwork ≠ pool.cidr.toNetwork ∨ targetClusterId ≠ pool.clusterId ∨
      targetGateway ≠ pool.gateway.map Inet.address
    raiseIf (addressingChanged ∧ t.addresses.select (fun a => a.poolId == pool.id) ≠ [])
      (.app ⟨409, "IP_POOL_ADDRESSES_EXIST",
        "CIDR, cluster, or gateway cannot change after addresses have been used.", []⟩)
    raiseIf (targetNetwork ≠ pool.cidr.toNetwork ∧
        t.exclusions.select (fun e => e.poolId == pool.id) ≠ [])
      (.app ⟨409, "IP_POOL_EXCLUSIONS_EXIST",
        "CIDR cannot change while the pool has excluded address ranges.", []⟩)
    raiseIf (overlapsExisting t (some pool.id) targetClusterId targetNetwork = true) poolOverlap
    let edit := editedPool payload targetClusterId targetNetwork targetGateway targetDns
    let pools := t.pools.update pool.id edit
    raiseIf (¬ PoolNamesUnique pools)
      (.appFrom ⟨409, "IP_POOL_CONFLICT",
        "The IP pool name or network conflicts with an existing pool.", []⟩)
    let t := { t with pools := pools }
    return ⟨svc.audit { db with ipam := t } "IP_POOL_UPDATE" "ip_pool" pool.id,
      .ok (poolResponse t (edit pool) targetNetwork targetGateway targetDns)⟩

/-- The `QUEUED`, `RUNNING` and `MANUAL_REVIEW` requests on a pool, which may still come to take
an address of it. -/
def activeRequests (db : Db) (poolId : Uuid) : List ProvisioningRequest :=
  db.requests.select (fun r => r.ipPoolId == poolId &&
    (r.status == .queued || r.status == .running || r.status == .manualReview))

/-- The addresses of a pool in any other state than `AVAILABLE`, the excluded ones among them. -/
def unavailableAddresses (t : IpamTables) (poolId : Uuid) : List IpAddress :=
  t.addresses.select (fun a => a.poolId == poolId && a.state != .available)

/-- The columns `delete_pool` writes. -/
def closedPool (p : IpPool) : IpPool := { p with isActive := false, version := p.version + 1 }

/-- `delete_pool`: the pool goes inactive, which is all a deletion is, when no address of it is in
use and no request needs one. -/
def deletePool (svc : IpamService) (db : Db) (poolId : Uuid) (version : Nat) : Outcome Unit :=
  .of db do
    let t := db.ipam
    let pool ← lockedPool t poolId
    raiseIf (pool.version ≠ version) versionConflict
    let unavailable := (unavailableAddresses t pool.id).length
    let active := (activeRequests db pool.id).length
    raiseIf (unavailable > 0 ∨ active > 0)
      (.app ⟨409, "IP_POOL_IN_USE",
        "Release reserved, assigned, or quarantined addresses before deleting the pool.",
        [("unavailable_addresses", .int unavailable),
          ("active_provisioning_requests", .int active)]⟩)
    let t := { t with pools := t.pools.update pool.id closedPool }
    return ⟨svc.audit { db with ipam := t } "IP_POOL_DELETE" "ip_pool" pool.id, .ok ()⟩

end IpamService
end PveMaster
