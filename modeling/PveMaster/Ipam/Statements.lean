import PveMaster.Ipam.Pools
import PveMaster.Foundation.Versions

/-! `update_pool` and `delete_pool`, statement by statement.

Both select their pool for update, compare its version and write the pool at their commit,
each read between seeing what is committed by then. Alone they do what the calls of
`IpamService` do (`updatePool_alone`, `deletePool_alone`). -/
namespace PveMaster.Pools
open Prog IpamService

/-- A pool as it was loaded and as it has been assigned, with the audit event. -/
structure PoolWrite where
  loaded : IpPool
  current : IpPool
  svc : IpamService
  action : String

/-- A pool row after the update of one that was loaded as `loaded`. The columns in which `current`
differs are written, and the others are never assigned. -/
def flush (loaded current stored : IpPool) : IpPool :=
  { stored with
    name := written loaded.name current.name stored.name
    clusterId := written loaded.clusterId current.clusterId stored.clusterId
    cidr := written loaded.cidr current.cidr stored.cidr
    gateway := written loaded.gateway current.gateway stored.gateway
    dnsServers := written loaded.dnsServers current.dnsServers stored.dnsServers
    bridge := written loaded.bridge current.bridge stored.bridge
    vlanTag := written loaded.vlanTag current.vlanTag stored.vlanTag
    ipFamily := written loaded.ipFamily current.ipFamily stored.ipFamily
    allocationStrategy := written loaded.allocationStrategy current.allocationStrategy stored.allocationStrategy
    quarantineSeconds := written loaded.quarantineSeconds current.quarantineSeconds stored.quarantineSeconds
    isActive := written loaded.isActive current.isActive stored.isActive
    version := written loaded.version current.version stored.version }

/-- The commit of a call: the row, and its audit event, unless the unique names refuse it. -/
def PoolWrite.apply (w : PoolWrite) (db : Db) : Except Exn Db :=
  let pools := db.ipam.pools.update w.loaded.id (flush w.loaded w.current)
  if PoolNamesUnique pools then
    .ok (w.svc.audit { db with ipam := { db.ipam with pools := pools } } w.action "ip_pool" w.loaded.id)
  else .error .integrity

/-- The lock of a pool is known by its identifier. -/
abbrev PoolStatement : Type → Type := Statement Db Uuid PoolWrite Unit Unit Exn Unit
abbrev PoolProg (α : Type) := Prog Exn PoolStatement α

namespace PoolProg
variable {α : Type}

def read (q : Db → α) : PoolProg α := op (.read fun _ db => q db)
def commit (w : PoolWrite) : PoolProg Unit := perform (.commit w id)

end PoolProg
open PoolProg

/-- `_locked_pool`: the row is locked, also one that is not active and is answered as missing. -/
def lockedPool (poolId : Uuid) : PoolProg IpPool := do
  ofExcept (← op (.lock poolId (fun db => (db.ipam.pools.get? poolId).isSome)
    fun db => IpamService.lockedPool db.ipam poolId))

/-- `update_pool`: all its checks read what is committed while it holds the pool. -/
def updatePool (svc : IpamService) (poolId : Uuid) (payload : IpPoolUpdate) : PoolProg Unit := do
  let pool ← lockedPool poolId
  ofExcept (raiseIf (pool.version ≠ payload.version) versionConflict)
  let targetClusterId := payload.clusterId.getD pool.clusterId
  let targetNetwork ← ofExcept (targetNetwork payload pool)
  let targetGateway := payload.gateway.getD (pool.gateway.map Inet.address)
  let targetDns := targetDns payload pool
  ofExcept (gatewayInside targetGateway targetNetwork)
  ofExcept (dnsFamily targetDns targetNetwork)
  ofExcept (← read fun db => knownCluster db targetClusterId)
  let addressingChanged : Prop := targetNetwork ≠ pool.cidr.toNetwork ∨ targetClusterId ≠ pool.clusterId ∨
    targetGateway ≠ pool.gateway.map Inet.address
  let materialized ← read fun db => db.ipam.addresses.select (fun a => a.poolId == pool.id)
  ofExcept (raiseIf (addressingChanged ∧ materialized ≠ [])
    (.app ⟨409, "IP_POOL_ADDRESSES_EXIST",
      "CIDR, cluster, or gateway cannot change after addresses have been used.", []⟩))
  let exclusions ← read fun db => db.ipam.exclusions.select (fun e => e.poolId == pool.id)
  ofExcept (raiseIf (targetNetwork ≠ pool.cidr.toNetwork ∧ exclusions ≠ [])
    (.app ⟨409, "IP_POOL_EXCLUSIONS_EXIST",
      "CIDR cannot change while the pool has excluded address ranges.", []⟩))
  let overlaps ← read fun db => overlapsExisting db.ipam (some pool.id) targetClusterId targetNetwork
  ofExcept (raiseIf (overlaps = true) poolOverlap)
  let current := editedPool payload targetClusterId targetNetwork targetGateway targetDns pool
  match ← attempt (commit ⟨pool, current, svc, "IP_POOL_UPDATE"⟩) with
  | .error .integrity => raise (.appFrom ⟨409, "IP_POOL_CONFLICT",
      "The IP pool name or network conflicts with an existing pool.", []⟩)
  | r => ofExcept r

/-- `delete_pool`: the addresses and the requests are counted under the lock of the pool, which
those who take addresses need. -/
def deletePool (svc : IpamService) (poolId : Uuid) (version : Nat) : PoolProg Unit := do
  let pool ← lockedPool poolId
  ofExcept (raiseIf (pool.version ≠ version) versionConflict)
  let unavailable ← read fun db => (unavailableAddresses db.ipam pool.id).length
  let active ← read fun db => (activeRequests db pool.id).length
  ofExcept (raiseIf (unavailable > 0 ∨ active > 0)
    (.app ⟨409, "IP_POOL_IN_USE",
      "Release reserved, assigned, or quarantined addresses before deleting the pool.",
      [("unavailable_addresses", .int unavailable),
        ("active_provisioning_requests", .int active)]⟩))
  commit ⟨pool, closedPool pool, svc, "IP_POOL_DELETE"⟩

/-- The two calls that change a pool that is there. -/
inductive PoolRequest where
  | update (poolId : Uuid) (payload : IpPoolUpdate)
  | delete (poolId : Uuid) (version : Nat)

/-- A request, with the service that serves it. -/
structure PoolMessage where
  svc : IpamService
  request : PoolRequest

def PoolMessage.program (m : PoolMessage) : PoolProg Unit :=
  match m.request with
  | .update poolId payload => updatePool m.svc poolId payload
  | .delete poolId version => deletePool m.svc poolId version

def poolSchema : Schema Db Uuid PoolWrite Unit Unit Exn Unit PoolMessage where
  apply := PoolWrite.apply
  program := PoolMessage.program

/-! ### One call by itself -/

/-- What a program leaves and returns when nobody else commits between its statements. -/
def alone {α : Type} : PoolProg α → Db → Db × Except Exn α
  | .done r, db => (db, r)
  | .node o f, db =>
    match o with
    | .read q => alone (f (q () db)) db
    | .lock _ _ q => alone (f (q db)) db
    | .commit w c =>
      match w.apply db with
      | .ok db' => alone (f (c (.ok ()))) db'
      | .error e => alone (f (c (.error e))) db
    | .call _ c => alone (f (c ())) db
    | .answer _ c => alone (f (c ())) db

/-- The columns that are written are those the call has assigned. -/
theorem flush_edited (payload : IpPoolUpdate) (clusterId : Option Uuid) (network : Network)
    (gateway : Option Address) (dns : List Address) (p : IpPool) :
    flush p (editedPool payload clusterId network gateway dns p) p = editedPool payload clusterId network gateway dns p := by
  simp [flush, editedPool]

theorem flush_closed (p : IpPool) : flush p (closedPool p) p = closedPool p := by simp [flush, closedPool]

/-- A deletion leaves the names. -/
theorem name_closed (pool p : IpPool) :
    (Table.amend pool.id (flush pool (closedPool pool)) p).name = p.name := by
  unfold Table.amend
  split
  · exact written_unchanged pool.name p.name
  · rfl

section Commit
variable {α : Type} {db : Db} {loaded current : IpPool} {svc : IpamService} {action : String}

theorem apply_unique (h : PoolNamesUnique (db.ipam.pools.update loaded.id (flush loaded current))) :
    PoolWrite.apply ⟨loaded, current, svc, action⟩ db = .ok (svc.audit
      { db with ipam := { db.ipam with pools := db.ipam.pools.update loaded.id (flush loaded current) } }
      action "ip_pool" loaded.id) := if_pos h

theorem apply_refused (h : ¬ PoolNamesUnique (db.ipam.pools.update loaded.id (flush loaded current))) :
    PoolWrite.apply ⟨loaded, current, svc, action⟩ db = .error .integrity := if_neg h

theorem alone_attempt (w : PoolWrite) (f : Except Exn Unit → PoolProg α) (db : Db) :
    alone (attempt (PoolProg.commit w) >>= f) db = match w.apply db with
      | .ok db' => alone (f (.ok ())) db'
      | .error e => alone (f (.error e)) db := by
  show alone (.node (.commit w id) _) db = _
  rw [alone]
  cases w.apply db <;> rfl

theorem alone_commit (w : PoolWrite) (db : Db) : alone (PoolProg.commit w) db = match w.apply db with
      | .ok db' => (db', .ok ())
      | .error e => (db, .error e) := by
  show alone (.node (.commit w id) _) db = _
  rw [alone]
  cases w.apply db <;> rfl

end Commit

/-- A program does by itself what an atomic call does. -/
def Same {α : Type} (db : Db) (p : PoolProg Unit) (x : Except Exn (Outcome α)) : Prop :=
  alone p db = ((Outcome.of db x).db, (Outcome.of db x).result.map fun _ => ())

section Same
variable {α β : Type} {db : Db}

theorem same_ofExcept {r : Except Exn β} {f : β → PoolProg Unit} {g : β → Except Exn (Outcome α)}
    (h : ∀ b, r = .ok b → Same db (f b) (g b)) : Same db (ofExcept r >>= f) (r >>= g) := by
  cases r with
  | ok b => exact h b rfl
  | error e => rfl

theorem same_read {q : Db → β} {f : β → PoolProg Unit} {x : Except Exn (Outcome α)} (h : Same db (f (q db)) x) :
    Same db (PoolProg.read q >>= f) x := h

theorem same_lockedPool {poolId : Uuid} {f : IpPool → PoolProg Unit} {g : IpPool → Except Exn (Outcome α)}
    (h : ∀ pool, db.ipam.pools.get? pool.id = some pool → Same db (f pool) (g pool)) :
    Same db (lockedPool poolId >>= f) (IpamService.lockedPool db.ipam poolId >>= g) := by
  refine same_ofExcept (r := IpamService.lockedPool db.ipam poolId) fun pool hpool => ?_
  simp only [IpamService.lockedPool, bind_ok, orRaise_ok, raiseIf_ok, pure_ok] at hpool
  obtain ⟨stored, hstored, -, -, rfl⟩ := hpool
  have hid : stored.id = poolId := Table.get?_key hstored
  subst hid
  exact h stored hstored

end Same

theorem update_flush {pools : Table IpPool} {pool : IpPool} {edit : IpPool → IpPool}
    (hpool : pools.get? pool.id = some pool) (hflush : flush pool (edit pool) pool = edit pool) :
    pools.update pool.id (flush pool (edit pool)) = pools.update pool.id edit := by
  refine Table.update_congr fun stored hstored => ?_
  rw [hpool] at hstored
  cases hstored
  exact hflush

theorem updatePool_alone (svc : IpamService) (db : Db) (poolId : Uuid) (payload : IpPoolUpdate) :
    alone (updatePool svc poolId payload) db = ((svc.updatePool db poolId payload).db,
      (svc.updatePool db poolId payload).result.map fun _ => ()) := by
  refine same_lockedPool fun pool hpool => same_ofExcept fun _ _ => same_ofExcept fun targetNetwork _ => ?_
  refine same_ofExcept fun _ _ => same_ofExcept fun _ _ => same_read (same_ofExcept fun _ _ => ?_)
  refine same_read (same_ofExcept fun _ _ => same_read (same_ofExcept fun _ _ => ?_))
  refine same_read (same_ofExcept fun _ _ => ?_)
  have hupdate := update_flush hpool
    (flush_edited payload (payload.clusterId.getD pool.clusterId) targetNetwork
      (payload.gateway.getD (pool.gateway.map Inet.address)) (targetDns payload pool) pool)
  dsimp only
  rw [← hupdate]
  generalize editedPool payload _ targetNetwork _ _ pool = current
  unfold Same
  rw [alone_attempt]
  by_cases hunique : PoolNamesUnique (db.ipam.pools.update pool.id (flush pool current))
  · rw [apply_unique hunique, raiseIf, if_neg (not_not.mpr hunique)]
    rfl
  · rw [apply_refused hunique, raiseIf, if_pos hunique]
    rfl

theorem deletePool_alone (svc : IpamService) (db : Db) (poolId : Uuid) (version : Nat)
    (hunique : PoolNamesUnique db.ipam.pools) :
    alone (deletePool svc poolId version) db = ((svc.deletePool db poolId version).db,
      (svc.deletePool db poolId version).result.map fun _ => ()) := by
  refine same_lockedPool fun pool hpool => same_ofExcept fun _ _ => same_read (same_read ?_)
  refine same_ofExcept fun _ _ => ?_
  have hnames : PoolNamesUnique (db.ipam.pools.update pool.id (flush pool (closedPool pool))) := by
    intro p' hp' q' hq' hname
    obtain ⟨p, hp, rfl⟩ := Table.mem_update.mp hp'
    obtain ⟨q, hq, rfl⟩ := Table.mem_update.mp hq'
    rw [name_closed, name_closed] at hname
    rw [show (Table.amend pool.id _ p).id = p.id from Table.key_amend _ _ p,
      show (Table.amend pool.id _ q).id = q.id from Table.key_amend _ _ q]
    exact hunique p hp q hq hname
  unfold Same
  dsimp only
  rw [← update_flush hpool (flush_closed pool), alone_commit, apply_unique hnames]
  rfl

end PveMaster.Pools
