import PveMaster.Ipam.Moves

/-! Runs of IPAM transactions, and what holds in every state they reach.

A run interleaves the ten calls, by any administrators and with any payloads and
draws, with transactions of other services, which never write the IPAM tables.
`exclusive_run`: within the pools a cluster can use, one address is held by one
allocation at most. `agrees_run`: an address row and its allocations tell the
same state. -/
namespace PveMaster.Ipam
open IpamService

/-- The ten calls of the service that write. -/
inductive IpamCall where
  | createPool (payload : IpPoolCreate)
  | updatePool (poolId : Uuid) (payload : IpPoolUpdate)
  | deletePool (poolId : Uuid) (version : Nat)
  | reserveAddress (poolId : Uuid) (address : Address) (reason : String)
  | allocate (poolId workloadId : Uuid) (requestedAddress : Option Address)
  | reserveForProvisioning (poolId requestId : Uuid) (requestedAddress : Option Address)
  | confirmProvisioningIp (requestId workloadId : Uuid)
  | quarantineProvisioningIp (requestId : Uuid)
  | release (allocationId : Uuid) (reason : String)
  | approveRelease (addressId : Uuid)

/-- The database a call leaves committed, whether it returns or raises. -/
def perform (svc : IpamService) (draws : Draws) (db : Db) : IpamCall → Db
  | .createPool payload => (svc.createPool db payload draws).db
  | .updatePool poolId payload => (svc.updatePool db poolId payload).db
  | .deletePool poolId version => (svc.deletePool db poolId version).db
  | .reserveAddress poolId address reason => (svc.reserveAddress db poolId address reason draws).db
  | .allocate poolId workloadId address => (svc.allocate db poolId workloadId address draws).db
  | .reserveForProvisioning poolId requestId address =>
    (svc.reserveForProvisioning db poolId requestId address draws).db
  | .confirmProvisioningIp requestId workloadId =>
    (confirmProvisioningIp db requestId workloadId draws).db
  | .quarantineProvisioningIp requestId => (quarantineProvisioningIp db requestId draws).db
  | .release allocationId reason => (svc.release db allocationId reason draws).db
  | .approveRelease addressId => (svc.approveRelease db addressId draws).db

/-- A step of a run: a call, by some administrator and with its own draws, or a transaction of
another service. -/
inductive IpamAction where
  | call (svc : IpamService) (draws : Draws) (c : IpamCall)
  /-- A transaction of another service. -/
  | other (f : Db → Db)

/-- One step. What another service writes does not reach the IPAM tables. -/
def act (db : Db) : IpamAction → Db
  | .call svc draws c => perform svc draws db c
  | .other f => { f db with ipam := db.ipam }

def run (db : Db) (actions : List IpamAction) : Db := actions.foldl act db

/-- A database whose IPAM tables are still empty. -/
def fresh (db : Db) : Db := { db with ipam := .empty }

theorem consistent_fresh (db : Db) : Consistent (fresh db).ipam := consistent_empty

theorem act_moves {db : Db} (hc : Consistent db.ipam) (a : IpamAction) :
    Moves db.ipam (act db a).ipam := by
  cases a with
  | other f => exact .refl _
  | call svc draws c =>
    cases c with
    | createPool payload => exact createPool_moves payload
    | updatePool poolId payload => exact updatePool_moves poolId payload
    | deletePool poolId version => exact deletePool_moves poolId version
    | reserveAddress poolId address reason => exact reserveAddress_moves hc poolId address reason
    | allocate poolId workloadId address => exact allocate_moves hc poolId workloadId address
    | reserveForProvisioning poolId requestId address =>
      exact reserveForProvisioning_moves hc poolId requestId address
    | confirmProvisioningIp requestId workloadId =>
      exact confirmProvisioningIp_moves hc requestId workloadId
    | quarantineProvisioningIp requestId => exact quarantineProvisioningIp_moves requestId
    | release allocationId reason => exact release_moves allocationId reason
    | approveRelease addressId => exact approveRelease_moves addressId

theorem consistent_run {db : Db} (hc : Consistent db.ipam) (actions : List IpamAction) :
    Consistent (run db actions).ipam := by
  induction actions generalizing db with
  | nil => exact hc
  | cons a rest ih => exact ih (hc.moves (act_moves hc a))

/-! ### Exclusivity -/

/-- An allocation that holds the address `v` in a pool the cluster `c` can use. -/
structure HeldAt (t : IpamTables) (c : Uuid) (v : Inet) (l : IpAllocation) : Prop where
  mem : l ∈ t.allocations
  active : l.status.active = true
  address : ∃ a ∈ t.addresses, a.id = l.ipAddressId ∧ a.address = v ∧
    ∃ p ∈ t.pools, p.id = a.poolId ∧ (p.clusterId = some c ∨ p.clusterId = none)

/-- An address is held once among the pools of a cluster, these pools are apart, and a closed one
has no active allocation. -/
structure Exclusive (t : IpamTables) : Prop where
  one : ∀ c v l l', HeldAt t c v l → HeldAt t c v l' → l = l'
  apart : ∀ p ∈ t.pools, ∀ q ∈ t.pools, p.isActive = true → q.isActive = true → p.id ≠ q.id →
    sameScope p.clusterId q.clusterId = true → p.cidr.overlaps q.cidr.toNetwork = false
  inactive : ∀ p ∈ t.pools, p.isActive = false → ∀ a ∈ t.addresses, a.poolId = p.id →
    ∀ l ∈ t.allocations, l.ipAddressId = a.id → l.status.active = false

theorem sameScope_of_cluster {c : Uuid} {d e : Option Uuid} (hd : d = some c ∨ d = none)
    (he : e = some c ∨ e = none) : sameScope d e = true := by
  rcases hd with rfl | rfl <;> rcases he with rfl | rfl <;> simp [sameScope]

theorem Consistent.exclusive {t : IpamTables} (h : Consistent t) : Exclusive t := by
  refine ⟨fun c v l l' hl hl' => ?_, h.apart.apart, fun p hp hinactive a ha hap l hl hon => ?_⟩
  · obtain ⟨hmem, hactive, a, ha, hon, hv, p, hp, hpid, hscope⟩ := hl
    obtain ⟨hmem', hactive', a', ha', hon', hv', p', hp', hpid', hscope'⟩ := hl'
    have hopen := h.open ha hmem hon.symm hactive hp hpid
    have hopen' := h.open ha' hmem' hon'.symm hactive' hp' hpid'
    by_cases hsame : p.id = p'.id
    · have haddress : a.id = a'.id := h.placed.unique a ha a' ha'
        (by rw [← hpid, ← hpid', hsame]) (by rw [hv, hv'])
      have hid : l.id = l'.id := h.agreement.single l hmem l' hmem' hactive hactive'
        (by rw [← hon, ← hon', haddress])
      exact Table.eq_of_key hmem hmem' hid
    · -- two open pools of one scope share no address
      have hdisjoint := h.apart.apart p hp p' hp' hopen hopen' hsame
        (sameScope_of_cluster hscope hscope')
      obtain ⟨q, hq, hqid, hholds, _⟩ := h.placed.pool a ha
      obtain ⟨q', hq', hqid', hholds', _⟩ := h.placed.pool a' ha'
      have hqp : q = p := Table.eq_of_key hq hp (hqid.trans hpid.symm)
      have hqp' : q' = p' := Table.eq_of_key hq' hp' (hqid'.trans hpid'.symm)
      subst hqp hqp'
      rw [hv] at hholds
      rw [hv'] at hholds'
      exact absurd hholds' fun hm => Network.not_overlaps_disjoint hdisjoint v hholds hm
  · cases hactive : l.status.active with
    | false => rfl
    | true =>
      have := h.open ha hl hon hactive hp hap.symm
      rw [hinactive] at this
      cases this

/-- **One address, one holder.** In every state a run reaches, an address is held by
one allocation at most among the pools a cluster can use, and no next transaction
moves a pool's network or cluster from under its addresses. -/
theorem exclusive_run (db : Db) (actions : List IpamAction) (next : IpamAction) :
    Exclusive (run (fresh db) actions).ipam ∧
      Frozen (run (fresh db) actions).ipam (act (run (fresh db) actions) next).ipam := by
  have hc := consistent_run (consistent_fresh db) actions
  exact ⟨hc.exclusive, (act_moves hc next).frozen⟩

/-! ### Agreement -/

/-- The allocations that hold an address row: those that have not been released. -/
def ActiveOn (t : IpamTables) (a : IpAddress) (l : IpAllocation) : Prop :=
  l ∈ t.allocations ∧ l.ipAddressId = a.id ∧ l.status.active = true

/-- An address row and its allocations tell the same state, in each of the directions in which the
service relies on it. -/
structure Agrees (t : IpamTables) : Prop where
  free : ∀ a ∈ t.addresses, (a.state = .available ∨ a.state = .disabled) ↔ ∀ l, ¬ ActiveOn t a l
  held : ∀ a ∈ t.addresses, ∀ s : IpAllocationStatus, s.active = true →
    (a.state = s.addressState ↔ ∃ l, ActiveOn t a l ∧ l.status = s ∧ ∀ m, ActiveOn t a m → m = l)
  timed : ∀ a ∈ t.addresses, a.quarantinedUntil ≠ none ↔ a.state = .quarantined
  owned : ∀ l ∈ t.allocations, l.status = .assigned → l.workloadId ≠ none

theorem addressState_inj {s s' : IpAllocationStatus} (h : s.addressState = s'.addressState) :
    s = s' := by
  cases s <;> cases s' <;> first | rfl | cases h

theorem Consistent.agrees {t : IpamTables} (h : Consistent t) : Agrees t := by
  have only {a : IpAddress} {l m : IpAllocation} (hl : ActiveOn t a l) (hm : ActiveOn t a m) :
      m = l :=
    Table.eq_of_key hm.1 hl.1
      (h.agreement.single m hm.1 l hl.1 hm.2.2 hl.2.2 (hm.2.1.trans hl.2.1.symm))
  refine ⟨fun a ha => ⟨fun hfree l hl => ?_, fun hnone => ?_⟩,
    fun a ha s hs => ⟨fun hstate => ?_, fun ⟨l, hl, hls, _⟩ => ?_⟩, h.agreement.timed,
    h.agreement.owned⟩
  · have := h.agreement.inactive ha (by rcases hfree with hf | hf <;> rw [hf] <;> rfl) hl.1 hl.2.1
    rw [hl.2.2] at this
    cases this
  · by_contra hheld
    obtain ⟨l, hl, hrest⟩ := h.agreement.held a ha
      (by cases hs : a.state <;> simp_all [IpAddressState.held])
    exact hnone l ⟨hl, hrest⟩
  · obtain ⟨l, hl, hrest⟩ := h.agreement.held a ha
      (by rw [hstate, IpAllocationStatus.held_addressState, hs])
    have hmatch := h.agreement.matched a ha l hl hrest.1 hrest.2
    exact ⟨l, ⟨hl, hrest⟩, addressState_inj (hmatch.symm.trans hstate), fun m => only ⟨hl, hrest⟩⟩
  · rw [← hls]
    exact h.agreement.matched a ha l hl.1 hl.2.1 hl.2.2

/-- **Addresses and allocations agree** in every state a run reaches, whatever calls of whichever
administrators it consists of. -/
theorem agrees_run (db : Db) (actions : List IpamAction) : Agrees (run (fresh db) actions).ipam :=
  (consistent_run (consistent_fresh db) actions).agrees

end PveMaster.Ipam
