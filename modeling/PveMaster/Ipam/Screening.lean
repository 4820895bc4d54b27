import PveMaster.Ipam.Addressing

/-! What the calls keep of the addresses of a pool.

An address is checked when its row is made; from then on the network and the gateway of its
pool stay (`Screened.updatePool`), and the exclusions of a pool are as old as the pool. -/
namespace PveMaster.Ipam
open IpamService

/-- Pools are as their requests were checked: of the family of their network, with their gateway
inside it. -/
structure Checked (pools : Table IpPool) : Prop where
  family : ∀ p ∈ pools, p.ipFamily = p.cidr.version
  gateway : ∀ p ∈ pools, ∀ g ∈ p.gateway, p.cidr.holds g = true

/-- Addresses are usable, and excluded only if they are disabled: what was checked when a row was
made still holds of the pool as it is. -/
structure Screened (t : IpamTables) : Prop where
  usable : ∀ p ∈ t.pools, ∀ a ∈ t.addresses, a.poolId = p.id → Usable p a.address
  excluded : ∀ a ∈ t.addresses, a.state ≠ .disabled → ¬ Excluded t.exclusions a.poolId a.address

theorem checked_empty : Checked .empty :=
  ⟨fun p hp => absurd hp (Table.not_mem_empty p), fun p hp => absurd hp (Table.not_mem_empty p)⟩

theorem screened_empty : Screened .empty :=
  ⟨fun p hp => absurd hp (Table.not_mem_empty p), fun a ha => absurd ha (Table.not_mem_empty a)⟩

theorem Checked.update {pools : Table IpPool} {k : Uuid} {f : IpPool → IpPool} (h : Checked pools)
    (hfamily : ∀ p ∈ pools, p.id = k → (f p).ipFamily = (f p).cidr.version)
    (hgateway : ∀ p ∈ pools, p.id = k → ∀ g ∈ (f p).gateway, (f p).cidr.holds g = true) :
    Checked (pools.update k f) :=
  ⟨Table.forall_update h.family fun p hp hk _ => hfamily p hp hk,
    Table.forall_update h.gateway fun p hp hk _ => hgateway p hp hk⟩

/-- The offset of a pool moves, or the pool is closed. -/
theorem Checked.same {pools : Table IpPool} {k : Uuid} {f : IpPool → IpPool} (h : Checked pools)
    (hf : ∀ p, (f p).ipFamily = p.ipFamily ∧ (f p).cidr = p.cidr ∧ (f p).gateway = p.gateway) :
    Checked (pools.update k f) := by
  apply h.update
  · intro p hp _
    rw [(hf p).1, (hf p).2.1]
    exact h.family p hp
  · intro p hp _
    rw [(hf p).2.1, (hf p).2.2]
    exact h.gateway p hp

/-- A pool that has addresses keeps its network and its gateway. -/
theorem Screened.updatePool {t : IpamTables} {p : IpPool} {f : IpPool → IpPool} (h : Screened t)
    (found : t.pools.get? p.id = some p) (hid : (f p).id = p.id)
    (hf : ((f p).cidr = p.cidr ∧ (f p).gateway = p.gateway) ∨ ∀ a ∈ t.addresses, a.poolId ≠ p.id) :
    Screened { t with pools := t.pools.update p.id f } where
  usable q hq a ha hpool := by
    rcases (Table.mem_update_of_get found hid).mp hq with ⟨hold, -⟩ | rfl
    · exact h.usable q hold a ha hpool
    · rw [hid] at hpool
      rcases hf with ⟨hcidr, hgateway⟩ | hnone
      · obtain ⟨hbase, hbroadcast, hnot⟩ := h.usable p (Table.get?_mem found) a ha hpool
        exact ⟨by rw [hcidr]; exact hbase, by rw [hcidr]; exact hbroadcast, by rw [hgateway]; exact hnot⟩
      · exact absurd hpool (hnone a ha)
  excluded := h.excluded

/-- A new address. -/
theorem Screened.insert {t : IpamTables} {p : IpPool} {a : IpAddress} {addresses : Table IpAddress}
    (h : Screened t) (found : t.pools.get? p.id = some p) (hpool : a.poolId = p.id)
    (inserted : t.addresses.insert a = some addresses) (husable : Usable p a.address)
    (hfree : a.state ≠ .disabled → ¬ Excluded t.exclusions a.poolId a.address) :
    Screened { t with addresses := addresses } where
  usable q hq b hb hq' := by
    rcases (Table.mem_insert inserted).mp hb with hold | rfl
    · exact h.usable q hq b hold hq'
    · have heq : q = p := Table.eq_of_key hq (Table.get?_mem found) (hq'.symm.trans hpool)
      rwa [heq]
  excluded b hb := by
    rcases (Table.mem_insert inserted).mp hb with hold | rfl
    · exact h.excluded b hold
    · exact hfree

/-- A row is rewritten where it is. -/
theorem Screened.rewrite {t : IpamTables} {a : IpAddress} {f : IpAddress → IpAddress}
    {allocations : Table IpAllocation} (h : Screened t) (found : t.addresses.get? a.id = some a)
    (keeps : (f a).id = a.id ∧ (f a).poolId = a.poolId ∧ (f a).address = a.address)
    (hstate : (f a).state ≠ .disabled → a.state ≠ .disabled) :
    Screened { updateAddress t a.id f with allocations := allocations } where
  usable p hp b hb hpool := by
    rcases (Table.mem_update_of_get found keeps.1).mp hb with ⟨hold, -⟩ | rfl
    · exact h.usable p hp b hold hpool
    · rw [keeps.2.1] at hpool
      rw [keeps.2.2]
      exact h.usable p hp a (Table.get?_mem found) hpool
  excluded b hb hb' := by
    rcases (Table.mem_update_of_get found keeps.1).mp hb with ⟨hold, -⟩ | rfl
    · exact h.excluded b hold hb'
    · rw [keeps.2.1, keeps.2.2]
      exact h.excluded a (Table.get?_mem found) (hstate hb')

theorem validatedCandidate_special {pool : IpPool} {candidate address : Address}
    (h : validatedCandidate pool candidate = .ok address) : special pool candidate = false := by
  simp only [validatedCandidate, bind_ok, raiseIf_ok, pure_ok] at h
  obtain ⟨-, -, -, hspecial, -⟩ := h
  simpa using hspecial

theorem candidateAddress_checked {t t' : IpamTables} {pool : IpPool} {requested : Option Address}
    {draws : Draws} {a : IpAddress} (h : Checked t.pools)
    (hcandidate : candidateAddress t pool requested draws = .ok (t', a)) : Checked t'.pools := by
  cases requested with
  | none =>
    simp only [candidateAddress, automaticCandidate] at hcandidate
    split at hcandidate
    · cases hcandidate
      exact h
    · simp only [bind_ok, orRaise_ok, pure_ok, Prod.mk.injEq] at hcandidate
      obtain ⟨offset, -, candidate, -, t'', hinsert, rfl, rfl⟩ := hcandidate
      obtain ⟨addresses, -, -, rfl⟩ := insertAddress_ok hinsert
      exact h.same fun _ => ⟨rfl, rfl, rfl⟩
  | some literal =>
    simp only [candidateAddress, bind_ok, raiseIf_ok] at hcandidate
    obtain ⟨candidate, -, -, -, hcandidate⟩ := hcandidate
    split at hcandidate
    · cases hcandidate
      exact h
    · simp only [bind_ok, pure_ok, Prod.mk.injEq] at hcandidate
      obtain ⟨t'', hinsert, rfl, rfl⟩ := hcandidate
      obtain ⟨addresses, -, -, rfl⟩ := insertAddress_ok hinsert
      exact h

theorem candidateAddress_screened {t t' : IpamTables} {pool : IpPool} {requested : Option Address}
    {draws : Draws} {a : IpAddress} (hc : Consistent t) (hchecked : Checked t.pools) (h : Screened t)
    (hpool : t.pools.get? pool.id = some pool) (hscope : ∀ v ∈ requested, v.scopeId = none)
    (hcandidate : candidateAddress t pool requested draws = .ok (t', a)) : Screened t' := by
  have hmem := Table.get?_mem hpool
  cases requested with
  | none =>
    simp only [candidateAddress, automaticCandidate] at hcandidate
    split at hcandidate
    · cases hcandidate
      exact h
    · simp only [bind_ok, orRaise_ok, pure_ok, Prod.mk.injEq] at hcandidate
      obtain ⟨offset, hoffset, candidate, hat, t'', hinsert, rfl, rfl⟩ := hcandidate
      obtain ⟨addresses, hinserted, -, rfl⟩ := insertAddress_ok hinsert
      have hnext := hc.placed.offset pool hmem
      have hlt := chosenOffset_lt hnext hoffset
      unfold addressAt at hat
      split at hat
      · next hbound =>
        cases hat
        have hholds : pool.cidr.holds ⟨pool.cidr.version, pool.cidr.base + offset, hbound⟩ = true :=
          (Network.holds_iff _ _).mpr ⟨rfl, Nat.le_add_right _ _, Nat.add_lt_add_left hlt _⟩
        -- The offset is blocked for no reason, so the address is neither special nor excluded.
        have hfree : ¬ Covered (forbiddenOffsets t pool)
            (((pool.cidr.base + offset : Nat) : Int) - pool.cidr.base) := by
          rintro ⟨b, hb, hin⟩
          exact chosenOffset_free hnext hoffset ⟨b, mem_blockedOffsets.mpr (Or.inl hb), by omega⟩
        rw [covered_forbidden hholds (hchecked.gateway pool hmem), not_or, not_not] at hfree
        have hmoved : Screened { t with
            pools := t.pools.update pool.id (movedOffset ((offset + 1) % pool.cidr.numAddresses)) } :=
          h.updatePool hpool rfl (Or.inl ⟨rfl, rfl⟩)
        have hget : (t.pools.update pool.id (movedOffset ((offset + 1) % pool.cidr.numAddresses))).get? pool.id =
            some (movedOffset ((offset + 1) % pool.cidr.numAddresses) pool) := Table.get?_update_same hpool rfl
        exact hmoved.insert (p := movedOffset ((offset + 1) % pool.cidr.numAddresses) pool) hget rfl hinserted
          ⟨hfree.1.base, hfree.1.broadcast, hfree.1.gateway⟩ fun _ => hfree.2
      · cases hat
  | some literal =>
    simp only [candidateAddress, bind_ok, raiseIf_ok] at hcandidate
    obtain ⟨candidate, hvalid, -, hexcluded, hcandidate⟩ := hcandidate
    have hspecial := validatedCandidate_special hvalid
    obtain ⟨rfl, hinside⟩ := validatedCandidate_ok hvalid
    split at hcandidate
    · cases hcandidate
      exact h
    · simp only [bind_ok, pure_ok, Prod.mk.injEq] at hcandidate
      obtain ⟨t'', hinsert, rfl, rfl⟩ := hcandidate
      obtain ⟨addresses, hinserted, -, rfl⟩ := insertAddress_ok hinsert
      have husable := (special_unscoped hinside (hscope _ rfl)).mp hspecial
      exact h.insert hpool rfl hinserted husable fun _ hex => hexcluded (isExcluded_iff.mpr hex)

/-! ### The calls -/

/-- What a call keeps of the tables. -/
theorem keeps_of {P : IpamTables → Prop} {α : Type} {db : Db} {x : Except Exn (Outcome α)} (hP : P db.ipam)
    (h : ∀ o, x = .ok o → P o.db.ipam) : P (Outcome.of db x).db.ipam :=
  Outcome.of_cases (P := fun d => P d.ipam) hP h

/-- The literals of a call carry no scope id, as no IPv4 literal does. -/
def IpamCall.unscoped : IpamCall → Prop
  | .createPool payload => (∀ n ∈ payload.cidr, n.networkAddress.scopeId = none) ∧
      (∀ g ∈ payload.gateway, g.scopeId = none) ∧ (∀ a ∈ payload.dnsServers, a.scopeId = none) ∧
      ∀ r ∈ payload.excludedRanges, r.start.scopeId = none ∧ r.stop.scopeId = none
  | .updatePool _ payload => (∀ c ∈ payload.cidr, ∀ n ∈ c, n.networkAddress.scopeId = none) ∧
      (∀ g ∈ payload.gateway, ∀ a ∈ g, a.scopeId = none) ∧ ∀ l ∈ payload.dnsServers, ∀ dns ∈ l, ∀ a ∈ dns, a.scopeId = none
  | .reserveAddress _ address _ => address.scopeId = none
  | .allocate _ _ requested | .reserveForProvisioning _ _ requested => ∀ a ∈ requested, a.scopeId = none
  | .deletePool .. | .confirmProvisioningIp .. | .quarantineProvisioningIp _ | .release .. | .approveRelease _ => True

section Calls
variable {svc : IpamService} {db : Db} {draws : Draws}

theorem gatewayInside_ok {gateway : Option Address} {network : Network} {u : Unit}
    (h : gatewayInside gateway network = .ok u) : ∀ g ∈ gateway.map Address.inet, network.stored.holds g = true := by
  unfold gatewayInside at h
  rw [raiseIf_ok] at h
  push Not at h
  intro g hg
  obtain ⟨a, ha, rfl⟩ := Option.map_eq_some_iff.mp hg
  exact Bool.eq_true_of_not_eq_false (h a ha)

theorem createPool_checked (payload : IpPoolCreate) (h : Checked db.ipam.pools) :
    Checked (svc.createPool db payload draws).db.ipam.pools := by
  apply keeps_of (P := fun t => Checked t.pools) h
  intro o ho
  simp only [bind_ok, raiseIf_ok, onIntegrity_ok, pure_ok] at ho
  obtain ⟨network, -, _, hgateway, -, -, -, -, -, -, -, -, t', hinsert, rfl⟩ := ho
  simp only [insertPool, bind_ok, orRaise_ok, raiseIf_ok, pure_ok] at hinsert
  obtain ⟨pools, hpools, -, -, exclusions, -, -, -, rfl⟩ := hinsert
  constructor
  · intro p hp
    rcases (Table.mem_insert hpools).mp hp with hold | rfl
    · exact h.family p hold
    · rfl
  · intro p hp
    rcases (Table.mem_insert hpools).mp hp with hold | rfl
    · exact h.gateway p hold
    · exact gatewayInside_ok hgateway

theorem createPool_screened (payload : IpPoolCreate) (hc : Consistent db.ipam) (h : Screened db.ipam) :
    Screened (svc.createPool db payload draws).db.ipam := by
  apply keeps_of h
  intro o ho
  simp only [bind_ok, raiseIf_ok, onIntegrity_ok, pure_ok] at ho
  obtain ⟨network, -, -, -, -, -, -, -, -, -, -, -, t', hinsert, rfl⟩ := ho
  simp only [insertPool, bind_ok, orRaise_ok, raiseIf_ok, pure_ok] at hinsert
  obtain ⟨pools, hpools, -, -, exclusions, hexclusions, -, -, rfl⟩ := hinsert
  -- The pool is new, so no address is in it yet.
  have hnone : ∀ a ∈ db.ipam.addresses, a.poolId ≠ (svc.newPool payload network draws).id := by
    intro a ha hpool
    obtain ⟨p, hp, hid, -⟩ := hc.placed.pool a ha
    exact (Table.insert_some hpools).2 p hp (hid.trans hpool)
  constructor
  · intro p hp a ha hpool
    rcases (Table.mem_insert hpools).mp hp with hold | rfl
    · exact h.usable p hold a ha hpool
    · exact absurd hpool (hnone a ha)
  · rintro a ha hstate ⟨e, he, hpool, hin⟩
    rcases (Table.mem_insertAll hexclusions).mp he with hold | hnew
    · exact h.excluded a ha hstate ⟨e, hold, hpool, hin⟩
    · obtain ⟨r, -, rfl⟩ := List.mem_map.mp hnew
      exact hnone a ha hpool.symm

theorem updatePool_checked (poolId : Uuid) (payload : IpPoolUpdate) (h : Checked db.ipam.pools) :
    Checked (svc.updatePool db poolId payload).db.ipam.pools := by
  apply keeps_of (P := fun t => Checked t.pools) h
  intro o ho
  simp only [bind_ok, raiseIf_ok, pure_ok] at ho
  obtain ⟨pool, -, -, -, network, -, _, hgateway, -, -, -, -, -, -, -, -, -, -, -, -, rfl⟩ := ho
  apply h.update
  · intros
    rfl
  · intros _ _ _
    exact gatewayInside_ok hgateway

theorem updatePool_screened (poolId : Uuid) (payload : IpPoolUpdate) (h : Screened db.ipam) :
    Screened (svc.updatePool db poolId payload).db.ipam := by
  apply keeps_of h
  intro o ho
  simp only [bind_ok, raiseIf_ok, pure_ok] at ho
  obtain ⟨pool, hlock, -, -, network, -, -, -, -, -, -, -, -, hused, -, -, -, -, -, -, rfl⟩ := ho
  obtain ⟨hget, -⟩ := lockedPool_ok hlock
  apply h.updatePool hget rfl
  by_cases hnone : ∀ a ∈ db.ipam.addresses, a.poolId ≠ pool.id
  · exact Or.inr hnone
  · left
    have hsome : db.ipam.addresses.select (fun a => a.poolId == pool.id) ≠ [] := by
      push Not at hnone
      obtain ⟨a, ha, hap⟩ := hnone
      exact List.ne_nil_of_mem (Table.mem_select.mpr ⟨ha, by simp [hap]⟩)
    simp only [hsome, ne_eq, not_false_eq_true, and_true, not_or, not_not] at hused
    constructor
    · rw [← Cidr.stored_toNetwork pool.cidr, ← hused.1]
      rfl
    · show (payload.gateway.getD (pool.gateway.map Inet.address)).map Address.inet = pool.gateway
      rw [hused.2.2]
      cases pool.gateway <;> rfl

theorem deletePool_checked (poolId : Uuid) (version : Nat) (h : Checked db.ipam.pools) :
    Checked (svc.deletePool db poolId version).db.ipam.pools := by
  apply keeps_of (P := fun t => Checked t.pools) h
  intro o ho
  simp only [bind_ok, raiseIf_ok, pure_ok] at ho
  obtain ⟨pool, -, -, -, -, -, rfl⟩ := ho
  exact h.same fun _ => ⟨rfl, rfl, rfl⟩

theorem deletePool_screened (poolId : Uuid) (version : Nat) (h : Screened db.ipam) :
    Screened (svc.deletePool db poolId version).db.ipam := by
  apply keeps_of h
  intro o ho
  simp only [bind_ok, raiseIf_ok, pure_ok] at ho
  obtain ⟨pool, hlock, -, -, -, -, rfl⟩ := ho
  obtain ⟨hget, -⟩ := lockedPool_ok hlock
  exact h.updatePool hget rfl (Or.inl ⟨rfl, rfl⟩)

theorem reserveAddress_checked (poolId : Uuid) (address : Address) (reason : String) (h : Checked db.ipam.pools) :
    Checked (svc.reserveAddress db poolId address reason draws).db.ipam.pools := by
  apply keeps_of (P := fun t => Checked t.pools) h
  intro o ho
  simp only [bind_ok] at ho
  obtain ⟨pool, -, candidate, -, ho⟩ := ho
  split at ho
  · simp only [bind_ok, pure_ok] at ho
    obtain ⟨-, -, rfl⟩ := ho
    exact h
  · simp only [bind_ok, pure_ok] at ho
    obtain ⟨t', hinsert, rfl⟩ := ho
    obtain ⟨addresses, -, -, rfl⟩ := insertAddress_ok hinsert
    exact h

theorem reserveAddress_screened (poolId : Uuid) (address : Address) (reason : String)
    (hscope : address.scopeId = none) (h : Screened db.ipam) :
    Screened (svc.reserveAddress db poolId address reason draws).db.ipam := by
  apply keeps_of h
  intro o ho
  simp only [bind_ok] at ho
  obtain ⟨pool, hlock, candidate, hvalid, ho⟩ := ho
  obtain ⟨hget, -⟩ := lockedPool_ok hlock
  have hspecial := validatedCandidate_special hvalid
  obtain ⟨rfl, hinside⟩ := validatedCandidate_ok hvalid
  split at ho
  · next existing hrow =>
    obtain ⟨hmem, -, -⟩ := addressRow_some hrow
    simp only [bind_ok, pure_ok] at ho
    obtain ⟨-, -, rfl⟩ := ho
    exact h.rewrite (Table.get?_of_mem hmem) ⟨rfl, rfl, rfl⟩ fun hne => absurd rfl hne
  · simp only [bind_ok, pure_ok] at ho
    obtain ⟨t', hinsert, rfl⟩ := ho
    obtain ⟨addresses, hinserted, -, rfl⟩ := insertAddress_ok hinsert
    exact h.insert hget rfl hinserted ((special_unscoped hinside hscope).mp hspecial) fun hne => absurd rfl hne

/-- An allocation of a chosen address. -/
theorem Screened.take {t t' t'' : IpamTables} {pool : IpPool} {a : IpAddress} {l : IpAllocation}
    {f : IpAddress → IpAddress} (h : Screened t') (hchosen : Chosen t t' pool a) (hfree : a.state = .available)
    (keeps : (f a).id = a.id ∧ (f a).poolId = a.poolId ∧ (f a).address = a.address)
    (hinsert : insertAllocation db (updateAddress t' a.id f) l = .ok t'') : Screened t'' := by
  obtain ⟨allocations, -, -, rfl⟩ := insertAllocation_ok hinsert
  apply h.rewrite hchosen.found keeps
  intro _
  rw [hfree]
  nofun

theorem Checked.take {t t' : IpamTables} {l : IpAllocation} {id : Uuid} {f : IpAddress → IpAddress}
    (h : Checked t.pools) (hinsert : insertAllocation db (updateAddress t id f) l = .ok t') : Checked t'.pools := by
  obtain ⟨allocations, -, -, rfl⟩ := insertAllocation_ok hinsert
  exact h

theorem allocate_checked (poolId workloadId : Uuid) (requested : Option Address) (h : Checked db.ipam.pools) :
    Checked (svc.allocate db poolId workloadId requested draws).db.ipam.pools := by
  apply keeps_of (P := fun t => Checked t.pools) h
  intro o ho
  simp only [bind_ok, onIntegrity_ok, pure_ok, Prod.exists] at ho
  obtain ⟨pool, -, workload, -, -, -, t', a, hcandidate, -, -, t'', hinsert, rfl⟩ := ho
  exact (candidateAddress_checked h hcandidate).take hinsert

theorem allocate_screened (poolId workloadId : Uuid) (requested : Option Address)
    (hscope : ∀ a ∈ requested, a.scopeId = none) (hc : Consistent db.ipam) (hchecked : Checked db.ipam.pools)
    (h : Screened db.ipam) : Screened (svc.allocate db poolId workloadId requested draws).db.ipam := by
  apply keeps_of h
  intro o ho
  simp only [bind_ok, raiseIf_ok, onIntegrity_ok, pure_ok, Prod.exists, not_not] at ho
  obtain ⟨pool, hlock, workload, -, -, -, t', a, hcandidate, -, hfree, t'', hinsert, rfl⟩ := ho
  obtain ⟨hget, hactive⟩ := lockedPool_ok hlock
  exact (candidateAddress_screened hc hchecked h hget hscope hcandidate).take
    (candidateAddress_ok hc hget hactive hcandidate) hfree ⟨rfl, rfl, rfl⟩ hinsert

theorem reserveForProvisioning_checked (poolId requestId : Uuid) (requested : Option Address)
    (h : Checked db.ipam.pools) :
    Checked (svc.reserveForProvisioning db poolId requestId requested draws).db.ipam.pools := by
  apply keeps_of (P := fun t => Checked t.pools) h
  intro o ho
  simp only [bind_ok] at ho
  obtain ⟨pool, -, ho⟩ := ho
  split at ho
  · simp only [bind_ok, pure_ok] at ho
    obtain ⟨_, -, rfl⟩ := ho
    exact h
  · simp only [bind_ok, onIntegrity_ok, pure_ok, Prod.exists] at ho
    obtain ⟨t', a, hcandidate, -, -, t'', hinsert, rfl⟩ := ho
    exact (candidateAddress_checked h hcandidate).take hinsert

theorem reserveForProvisioning_screened (poolId requestId : Uuid) (requested : Option Address)
    (hscope : ∀ a ∈ requested, a.scopeId = none) (hc : Consistent db.ipam) (hchecked : Checked db.ipam.pools)
    (h : Screened db.ipam) :
    Screened (svc.reserveForProvisioning db poolId requestId requested draws).db.ipam := by
  apply keeps_of h
  intro o ho
  simp only [bind_ok] at ho
  obtain ⟨pool, hlock, ho⟩ := ho
  obtain ⟨hget, hactive⟩ := lockedPool_ok hlock
  split at ho
  · simp only [bind_ok, pure_ok] at ho
    obtain ⟨_, -, rfl⟩ := ho
    exact h
  · simp only [bind_ok, raiseIf_ok, onIntegrity_ok, pure_ok, Prod.exists, not_not] at ho
    obtain ⟨t', a, hcandidate, -, hfree, t'', hinsert, rfl⟩ := ho
    exact (candidateAddress_screened hc hchecked h hget hscope hcandidate).take
      (candidateAddress_ok hc hget hactive hcandidate) hfree ⟨rfl, rfl, rfl⟩ hinsert

/-- An address with an active allocation is not disabled. -/
theorem active_not_disabled {t : IpamTables} (hc : Consistent t) {l : IpAllocation} {a : IpAddress}
    (hl : l ∈ t.allocations) (ha : t.addresses.get? l.ipAddressId = some a) (hactive : l.status.active = true) :
    a.state ≠ .disabled := by
  have hid : a.id = l.ipAddressId := Table.get?_key ha
  rw [hc.agreement.matched a (Table.get?_mem ha) l hl hid.symm hactive]
  cases l.status <;> nofun

/-- The address of an active allocation is rewritten where it is. -/
theorem Screened.held {t : IpamTables} {l : IpAllocation} {a : IpAddress} {f : IpAddress → IpAddress}
    {g : IpAllocation → IpAllocation} (h : Screened t) (hc : Consistent t) (hl : l ∈ t.allocations)
    (ha : t.addresses.get? l.ipAddressId = some a) (hactive : l.status.active = true)
    (keeps : (f a).id = a.id ∧ (f a).poolId = a.poolId ∧ (f a).address = a.address) :
    Screened (updateAddress (updateAllocation t l.id g) a.id f) := by
  have hid : a.id = l.ipAddressId := Table.get?_key ha
  exact h.rewrite (by rw [hid]; exact ha) keeps fun _ => active_not_disabled hc hl ha hactive

theorem confirmProvisioningIp_screened (requestId workloadId : Uuid) (hc : Consistent db.ipam)
    (h : Screened db.ipam) : Screened (confirmProvisioningIp db requestId workloadId draws).db.ipam := by
  apply keeps_of h
  intro o ho
  split at ho
  · split at ho
    · cases ho
      exact h
    · cases ho
  · next l hl =>
    simp only [bind_ok, orRaise_ok, pure_ok] at ho
    obtain ⟨a, ha, -, -, rfl⟩ := ho
    obtain ⟨hmem, -, hstatus⟩ := requestAllocation_some hl
    have hreserved : l.status = .reserved := by simpa using hstatus
    exact h.held hc hmem ha (by rw [hreserved]; rfl) ⟨rfl, rfl, rfl⟩

theorem quarantineProvisioningIp_screened (requestId : Uuid) (hc : Consistent db.ipam) (h : Screened db.ipam) :
    Screened (quarantineProvisioningIp db requestId draws).db.ipam := by
  apply keeps_of h
  intro o ho
  split at ho
  · cases ho
    exact h
  · next l hl =>
    simp only [bind_ok, orRaise_ok, pure_ok] at ho
    obtain ⟨a, ha, pool, -, rfl⟩ := ho
    obtain ⟨hmem, -, hstatus⟩ := requestAllocation_some hl
    have hreserved : l.status = .reserved := by simpa using hstatus
    exact h.held hc hmem ha (by rw [hreserved]; rfl) ⟨rfl, rfl, rfl⟩

theorem release_screened (allocationId : Uuid) (reason : String) (hc : Consistent db.ipam) (h : Screened db.ipam) :
    Screened (svc.release db allocationId reason draws).db.ipam := by
  apply keeps_of h
  intro o ho
  simp only [bind_ok, orRaise_ok] at ho
  obtain ⟨l, hl, a, ha, pool, -, ho⟩ := ho
  split at ho
  · cases ho
    exact h
  · next hstatus =>
    cases ho
    have hactive : l.status.active = true := by
      rw [not_or] at hstatus
      cases hs : l.status with
      | reserved | assigned | quarantined => rfl
      | released => exact absurd hs hstatus.1
    exact h.held hc (Table.get?_mem hl) ha hactive ⟨rfl, rfl, rfl⟩

theorem approveRelease_screened (addressId : Uuid) (h : Screened db.ipam) :
    Screened (svc.approveRelease db addressId draws).db.ipam := by
  apply keeps_of h
  intro o ho
  simp only [bind_ok, orRaise_ok, raiseIf_ok, pure_ok, not_not] at ho
  obtain ⟨a, ha, -, hquarantined, -, -, l, -, -, -, rfl⟩ := ho
  have hid : a.id = addressId := Table.get?_key ha
  apply h.rewrite (by rw [hid]; exact ha) ⟨rfl, rfl, rfl⟩
  intro _
  rw [hquarantined]
  decide

/-- **Every call** leaves pools as requests are checked. -/
theorem act_checked (h : Checked db.ipam.pools) (a : IpamAction) : Checked (act db a).ipam.pools := by
  cases a with
  | other f => exact h
  | call svc draws c =>
    cases c with
    | createPool payload => exact createPool_checked payload h
    | updatePool poolId payload => exact updatePool_checked poolId payload h
    | deletePool poolId version => exact deletePool_checked poolId version h
    | reserveAddress poolId address reason => exact reserveAddress_checked poolId address reason h
    | allocate poolId workloadId requested => exact allocate_checked poolId workloadId requested h
    | reserveForProvisioning poolId requestId requested =>
      exact reserveForProvisioning_checked poolId requestId requested h
    | confirmProvisioningIp requestId workloadId =>
      apply keeps_of (P := fun t => Checked t.pools) h
      intro o ho
      split at ho
      · split at ho <;> cases ho
        exact h
      · simp only [bind_ok, pure_ok] at ho
        obtain ⟨_, -, _, -, rfl⟩ := ho
        exact h
    | quarantineProvisioningIp requestId =>
      apply keeps_of (P := fun t => Checked t.pools) h
      intro o ho
      split at ho
      · cases ho
        exact h
      · simp only [bind_ok, pure_ok] at ho
        obtain ⟨_, -, _, -, rfl⟩ := ho
        exact h
    | release allocationId reason =>
      apply keeps_of (P := fun t => Checked t.pools) h
      intro o ho
      simp only [bind_ok] at ho
      obtain ⟨_, -, _, -, _, -, ho⟩ := ho
      split at ho <;> cases ho <;> exact h
    | approveRelease addressId =>
      apply keeps_of (P := fun t => Checked t.pools) h
      intro o ho
      simp only [bind_ok, pure_ok] at ho
      obtain ⟨_, -, _, -, _, -, _, -, _, -, rfl⟩ := ho
      exact h

end Calls

def IpamAction.unscoped : IpamAction → Prop
  | .call _ _ c => c.unscoped
  | .other _ => True

/-- **Every call** whose literals carry no scope id keeps the addresses usable. -/
theorem act_screened {db : Db} (hc : Consistent db.ipam) (hchecked : Checked db.ipam.pools) (h : Screened db.ipam)
    {a : IpamAction} (ha : a.unscoped) : Screened (act db a).ipam := by
  cases a with
  | other f => exact h
  | call svc draws c =>
    cases c with
    | createPool payload => exact createPool_screened payload hc h
    | updatePool poolId payload => exact updatePool_screened poolId payload h
    | deletePool poolId version => exact deletePool_screened poolId version h
    | reserveAddress poolId address reason => exact reserveAddress_screened poolId address reason ha h
    | allocate poolId workloadId requested => exact allocate_screened poolId workloadId requested ha hc hchecked h
    | reserveForProvisioning poolId requestId requested =>
      exact reserveForProvisioning_screened poolId requestId requested ha hc hchecked h
    | confirmProvisioningIp requestId workloadId => exact confirmProvisioningIp_screened requestId workloadId hc h
    | quarantineProvisioningIp requestId => exact quarantineProvisioningIp_screened requestId hc h
    | release allocationId reason => exact release_screened allocationId reason hc h
    | approveRelease addressId => exact approveRelease_screened addressId h

theorem checked_run {db : Db} (h : Checked db.ipam.pools) (actions : List IpamAction) :
    Checked (run db actions).ipam.pools := by
  induction actions generalizing db with
  | nil => exact h
  | cons a rest ih => exact ih (act_checked h a)

theorem screened_run {db : Db} {actions : List IpamAction} (hc : Consistent db.ipam)
    (hchecked : Checked db.ipam.pools) (h : Screened db.ipam) (hscope : ∀ a ∈ actions, a.unscoped) :
    Screened (run db actions).ipam := by
  induction actions generalizing db with
  | nil => exact h
  | cons a rest ih =>
    have ha := hscope a List.mem_cons_self
    exact ih (hc.moves (act_moves hc a)) (act_checked hchecked a) (act_screened hc hchecked h ha)
      fun b hb => hscope b (List.mem_cons_of_mem _ hb)

/-! ### Addresses stay in their space -/

/-- Every address is one its pool may give out, and the pool's offset is one of its own. -/
structure InSpace (t : IpamTables) : Prop where
  inside : ∀ p ∈ t.pools, ∀ a ∈ t.addresses, a.poolId = p.id → p.cidr.holds a.address = true
  family : ∀ p ∈ t.pools, ∀ a ∈ t.addresses, a.poolId = p.id → a.address.version = p.ipFamily
  usable : ∀ p ∈ t.pools, ∀ a ∈ t.addresses, a.poolId = p.id → Usable p a.address
  included : ∀ p ∈ t.pools, ∀ a ∈ t.addresses, a.poolId = p.id → a.state ≠ .disabled →
    ¬ Excluded t.exclusions p.id a.address
  offset : ∀ p ∈ t.pools, p.nextOffset < p.cidr.numAddresses

theorem Screened.inSpace {t : IpamTables} (h : Screened t) (hc : Consistent t) (hchecked : Checked t.pools) :
    InSpace t := by
  have hinside : ∀ p ∈ t.pools, ∀ a ∈ t.addresses, a.poolId = p.id → p.cidr.holds a.address = true := by
    intro p hp a ha hpool
    obtain ⟨q, hq, hid, hholds, -⟩ := hc.placed.pool a ha
    have heq : q = p := Table.eq_of_key hq hp (hid.trans hpool)
    rwa [heq] at hholds
  constructor
  · exact hinside
  · intro p hp a ha hpool
    obtain ⟨hversion, -, -⟩ := (Network.holds_iff _ _).mp (hinside p hp a ha hpool)
    rw [hversion, hchecked.family p hp]
  · exact h.usable
  · intro p hp a ha hpool hstate
    rw [← hpool]
    exact h.excluded a ha hstate
  · exact hc.placed.offset

/-- **Address space**: in every state that calls without scope ids reach. -/
theorem inSpace_run (db : Db) (actions : List IpamAction) (hscope : ∀ a ∈ actions, a.unscoped) :
    InSpace (run (fresh db) actions).ipam :=
  (screened_run (consistent_fresh db) checked_empty screened_empty hscope).inSpace
    (consistent_run (consistent_fresh db) actions) (checked_run checked_empty actions)

/-! ### Two policies -/

/-- A named address that has no row yet passes the checks that are made of such a one. -/
def NamedPasses (t : IpamTables) (pool : IpPool) (a : Address) : Prop :=
  validatedCandidate pool a = .ok a ∧ isExcluded t pool.id a = false

/-- The automatic choice does not block the address: no interval it avoids holds the address,
apart from those of stored rows. -/
def ChoiceAllows (t : IpamTables) (pool : IpPool) (a : Address) : Prop :=
  pool.cidr.contains a = true ∧ ¬ Covered (forbiddenOffsets t pool) ((a.ip : Int) - pool.cidr.base)

theorem namedPasses_iff {t : IpamTables} {pool : IpPool} {a : Address} : NamedPasses t pool a ↔
    pool.cidr.contains a = true ∧ special pool a = false ∧ ¬ Excluded t.exclusions pool.id a.inet := by
  unfold NamedPasses validatedCandidate
  rw [← Bool.not_eq_true (isExcluded t pool.id a), isExcluded_iff]
  simp only [bind_ok, raiseIf_ok, pure_ok, not_or, and_true, exists_const, ne_eq, not_not, Bool.not_eq_false,
    Bool.not_eq_true]
  constructor
  · rintro ⟨⟨⟨-, hin⟩, hspecial⟩, hfree⟩
    exact ⟨hin, hspecial, hfree⟩
  · rintro ⟨hin, hspecial, hfree⟩
    exact ⟨⟨⟨((Network.containsIp_iff _ _ _).mp hin).1, hin⟩, hspecial⟩, hfree⟩

theorem choiceAllows_iff {t : IpamTables} {pool : IpPool} {a : Address}
    (hgateway : ∀ g ∈ pool.gateway, pool.cidr.holds g = true) : ChoiceAllows t pool a ↔
      pool.cidr.contains a = true ∧ Usable pool a.inet ∧ ¬ Excluded t.exclusions pool.id a.inet := by
  unfold ChoiceAllows
  apply and_congr_right
  intro hin
  have hin' : pool.cidr.holds a.inet = true := hin
  have hcovered := covered_forbidden (t := t) hin' hgateway
  rw [show (a.ip : Int) = (a.inet.ip : Int) from rfl, hcovered, not_or, not_not]

/-- **Named and chosen addresses** follow one policy, except that a literal with a scope id is
told apart from the network address and from the gateway, which are stored without one. -/
theorem named_as_chosen (db : Db) (actions : List IpamAction) (pool : IpPool)
    (hpool : pool ∈ (run (fresh db) actions).ipam.pools) (a : Address) :
    (NamedPasses (run (fresh db) actions).ipam pool a ↔ ChoiceAllows (run (fresh db) actions).ipam pool a) ↔
      (a.scopeId ≠ none → pool.cidr.contains a = true → isExcluded (run (fresh db) actions).ipam pool.id a = false →
        a.ip ≠ pool.cidr.base ∧ pool.gateway ≠ some a.inet) := by
  have hgateway := (checked_run (checked_empty : Checked (fresh db).ipam.pools) actions).gateway pool hpool
  rw [namedPasses_iff, choiceAllows_iff hgateway]
  by_cases hin : pool.cidr.contains a = true
  · by_cases hscope : a.scopeId = none
    · simp [special_unscoped hin hscope, hscope]
    · have hspecial := special_scoped hin hscope
      have hversion : pool.cidr.version ≠ .v4 := by
        obtain ⟨hsame, -, -⟩ := (Network.containsIp_iff _ _ _).mp hin
        exact fun h => hscope (a.unscoped (hsame.trans h))
      have husable : Usable pool a.inet ↔ a.ip ≠ pool.cidr.base ∧ pool.gateway ≠ some a.inet :=
        ⟨fun h => ⟨h.base, h.gateway⟩, fun h => ⟨h.1, fun hv => absurd hv hversion, h.2⟩⟩
      rw [← Bool.not_eq_true (isExcluded _ pool.id a), isExcluded_iff, husable]
      simp only [hin, hspecial, hscope, true_and, ne_eq, not_false_eq_true, forall_const]
      tauto
  · simp [hin]

/-- A link-local network with a gateway. -/
def linkLocal : IpPoolCreate where
  name := "link-local"
  clusterId := none
  cidr := some
    { networkAddress := ⟨.v6, 0xfe80 <<< 112, none, by decide, nofun⟩
      prefixlen := 64
      lenLe := by decide
      aligned := ⟨0xfe80 <<< 48, by decide⟩ }
  gateway := some ⟨.v6, (0xfe80 <<< 112) + 1, none, by decide, nofun⟩
  dnsServers := []
  bridge := "vmbr0"
  vlanTag := none
  excludedRanges := []
  allocationStrategy := .sequential
  quarantineSeconds := 600

def root : IpamService := ⟨⟨1, "root@pve", .superAdmin, 1⟩, rfl⟩

def firstDraws : Draws := ⟨0, 0, fun n => n + 7, fun _ => 0⟩

/-- The pool of that network, and an address of it that is reserved. -/
def linkLocalRun : List IpamAction :=
  [.call root firstDraws (.createPool linkLocal),
    .call root firstDraws (.reserveAddress 7 ⟨.v6, (0xfe80 <<< 112) + 2, none, by decide, nofun⟩ "printer")]

theorem linkLocal_inSpace : InSpace (run (fresh .empty) linkLocalRun).ipam := by
  apply inSpace_run
  intro a ha
  simp only [linkLocalRun, List.mem_cons, List.not_mem_nil, or_false] at ha
  rcases ha with rfl | rfl
  · simp [IpamAction.unscoped, IpamCall.unscoped, linkLocal]
  · rfl

/-- The gateway, named with a scope id. -/
def scopedGateway : Address := ⟨.v6, (0xfe80 <<< 112) + 1, some "eth0", by decide, nofun⟩

def linkLocalPool : IpPool :=
  root.newPool linkLocal
    ⟨⟨.v6, 0xfe80 <<< 112, none, by decide, nofun⟩, 64, by decide, ⟨0xfe80 <<< 48, by decide⟩⟩ firstDraws

theorem linkLocalPool_mem : linkLocalPool ∈ (run (fresh .empty) linkLocalRun).ipam.pools := by
  apply Table.mem_rows.mp
  decide +kernel

theorem scopedGateway_policies :
    (NamedPasses (run (fresh .empty) linkLocalRun).ipam linkLocalPool scopedGateway ↔
      ChoiceAllows (run (fresh .empty) linkLocalRun).ipam linkLocalPool scopedGateway) ↔
        (scopedGateway.scopeId ≠ none → linkLocalPool.cidr.contains scopedGateway = true →
          isExcluded (run (fresh .empty) linkLocalRun).ipam linkLocalPool.id scopedGateway = false →
            scopedGateway.ip ≠ linkLocalPool.cidr.base ∧ linkLocalPool.gateway ≠ some scopedGateway.inet) :=
  named_as_chosen .empty linkLocalRun linkLocalPool linkLocalPool_mem scopedGateway

/-- It is given out, although the automatic choice would not take it. -/
theorem scopedGateway_passes :
    ¬ (NamedPasses (run (fresh .empty) linkLocalRun).ipam linkLocalPool scopedGateway ↔
      ChoiceAllows (run (fresh .empty) linkLocalRun).ipam linkLocalPool scopedGateway) := by
  intro h
  obtain ⟨-, hnot⟩ := h.mp ⟨by decide, by decide⟩
  exact hnot ⟨(1, 1), by decide, by decide⟩

end PveMaster.Ipam
