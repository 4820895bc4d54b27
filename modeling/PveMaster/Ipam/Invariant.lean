import PveMaster.Ipam.Pools
import PveMaster.Ipam.Allocations

/-! What IPAM transactions keep true, and the moves they are made of.

`Move` says once what a transaction can do to the four tables: open, edit or
close a pool, materialise an address, reserve it for good, take it, shift its
allocation to another active status, free it. `Consistent` has three parts.
Active pools of one scope do not overlap (`Apart`). Every address lies in its
pool's network, is not used in a closed pool, and a pool whose offset has moved
has addresses, so its network is frozen (`Placed`). An address and its active
allocation tell the same state (`Agreement`). Every move keeps all three
(`Consistent.move`). -/
namespace PveMaster

open Keyed (key)

/-- `RESERVED`, `ASSIGNED` or `QUARANTINED`: an allocation keeps the address from others. -/
def IpAddressState.held : IpAddressState → Bool
  | .reserved | .assigned | .quarantined => true
  | .available | .disabled => false

@[simp] theorem IpAllocationStatus.held_addressState (s : IpAllocationStatus) :
    s.addressState.held = s.active := by
  cases s <;> rfl

namespace Ipam
open IpamService

/-! ### The invariant -/

/-- Active pools that guests of one cluster could be given addresses of do not overlap. -/
structure Apart (pools : Table IpPool) : Prop where
  apart : ∀ p ∈ pools, ∀ q ∈ pools, p.isActive = true → q.isActive = true → p.id ≠ q.id →
    sameScope p.clusterId q.clusterId = true → p.cidr.overlaps q.cidr.toNetwork = false

/-- Every address lies in the network of its pool and is not used in a closed one. `fresh` is why
a network cannot be taken from under a free address: a pool whose search has moved has rows. -/
structure Placed (pools : Table IpPool) (addresses : Table IpAddress) : Prop where
  pool : ∀ a ∈ addresses, ∃ p ∈ pools, p.id = a.poolId ∧ p.cidr.holds a.address = true ∧
    (p.isActive = false → a.state = .available)
  offset : ∀ p ∈ pools, p.nextOffset < p.cidr.numAddresses
  fresh : ∀ p ∈ pools, (∀ a ∈ addresses, a.poolId ≠ p.id) → p.nextOffset = 0
  unique : AddressesUnique addresses

/-- An address and its active allocation tell the same state, each way round, and a deadline is
set in quarantine alone. -/
structure Agreement (addresses : Table IpAddress) (allocations : Table IpAllocation) : Prop where
  located : ∀ l ∈ allocations, ∃ a ∈ addresses, a.id = l.ipAddressId
  matched : ∀ a ∈ addresses, ∀ l ∈ allocations, l.ipAddressId = a.id → l.status.active = true →
    a.state = l.status.addressState
  held : ∀ a ∈ addresses, a.state.held = true →
    ∃ l ∈ allocations, l.ipAddressId = a.id ∧ l.status.active = true
  single : UqActiveAddress allocations
  timed : ∀ a ∈ addresses, a.quarantinedUntil ≠ none ↔ a.state = .quarantined
  owned : ∀ l ∈ allocations, l.status = .assigned → l.workloadId ≠ none

/-- The invariant of the IPAM tables. It speaks of committed states only; within a transaction its
parts can fail for a while. -/
structure Consistent (t : IpamTables) : Prop where
  apart : Apart t.pools
  placed : Placed t.pools t.addresses
  agreement : Agreement t.addresses t.allocations

theorem consistent_empty : Consistent .empty where
  apart := ⟨fun p hp => absurd hp (Table.not_mem_empty p)⟩
  placed :=
    { pool := fun a ha => absurd ha (Table.not_mem_empty a)
      offset := fun p hp => absurd hp (Table.not_mem_empty p)
      fresh := fun p hp => absurd hp (Table.not_mem_empty p)
      unique := fun a ha => absurd ha (Table.not_mem_empty a) }
  agreement :=
    { located := fun l hl => absurd hl (Table.not_mem_empty l)
      matched := fun a ha => absurd ha (Table.not_mem_empty a)
      held := fun a ha => absurd ha (Table.not_mem_empty a)
      single := fun l hl => absurd hl (Table.not_mem_empty l)
      timed := fun a ha => absurd ha (Table.not_mem_empty a)
      owned := fun l hl => absurd hl (Table.not_mem_empty l) }

/-! ### Moves -/

/-- What a transaction can do to the tables, one change of rows that belong together. Every call
is a sequence of these (`PveMaster.Ipam.Moves`), so an invariant has to be kept by each of them
and by nothing else. -/
inductive Move (t : IpamTables) : IpamTables → Prop where
  | openPool {pool : IpPool} {pools : Table IpPool} {exclusions : Table IpPoolExclusion}
      (inserted : t.pools.insert pool = some pools) (active : pool.isActive = true)
      (offset : pool.nextOffset = 0)
      (apart : overlapsExisting t none pool.clusterId pool.cidr.toNetwork = false) :
      Move t { t with pools := pools, exclusions := exclusions }
  | editPool {p : IpPool} {f : IpPool → IpPool} (found : t.pools.get? p.id = some p)
      (active : p.isActive = true) (id : (f p).id = p.id) (stays : (f p).isActive = true)
      (offset : (f p).nextOffset = p.nextOffset)
      (frozen : ((f p).cidr = p.cidr ∧ (f p).clusterId = p.clusterId) ∨
        ∀ a ∈ t.addresses, a.poolId ≠ p.id)
      (apart : overlapsExisting t (some p.id) (f p).clusterId (f p).cidr.toNetwork = false) :
      Move t { t with pools := t.pools.update p.id f }
  | closePool {p : IpPool} (found : t.pools.get? p.id = some p)
      (unused : ∀ a ∈ t.addresses, a.poolId = p.id → a.state = .available) :
      Move t { t with pools := t.pools.update p.id closedPool }
  | materialise {p : IpPool} {a : IpAddress} {offset : Nat} {addresses : Table IpAddress}
      (found : t.pools.get? p.id = some p) (active : p.isActive = true) (inPool : a.poolId = p.id)
      (inside : p.cidr.holds a.address = true) (bound : offset < p.cidr.numAddresses)
      (free : a.state.held = false) (untimed : a.quarantinedUntil = none)
      (inserted : t.addresses.insert a = some addresses) (unique : AddressesUnique addresses) :
      Move t { t with pools := t.pools.update p.id (movedOffset offset), addresses := addresses }
  | disable {p : IpPool} {a : IpAddress} {reason : String} (found : t.addresses.get? a.id = some a)
      (pool : t.pools.get? a.poolId = some p) (active : p.isActive = true)
      (free : a.state = .available) :
      Move t (updateAddress t a.id (disabled reason))
  | take {p : IpPool} {a : IpAddress} {l : IpAllocation} {f : IpAddress → IpAddress}
      {allocations : Table IpAllocation} (found : t.addresses.get? a.id = some a)
      (pool : t.pools.get? a.poolId = some p) (active : p.isActive = true)
      (free : a.state = .available) (keeps : (f a).id = a.id ∧ (f a).poolId = a.poolId ∧
        (f a).address = a.address) (state : (f a).state = l.status.addressState)
      (untimed : (f a).quarantinedUntil = none) (onAddress : l.ipAddressId = a.id)
      (status : l.status = .reserved ∨ l.status = .assigned ∧ l.workloadId ≠ none)
      (inserted : t.allocations.insert l = some allocations) (single : UqActiveAddress allocations) :
      Move t { updateAddress t a.id f with allocations := allocations }
  | shift {a : IpAddress} {l : IpAllocation} {f : IpAddress → IpAddress}
      {g : IpAllocation → IpAllocation} (found : t.addresses.get? a.id = some a)
      (allocation : t.allocations.get? l.id = some l) (onAddress : l.ipAddressId = a.id)
      (active : l.status.active = true) (keeps : (f a).id = a.id ∧ (f a).poolId = a.poolId ∧
        (f a).address = a.address) (keepsAllocation : (g l).id = l.id ∧
        (g l).ipAddressId = l.ipAddressId) (stays : (g l).status.active = true)
      (state : (f a).state = (g l).status.addressState)
      (timed : (f a).quarantinedUntil ≠ none ↔ (f a).state = .quarantined)
      (owned : (g l).status = .assigned → (g l).workloadId ≠ none) :
      Move t (updateAddress (updateAllocation t l.id g) a.id f)
  | free {a : IpAddress} {l : IpAllocation} (found : t.addresses.get? a.id = some a)
      (allocation : t.allocations.get? l.id = some l) (onAddress : l.ipAddressId = a.id)
      (active : l.status.active = true) :
      Move t (updateAddress (updateAllocation t l.id releasedAllocation) a.id freedAddress)

/-! ### Pools stay apart -/

theorem overlaps_comm (n m : Network) : n.overlaps m = m.overlaps n := by
  have half (n m : Network) (h : n.overlaps m = true) : m.overlaps n = true := by
    simp only [Network.overlaps, Bool.or_eq_true] at h ⊢
    tauto
  exact Bool.eq_iff_iff.mpr ⟨half n m, half m n⟩

theorem sameScope_comm (c d : Option Uuid) : sameScope c d = sameScope d c := by
  unfold sameScope
  rw [Bool.or_assoc, Bool.or_assoc, Bool.or_comm (d == none), BEq.comm]

/-- What a passed overlap check says of another active pool. -/
theorem overlapsExisting_false {t : IpamTables} {self : Option Uuid} {c : Option Uuid}
    {n : Network} (h : overlapsExisting t self c n = false) {q : IpPool} (hq : q ∈ t.pools)
    (hactive : q.isActive = true) (hself : some q.id ≠ self)
    (hscope : sameScope q.clusterId c = true) : n.overlaps q.cidr.toNetwork = false := by
  unfold overlapsExisting at h
  have := List.any_eq_false.mp h q (Table.mem_select.mpr ⟨hq, by simp [hactive, hself]⟩)
  simpa [hscope] using this

/-- Replacing or adding one active pool that passed the overlap check. -/
theorem Apart.replace {t : IpamTables} {pools : Table IpPool} {self : Option Uuid} {q : IpPool}
    (h : Apart t.pools) (hpools : ∀ p ∈ pools, p ∈ t.pools ∧ some p.id ≠ self ∨ p = q)
    (hq : overlapsExisting t self q.clusterId q.cidr.toNetwork = false) : Apart pools := by
  refine ⟨fun p hp p' hp' ha ha' hne hscope => ?_⟩
  rcases hpools p hp with ⟨hp, hs⟩ | rfl
  · rcases hpools p' hp' with ⟨hp', _⟩ | rfl
    · exact h.apart p hp p' hp' ha ha' hne hscope
    · rw [overlaps_comm]
      exact overlapsExisting_false hq hp ha hs hscope
  · rcases hpools p' hp' with ⟨hp', hs'⟩ | rfl
    · exact overlapsExisting_false hq hp' ha' hs' (by rw [sameScope_comm]; exact hscope)
    · exact absurd rfl hne

/-- Rewriting pools without touching what the check reads. -/
theorem Apart.amend {pools : Table IpPool} {k : Uuid} {f : IpPool → IpPool} (h : Apart pools)
    (hf : ∀ p, (f p).id = p.id ∧ (f p).cidr = p.cidr ∧ (f p).clusterId = p.clusterId ∧
      ((f p).isActive = true → p.isActive = true)) : Apart (pools.update k f) := by
  have kept (p : IpPool) : (Table.amend k f p).id = p.id ∧ (Table.amend k f p).cidr = p.cidr ∧
      (Table.amend k f p).clusterId = p.clusterId ∧
      ((Table.amend k f p).isActive = true → p.isActive = true) := by
    unfold Table.amend
    split
    · exact hf p
    · exact ⟨rfl, rfl, rfl, id⟩
  refine ⟨fun p hp q hq ha hb hne hscope => ?_⟩
  obtain ⟨p, mp, rfl⟩ := Table.mem_update.mp hp
  obtain ⟨q, mq, rfl⟩ := Table.mem_update.mp hq
  obtain ⟨pid, pcidr, pcluster, pactive⟩ := kept p
  obtain ⟨qid, qcidr, qcluster, qactive⟩ := kept q
  rw [pid, qid] at hne
  rw [pcluster, qcluster] at hscope
  rw [pcidr, qcidr]
  exact h.apart p mp q mq (pactive ha) (qactive hb) hne hscope

theorem Apart.move {t t' : IpamTables} (hm : Move t t') (h : Apart t.pools) : Apart t'.pools := by
  cases hm with
  | openPool inserted _ _ apart =>
    refine h.replace (fun p hp => ?_) apart
    rcases (Table.mem_insert inserted).mp hp with hp | rfl
    · exact Or.inl ⟨hp, by simp⟩
    · exact Or.inr rfl
  | editPool found _ id _ _ _ apart =>
    refine h.replace (fun p hp => ?_) apart
    rcases (Table.mem_update_of_get found id).mp hp with ⟨hp, hne⟩ | rfl
    · exact Or.inl ⟨hp, fun he => hne (Option.some.inj he)⟩
    · exact Or.inr rfl
  | closePool => exact h.amend fun p => ⟨rfl, rfl, rfl, nofun⟩
  | materialise => exact h.amend fun p => ⟨rfl, rfl, rfl, id⟩
  | disable | take | shift | free => exact h

/-! ### Addresses stay in their pool -/

/-- Rewriting one address row, in an open pool unless it ends up available. -/
theorem Placed.rewrite {pools : Table IpPool} {addresses : Table IpAddress} {a : IpAddress}
    {f : IpAddress → IpAddress} (h : Placed pools addresses)
    (found : addresses.get? a.id = some a)
    (keeps : (f a).id = a.id ∧ (f a).poolId = a.poolId ∧ (f a).address = a.address)
    (used : (f a).state = .available ∨ ∀ p ∈ pools, p.id = a.poolId → p.isActive = true) :
    Placed pools (addresses.update a.id f) := by
  obtain ⟨id, poolId, address⟩ := keeps
  have rows (b : IpAddress) : b ∈ addresses.update a.id f ↔ b ∈ addresses ∧ b.id ≠ a.id ∨ b = f a :=
    Table.mem_update_of_get found id
  have ha := Table.get?_mem found
  refine ⟨fun b hb => ?_, h.offset, fun p hp hno => ?_, fun b hb c hc hpool haddr => ?_⟩
  · rcases (rows b).mp hb with ⟨hb, _⟩ | rfl
    · exact h.pool b hb
    · obtain ⟨p, hp, hpid, hholds, _⟩ := h.pool a ha
      refine ⟨p, hp, by rw [poolId, hpid], by rw [address]; exact hholds, fun hinactive => ?_⟩
      rcases used with hfree | hopen
      · exact hfree
      · rw [hopen p hp hpid] at hinactive
        cases hinactive
  · refine h.fresh p hp fun b hb hbp => ?_
    by_cases hba : b.id = a.id
    · have : b = a := Table.eq_of_key hb ha hba
      exact hno (f a) ((rows _).mpr (Or.inr rfl)) (by rw [poolId, ← this, hbp])
    · exact hno b ((rows _).mpr (Or.inl ⟨hb, hba⟩)) hbp
  · rcases (rows b).mp hb with ⟨hb, _⟩ | rfl <;> rcases (rows c).mp hc with ⟨hc, _⟩ | rfl
    · exact h.unique b hb c hc hpool haddr
    · rw [id]
      exact h.unique b hb a ha (by rw [hpool, poolId]) (by rw [haddr, address])
    · rw [id]
      exact h.unique a ha c hc (by rw [← hpool, poolId]) (by rw [← haddr, address])
    · rfl

theorem Placed.openPool {pools pools' : Table IpPool} {addresses : Table IpAddress} {pool : IpPool}
    (h : Placed pools addresses) (inserted : pools.insert pool = some pools')
    (offset : pool.nextOffset = 0) : Placed pools' addresses := by
  have rows (p : IpPool) : p ∈ pools' ↔ p ∈ pools ∨ p = pool := Table.mem_insert inserted
  refine ⟨fun a ha => ?_, fun p hp => ?_, fun p hp hno => ?_, h.unique⟩
  · obtain ⟨p, hp, hrest⟩ := h.pool a ha
    exact ⟨p, (rows p).mpr (Or.inl hp), hrest⟩
  · rcases (rows p).mp hp with hp | rfl
    · exact h.offset p hp
    · rw [offset]
      exact p.cidr.numAddresses_pos
  · rcases (rows p).mp hp with hp | rfl
    · exact h.fresh p hp hno
    · exact offset

/-- Rewriting one pool row. Its network may move only while it has no address, and it
may close only while every address of it is available. -/
theorem Placed.amendPool {pools : Table IpPool} {addresses : Table IpAddress} {p : IpPool}
    {f : IpPool → IpPool} (h : Placed pools addresses) (found : pools.get? p.id = some p)
    (id : (f p).id = p.id) (offset : (f p).nextOffset = p.nextOffset)
    (frozen : (f p).cidr = p.cidr ∨ ∀ a ∈ addresses, a.poolId ≠ p.id)
    (unused : (f p).isActive = true ∨ ∀ a ∈ addresses, a.poolId = p.id → a.state = .available) :
    Placed (pools.update p.id f) addresses := by
  have rows (q : IpPool) : q ∈ pools.update p.id f ↔ q ∈ pools ∧ q.id ≠ p.id ∨ q = f p :=
    Table.mem_update_of_get found id
  have hp := Table.get?_mem found
  refine ⟨fun a ha => ?_, fun q hq => ?_, fun q hq hno => ?_, h.unique⟩
  · obtain ⟨q, hq, hqid, hholds, hclosed⟩ := h.pool a ha
    by_cases hqp : q.id = p.id
    · have : q = p := Table.eq_of_key hq hp hqp
      subst this
      refine ⟨f q, (rows _).mpr (Or.inr rfl), by rw [id, hqid], ?_, fun hinactive => ?_⟩
      · rcases frozen with hcidr | hnone
        · rw [hcidr]
          exact hholds
        · exact absurd hqid.symm (hnone a ha)
      · rcases unused with hopen | hfree
        · rw [hopen] at hinactive
          cases hinactive
        · exact hfree a ha hqid.symm
    · exact ⟨q, (rows q).mpr (Or.inl ⟨hq, hqp⟩), hqid, hholds, hclosed⟩
  · rcases (rows q).mp hq with ⟨hq, _⟩ | rfl
    · exact h.offset q hq
    · rw [offset]
      rcases frozen with hcidr | hnone
      · rw [hcidr]
        exact h.offset p hp
      · rw [h.fresh p hp hnone]
        exact (f p).cidr.numAddresses_pos
  · rcases (rows q).mp hq with ⟨hq, _⟩ | rfl
    · exact h.fresh q hq hno
    · rw [offset]
      exact h.fresh p hp fun a ha => by rw [← id]; exact hno a ha

theorem Placed.materialise {pools : Table IpPool} {addresses addresses' : Table IpAddress}
    {p : IpPool} {a : IpAddress} {offset : Nat} (h : Placed pools addresses)
    (found : pools.get? p.id = some p) (active : p.isActive = true) (inPool : a.poolId = p.id)
    (inside : p.cidr.holds a.address = true) (bound : offset < p.cidr.numAddresses)
    (inserted : addresses.insert a = some addresses') (unique : AddressesUnique addresses') :
    Placed (pools.update p.id (movedOffset offset)) addresses' := by
  have rows (q : IpPool) : q ∈ pools.update p.id (movedOffset offset) ↔
      q ∈ pools ∧ q.id ≠ p.id ∨ q = movedOffset offset p :=
    Table.mem_update_of_get found rfl
  have cells (b : IpAddress) : b ∈ addresses' ↔ b ∈ addresses ∨ b = a := Table.mem_insert inserted
  refine ⟨fun b hb => ?_, fun q hq => ?_, fun q hq hno => ?_, unique⟩
  · rcases (cells b).mp hb with hb | rfl
    · obtain ⟨q, hq, hqid, hholds, hclosed⟩ := h.pool b hb
      by_cases hqp : q.id = p.id
      · have : q = p := Table.eq_of_key hq (Table.get?_mem found) hqp
        subst this
        exact ⟨_, (rows _).mpr (Or.inr rfl), hqid, hholds, hclosed⟩
      · exact ⟨q, (rows q).mpr (Or.inl ⟨hq, hqp⟩), hqid, hholds, hclosed⟩
    · refine ⟨_, (rows _).mpr (Or.inr rfl), inPool.symm, inside, fun hinactive => ?_⟩
      have : p.isActive = false := hinactive
      rw [active] at this
      cases this
  · rcases (rows q).mp hq with ⟨hq, _⟩ | rfl
    · exact h.offset q hq
    · exact bound
  · rcases (rows q).mp hq with ⟨hq, _⟩ | rfl
    · exact h.fresh q hq fun b hb => hno b ((cells b).mpr (Or.inl hb))
    · exact absurd inPool (hno a ((cells a).mpr (Or.inr rfl)))

/-! ### Addresses and allocations agree -/

theorem Agreement.materialise {addresses addresses' : Table IpAddress}
    {allocations : Table IpAllocation} {a : IpAddress} (h : Agreement addresses allocations)
    (free : a.state.held = false) (untimed : a.quarantinedUntil = none)
    (inserted : addresses.insert a = some addresses') : Agreement addresses' allocations := by
  have cells (b : IpAddress) : b ∈ addresses' ↔ b ∈ addresses ∨ b = a := Table.mem_insert inserted
  refine ⟨fun l hl => ?_, fun b hb l hl hon hactive => ?_, fun b hb hheld => ?_, h.single,
    fun b hb => ?_, h.owned⟩
  · obtain ⟨b, hb, hid⟩ := h.located l hl
    exact ⟨b, (cells b).mpr (Or.inl hb), hid⟩
  · rcases (cells b).mp hb with hb | rfl
    · exact h.matched b hb l hl hon hactive
    · -- no allocation is on an address that was not there
      obtain ⟨c, hc, hid⟩ := h.located l hl
      exact absurd (hid.trans hon) ((Table.insert_some inserted).2 c hc)
  · rcases (cells b).mp hb with hb | rfl
    · exact h.held b hb hheld
    · rw [free] at hheld
      cases hheld
  · rcases (cells b).mp hb with hb | rfl
    · exact h.timed b hb
    · rw [untimed]
      refine ⟨fun hne => absurd rfl hne, fun hq => ?_⟩
      rw [hq] at free
      cases free

/-- No active allocation is on an address that is not held. -/
theorem Agreement.inactive {addresses : Table IpAddress} {allocations : Table IpAllocation}
    (h : Agreement addresses allocations) {a : IpAddress} (ha : a ∈ addresses)
    (free : a.state.held = false) {l : IpAllocation} (hl : l ∈ allocations)
    (hon : l.ipAddressId = a.id) : l.status.active = false := by
  cases hactive : l.status.active with
  | false => rfl
  | true =>
    rw [h.matched a ha l hl hon hactive, IpAllocationStatus.held_addressState, hactive] at free
    cases free

theorem Agreement.disable {addresses : Table IpAddress} {allocations : Table IpAllocation}
    {a : IpAddress} {reason : String} (h : Agreement addresses allocations)
    (found : addresses.get? a.id = some a) (free : a.state = .available) :
    Agreement (addresses.update a.id (disabled reason)) allocations := by
  have cells (b : IpAddress) : b ∈ addresses.update a.id (disabled reason) ↔
      b ∈ addresses ∧ b.id ≠ a.id ∨ b = disabled reason a :=
    Table.mem_update_of_get found rfl
  have ha := Table.get?_mem found
  refine ⟨fun l hl => ?_, fun b hb l hl hon hactive => ?_, fun b hb hheld => ?_, h.single,
    fun b hb => ?_, h.owned⟩
  · obtain ⟨b, hb, hid⟩ := h.located l hl
    by_cases hba : b.id = a.id
    · exact ⟨_, (cells _).mpr (Or.inr rfl), hba.symm.trans hid⟩
    · exact ⟨b, (cells b).mpr (Or.inl ⟨hb, hba⟩), hid⟩
  · rcases (cells b).mp hb with ⟨hb, _⟩ | rfl
    · exact h.matched b hb l hl hon hactive
    · rw [h.inactive ha (by rw [free]; rfl) hl hon] at hactive
      cases hactive
  · rcases (cells b).mp hb with ⟨hb, _⟩ | rfl
    · exact h.held b hb hheld
    · cases hheld
  · rcases (cells b).mp hb with ⟨hb, _⟩ | rfl
    · exact h.timed b hb
    · exact ⟨fun hne => absurd rfl hne, nofun⟩

theorem Agreement.take {addresses : Table IpAddress} {allocations allocations' : Table IpAllocation}
    {a : IpAddress} {l : IpAllocation} {f : IpAddress → IpAddress}
    (h : Agreement addresses allocations) (found : addresses.get? a.id = some a)
    (free : a.state = .available) (id : (f a).id = a.id)
    (state : (f a).state = l.status.addressState) (untimed : (f a).quarantinedUntil = none)
    (onAddress : l.ipAddressId = a.id)
    (status : l.status = .reserved ∨ l.status = .assigned ∧ l.workloadId ≠ none)
    (inserted : allocations.insert l = some allocations') (single : UqActiveAddress allocations') :
    Agreement (addresses.update a.id f) allocations' := by
  have cells (b : IpAddress) : b ∈ addresses.update a.id f ↔ b ∈ addresses ∧ b.id ≠ a.id ∨ b = f a :=
    Table.mem_update_of_get found id
  have rows (m : IpAllocation) : m ∈ allocations' ↔ m ∈ allocations ∨ m = l :=
    Table.mem_insert inserted
  have ha := Table.get?_mem found
  have active : l.status.active = true := by
    rcases status with hs | ⟨hs, _⟩ <;> rw [hs] <;> rfl
  refine ⟨fun m hm => ?_, fun b hb m hm hon hactive => ?_, fun b hb hheld => ?_, single,
    fun b hb => ?_, fun m hm hassigned => ?_⟩
  · rcases (rows m).mp hm with hm | rfl
    · obtain ⟨b, hb, hid⟩ := h.located m hm
      by_cases hba : b.id = a.id
      · exact ⟨_, (cells _).mpr (Or.inr rfl), by rw [id, ← hba, hid]⟩
      · exact ⟨b, (cells b).mpr (Or.inl ⟨hb, hba⟩), hid⟩
    · exact ⟨_, (cells _).mpr (Or.inr rfl), by rw [id, onAddress]⟩
  · rcases (cells b).mp hb with ⟨hb, hba⟩ | rfl <;> rcases (rows m).mp hm with hm | rfl
    · exact h.matched b hb m hm hon hactive
    · exact absurd (hon.symm.trans onAddress) hba
    · rw [h.inactive ha (by rw [free]; rfl) hm (hon.trans id)] at hactive
      cases hactive
    · exact state
  · rcases (cells b).mp hb with ⟨hb, _⟩ | rfl
    · obtain ⟨m, hm, hrest⟩ := h.held b hb hheld
      exact ⟨m, (rows m).mpr (Or.inl hm), hrest⟩
    · exact ⟨l, (rows l).mpr (Or.inr rfl), by rw [id, onAddress], active⟩
  · rcases (cells b).mp hb with ⟨hb, _⟩ | rfl
    · exact h.timed b hb
    · rw [untimed]
      refine ⟨fun hne => absurd rfl hne, fun hq => ?_⟩
      rw [state] at hq
      rcases status with hs | ⟨hs, _⟩ <;> rw [hs] at hq <;> cases hq
  · rcases (rows m).mp hm with hm | rfl
    · exact h.owned m hm hassigned
    · rcases status with hs | ⟨_, hw⟩
      · rw [hs] at hassigned
        cases hassigned
      · exact hw

/-- Rewriting an address together with its active allocation. Either both go on to
the same active status, or the allocation ends and the address is free again. -/
theorem Agreement.rewrite {addresses : Table IpAddress} {allocations : Table IpAllocation}
    {a : IpAddress} {l : IpAllocation} {f : IpAddress → IpAddress} {g : IpAllocation → IpAllocation}
    (h : Agreement addresses allocations) (found : addresses.get? a.id = some a)
    (allocation : allocations.get? l.id = some l) (onAddress : l.ipAddressId = a.id)
    (active : l.status.active = true) (id : (f a).id = a.id)
    (keeps : (g l).id = l.id ∧ (g l).ipAddressId = l.ipAddressId)
    (state : (g l).status.active = true → (f a).state = (g l).status.addressState)
    (held : (f a).state.held = true → (g l).status.active = true)
    (timed : (f a).quarantinedUntil ≠ none ↔ (f a).state = .quarantined)
    (owned : (g l).status = .assigned → (g l).workloadId ≠ none) :
    Agreement (addresses.update a.id f) (allocations.update l.id g) := by
  obtain ⟨lid, laddress⟩ := keeps
  have cells (b : IpAddress) : b ∈ addresses.update a.id f ↔ b ∈ addresses ∧ b.id ≠ a.id ∨ b = f a :=
    Table.mem_update_of_get found id
  have rows (m : IpAllocation) :
      m ∈ allocations.update l.id g ↔ m ∈ allocations ∧ m.id ≠ l.id ∨ m = g l :=
    Table.mem_update_of_get allocation lid
  have ha := Table.get?_mem found
  have hl := Table.get?_mem allocation
  -- `l` is the only active allocation on `a`
  have only (m : IpAllocation) (hm : m ∈ allocations) (hon : m.ipAddressId = a.id)
      (hactive : m.status.active = true) : m.id = l.id :=
    h.single m hm l hl hactive active (hon.trans onAddress.symm)
  refine ⟨fun m hm => ?_, fun b hb m hm hon hactive => ?_, fun b hb hheld => ?_,
    fun m hm n hn hma hna hsame => ?_, fun b hb => ?_, fun m hm hassigned => ?_⟩
  · have hold : ∃ b ∈ addresses, b.id = m.ipAddressId := by
      rcases (rows m).mp hm with ⟨hm, _⟩ | rfl
      · exact h.located m hm
      · exact ⟨a, ha, by rw [laddress, onAddress]⟩
    obtain ⟨b, hb, hid⟩ := hold
    by_cases hba : b.id = a.id
    · exact ⟨_, (cells _).mpr (Or.inr rfl), by rw [id, ← hba, hid]⟩
    · exact ⟨b, (cells b).mpr (Or.inl ⟨hb, hba⟩), hid⟩
  · rcases (cells b).mp hb with ⟨hb, hba⟩ | rfl <;> rcases (rows m).mp hm with ⟨hm, hml⟩ | rfl
    · exact h.matched b hb m hm hon hactive
    · rw [laddress, onAddress] at hon
      exact absurd hon.symm hba
    · exact absurd (only m hm (hon.trans id) hactive) hml
    · exact state hactive
  · rcases (cells b).mp hb with ⟨hb, hba⟩ | rfl
    · obtain ⟨m, hm, hon, hactive⟩ := h.held b hb hheld
      refine ⟨m, (rows m).mpr (Or.inl ⟨hm, fun hml => hba ?_⟩), hon, hactive⟩
      have : m = l := Table.eq_of_key hm hl hml
      rw [← hon, this, onAddress]
    · exact ⟨g l, (rows _).mpr (Or.inr rfl), by rw [laddress, onAddress, id], held hheld⟩
  · rcases (rows m).mp hm with ⟨hm, hml⟩ | rfl <;> rcases (rows n).mp hn with ⟨hn, hnl⟩ | rfl
    · exact h.single m hm n hn hma hna hsame
    · exact absurd (only m hm (hsame.trans (laddress.trans onAddress)) hma) hml
    · exact absurd (only n hn (hsame.symm.trans (laddress.trans onAddress)) hna) hnl
    · rfl
  · rcases (cells b).mp hb with ⟨hb, _⟩ | rfl
    · exact h.timed b hb
    · exact timed
  · rcases (rows m).mp hm with ⟨hm, _⟩ | rfl
    · exact h.owned m hm hassigned
    · exact owned hassigned

/-! ### Every move keeps the invariant -/

/-- The pool of an address with an active allocation is open. -/
theorem Consistent.open {t : IpamTables} (h : Consistent t) {a : IpAddress} (ha : a ∈ t.addresses)
    {l : IpAllocation} (hl : l ∈ t.allocations) (hon : l.ipAddressId = a.id)
    (hactive : l.status.active = true) {p : IpPool} (hp : p ∈ t.pools) (hpid : p.id = a.poolId) :
    p.isActive = true := by
  obtain ⟨q, hq, hqid, _, hclosed⟩ := h.placed.pool a ha
  have : q = p := Table.eq_of_key hq hp (hqid.trans hpid.symm)
  subst this
  by_contra hinactive
  have hfree := hclosed (by simpa using hinactive)
  have := h.agreement.inactive ha (by rw [hfree]; rfl) hl hon
  rw [this] at hactive
  cases hactive

theorem Placed.move {t t' : IpamTables} (hm : Move t t') (h : Consistent t) :
    Placed t'.pools t'.addresses := by
  have openPool {a : IpAddress} {p : IpPool} (pool : t.pools.get? a.poolId = some p)
      (active : p.isActive = true) : ∀ q ∈ t.pools, q.id = a.poolId → q.isActive = true := by
    intro q hq hqid
    have : q = p := Table.eq_of_key hq (Table.get?_mem pool) (hqid.trans (Table.get?_key pool).symm)
    rw [this]
    exact active
  cases hm with
  | openPool inserted _ offset _ => exact h.placed.openPool inserted offset
  | editPool found _ id stays offset frozen _ =>
    exact h.placed.amendPool found id offset (frozen.imp_left And.left) (Or.inl stays)
  | closePool found unused => exact h.placed.amendPool found rfl rfl (Or.inl rfl) (Or.inr unused)
  | materialise found active inPool inside bound _ _ inserted unique =>
    exact h.placed.materialise found active inPool inside bound inserted unique
  | disable found pool active _ =>
    exact h.placed.rewrite found ⟨rfl, rfl, rfl⟩ (Or.inr (openPool pool active))
  | take found pool active _ keeps =>
    exact h.placed.rewrite found keeps (Or.inr (openPool pool active))
  | shift found allocation onAddress active keeps =>
    exact h.placed.rewrite found keeps (Or.inr fun p hp hpid =>
      h.open (Table.get?_mem found) (Table.get?_mem allocation) onAddress active hp hpid)
  | free found => exact h.placed.rewrite found ⟨rfl, rfl, rfl⟩ (Or.inl rfl)

theorem Agreement.move {t t' : IpamTables} (hm : Move t t')
    (h : Agreement t.addresses t.allocations) : Agreement t'.addresses t'.allocations := by
  cases hm with
  | openPool | editPool | closePool => exact h
  | materialise _ _ _ _ _ free untimed inserted _ => exact h.materialise free untimed inserted
  | disable found _ _ free => exact h.disable found free
  | take found _ _ free keeps state untimed onAddress status inserted single =>
    exact h.take found free keeps.1 state untimed onAddress status inserted single
  | shift found allocation onAddress active keeps keepsAllocation stays state timed owned =>
    exact h.rewrite found allocation onAddress active keeps.1 keepsAllocation (fun _ => state)
      (fun _ => stays) timed owned
  | free found allocation onAddress active =>
    exact h.rewrite found allocation onAddress active rfl ⟨rfl, rfl⟩ nofun nofun
      ⟨fun hne => absurd rfl hne, nofun⟩ nofun

/-- **Every move keeps the IPAM tables consistent.** The cases are the moves; each part of the
invariant reads only some of the tables. -/
theorem Consistent.move {t t' : IpamTables} (hm : Move t t') (h : Consistent t) : Consistent t' :=
  ⟨h.apart.move hm, Placed.move hm h, h.agreement.move hm⟩

end Ipam
end PveMaster
