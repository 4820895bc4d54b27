import PveMaster.Ipam.Invariant
import Mathlib.Logic.Relation

/-! Every call of the service is a sequence of moves.

From a consistent state each of the ten calls leaves the tables it found, or what a sequence of
moves makes of them. Materialising an address and taking it are two moves of one transaction. What
holds of all moves is thereby proved of all calls: that the tables stay consistent, that a pool
with addresses keeps its cluster and its CIDR, and an address its pool and its value (`Frozen`). -/
namespace PveMaster.Ipam
open IpamService

/-- Some moves, one after the other, within one transaction. -/
def Moves (t t' : IpamTables) : Prop := Relation.ReflTransGen Move t t'

theorem Moves.refl (t : IpamTables) : Moves t t := Relation.ReflTransGen.refl

theorem Moves.of {t t' : IpamTables} (h : Move t t') : Moves t t' := .single h

theorem Consistent.moves {t t' : IpamTables} (hm : Moves t t') (h : Consistent t) :
    Consistent t' := by
  induction hm with
  | refl => exact h
  | tail _ hm ih => exact ih.move hm

/-! ### What moves leave alone -/

/-- Addresses stay where they are, and a pool that has one keeps its network and its cluster. -/
structure Frozen (t t' : IpamTables) : Prop where
  address : ∀ a ∈ t.addresses, ∃ a' ∈ t'.addresses,
    a'.id = a.id ∧ a'.poolId = a.poolId ∧ a'.address = a.address
  pool : ∀ p ∈ t.pools, (∃ a ∈ t.addresses, a.poolId = p.id) →
    ∃ p' ∈ t'.pools, p'.id = p.id ∧ p'.cidr = p.cidr ∧ p'.clusterId = p.clusterId

theorem Frozen.refl (t : IpamTables) : Frozen t t :=
  ⟨fun a ha => ⟨a, ha, rfl, rfl, rfl⟩, fun p hp _ => ⟨p, hp, rfl, rfl, rfl⟩⟩

theorem Frozen.trans {t₁ t₂ t₃ : IpamTables} (h : Frozen t₁ t₂) (h' : Frozen t₂ t₃) :
    Frozen t₁ t₃ := by
  refine ⟨fun a ha => ?_, fun p hp ⟨a, ha, hap⟩ => ?_⟩
  · obtain ⟨b, hb, hid, hpool, haddr⟩ := h.address a ha
    obtain ⟨c, hc, hid', hpool', haddr'⟩ := h'.address b hb
    exact ⟨c, hc, hid'.trans hid, hpool'.trans hpool, haddr'.trans haddr⟩
  · obtain ⟨q, hq, hid, hcidr, hcluster⟩ := h.pool p hp ⟨a, ha, hap⟩
    obtain ⟨b, hb, _, hpool, _⟩ := h.address a ha
    obtain ⟨r, hr, hid', hcidr', hcluster'⟩ := h'.pool q hq ⟨b, hb, by rw [hpool, hap, hid]⟩
    exact ⟨r, hr, hid'.trans hid, hcidr'.trans hcidr, hcluster'.trans hcluster⟩

/-- Rewriting address rows in place. -/
theorem frozen_address {t : IpamTables} {a : IpAddress} {f : IpAddress → IpAddress}
    {allocations : Table IpAllocation} (found : t.addresses.get? a.id = some a)
    (keeps : (f a).id = a.id ∧ (f a).poolId = a.poolId ∧ (f a).address = a.address) :
    Frozen t { updateAddress t a.id f with allocations := allocations } := by
  obtain ⟨id, poolId, address⟩ := keeps
  refine ⟨fun b hb => ?_, fun p hp _ => ⟨p, hp, rfl, rfl, rfl⟩⟩
  have rows (b' : IpAddress) :
      b' ∈ t.addresses.update a.id f ↔ b' ∈ t.addresses ∧ b'.id ≠ a.id ∨ b' = f a :=
    Table.mem_update_of_get found id
  by_cases hba : b.id = a.id
  · have : b = a := Table.eq_of_key hb (Table.get?_mem found) hba
    subst this
    exact ⟨f b, (rows _).mpr (Or.inr rfl), id, poolId, address⟩
  · exact ⟨b, (rows b).mpr (Or.inl ⟨hb, hba⟩), rfl, rfl, rfl⟩

/-- Rewriting a pool row, its network and cluster kept if it has addresses. -/
theorem frozen_pool {pools : Table IpPool} {p q : IpPool} {f : IpPool → IpPool}
    (found : pools.get? p.id = some p) (id : (f p).id = p.id) (hq : q ∈ pools)
    (keeps : q = p → (f p).cidr = p.cidr ∧ (f p).clusterId = p.clusterId) :
    ∃ q' ∈ pools.update p.id f, q'.id = q.id ∧ q'.cidr = q.cidr ∧ q'.clusterId = q.clusterId := by
  have rows (q' : IpPool) : q' ∈ pools.update p.id f ↔ q' ∈ pools ∧ q'.id ≠ p.id ∨ q' = f p :=
    Table.mem_update_of_get found id
  by_cases hqp : q.id = p.id
  · have : q = p := Table.eq_of_key hq (Table.get?_mem found) hqp
    obtain ⟨hcidr, hcluster⟩ := keeps this
    subst this
    exact ⟨f q, (rows _).mpr (Or.inr rfl), id, hcidr, hcluster⟩
  · exact ⟨q, (rows q).mpr (Or.inl ⟨hq, hqp⟩), rfl, rfl, rfl⟩

theorem Move.frozen {t t' : IpamTables} (hm : Move t t') : Frozen t t' := by
  cases hm with
  | openPool inserted =>
    exact ⟨fun a ha => ⟨a, ha, rfl, rfl, rfl⟩,
      fun p hp _ => ⟨p, (Table.mem_insert inserted).mpr (Or.inl hp), rfl, rfl, rfl⟩⟩
  | editPool found _ id _ _ frozen =>
    refine ⟨fun a ha => ⟨a, ha, rfl, rfl, rfl⟩, fun q hq ⟨a, ha, haq⟩ => ?_⟩
    refine frozen_pool found id hq fun hqp => ?_
    rcases frozen with hsame | hnone
    · exact hsame
    · exact absurd (haq.trans (congrArg IpPool.id hqp)) (hnone a ha)
  | closePool found =>
    exact ⟨fun a ha => ⟨a, ha, rfl, rfl, rfl⟩,
      fun q hq _ => frozen_pool found rfl hq fun _ => ⟨rfl, rfl⟩⟩
  | materialise found _ _ _ _ _ _ inserted =>
    exact ⟨fun a ha => ⟨a, (Table.mem_insert inserted).mpr (Or.inl ha), rfl, rfl, rfl⟩,
      fun q hq _ => frozen_pool found rfl hq fun _ => ⟨rfl, rfl⟩⟩
  | disable found => exact frozen_address found ⟨rfl, rfl, rfl⟩
  | take found _ _ _ keeps => exact frozen_address found keeps
  | shift found _ _ _ keeps => exact frozen_address found keeps
  | free found => exact frozen_address found ⟨rfl, rfl, rfl⟩

theorem Moves.frozen {t t' : IpamTables} (hm : Moves t t') : Frozen t t' := by
  induction hm with
  | refl => exact Frozen.refl t
  | tail _ hm ih => exact ih.trans hm.frozen

/-! ### The helpers -/

/-- A pool that is locked is one that is there. -/
theorem lockedPool_ok {t : IpamTables} {poolId : Uuid} {pool : IpPool}
    (h : lockedPool t poolId = .ok pool) : t.pools.get? pool.id = some pool ∧ pool.isActive = true := by
  simp only [lockedPool, bind_ok, orRaise_ok, raiseIf_ok, pure_ok] at h
  obtain ⟨p, hget, _, hactive, rfl⟩ := h
  have hid : p.id = poolId := Table.get?_key hget
  exact ⟨by rw [hid]; exact hget, by simpa using hactive⟩

/-- An address that is asked for by name is of the pool, and none of those a pool never gives
away. -/
theorem validatedCandidate_ok {pool : IpPool} {candidate address : Address}
    (h : validatedCandidate pool candidate = .ok address) :
    address = candidate ∧ pool.cidr.contains address = true := by
  simp only [validatedCandidate, bind_ok, raiseIf_ok, pure_ok, not_or] at h
  obtain ⟨_, ⟨_, hin⟩, _, _, rfl⟩ := h
  exact ⟨rfl, by simpa using hin⟩

/-- The row of an address, if it has one; an address that was never given away has none. -/
theorem addressRow_some {t : IpamTables} {poolId : Uuid} {v : Inet} {a : IpAddress}
    (h : addressRow t poolId v = some a) : a ∈ t.addresses ∧ a.poolId = poolId ∧ a.address = v := by
  obtain ⟨hmem, hp⟩ := Table.first_some h
  simp only [Bool.and_eq_true, beq_iff_eq] at hp
  exact ⟨hmem, hp⟩

/-- A loop that keeps one of two ends with an element of the list, unless the list is empty. -/
theorem foldl_pick {α : Type} {f : Option α → α → Option α} (hfirst : ∀ a, f none a = some a)
    (hnext : ∀ b a, f (some b) a = some b ∨ f (some b) a = some a) (l : List α) (best : Option α) :
    (∀ a, l.foldl f best = some a → a ∈ l ∨ best = some a) ∧ (l.foldl f best = none → l = [] ∧ best = none) := by
  induction l generalizing best with
  | nil => exact ⟨fun a h => Or.inr h, fun h => ⟨rfl, h⟩⟩
  | cons b rest ih =>
    rw [List.foldl_cons]
    obtain ⟨hsome, hnone⟩ := ih (f best b)
    have htaken : f best b = some b ∨ f best b = best := by
      cases best with
      | none => exact Or.inl (hfirst b)
      | some c => exact (hnext c b).symm
    constructor
    · intro a ha
      rcases hsome a ha with hmem | hbest
      · exact Or.inl (List.mem_cons_of_mem _ hmem)
      · rcases htaken with htaken | hkept
        · rw [htaken] at hbest
          cases hbest
          exact Or.inl List.mem_cons_self
        · exact Or.inr (hkept.symm.trans hbest)
    · intro h
      have hempty := (hnone h).2
      cases best with
      | none =>
        rw [hfirst] at hempty
        cases hempty
      | some c =>
        rcases hnext c b with hc | hb
        · rw [hc] at hempty
          cases hempty
        · rw [hb] at hempty
          cases hempty

theorem leastAvailable_pick (t : IpamTables) (poolId : Uuid) :
    (∀ a, leastAvailable t poolId = some a →
      a ∈ t.addresses.select (fun a => a.poolId == poolId && a.state == .available)) ∧
    (leastAvailable t poolId = none →
      t.addresses.select (fun a => a.poolId == poolId && a.state == .available) = []) := by
  unfold leastAvailable
  constructor
  · intro a ha
    have hpick := (foldl_pick (fun _ => rfl) (fun _ _ => ite_eq_or_eq _ _ _) _ none).1 a ha
    exact hpick.resolve_right fun h => by cases h
  · intro h
    exact ((foldl_pick (fun _ => rfl) (fun _ _ => ite_eq_or_eq _ _ _) _ none).2 h).1

/-- What is chosen among the rows is an available address of the pool. -/
theorem leastAvailable_some {t : IpamTables} {poolId : Uuid} {a : IpAddress}
    (h : leastAvailable t poolId = some a) : a ∈ t.addresses ∧ a.poolId = poolId ∧ a.state = .available := by
  obtain ⟨hmem, hp⟩ := Table.mem_select.mp ((leastAvailable_pick t poolId).1 a h)
  simp only [Bool.and_eq_true, beq_iff_eq] at hp
  exact ⟨hmem, hp⟩

theorem leastAvailable_none {t : IpamTables} {poolId : Uuid} (h : leastAvailable t poolId = none) :
    ∀ a ∈ t.addresses, a.poolId = poolId → a.state ≠ .available := by
  intro a ha hpool hstate
  have hmem : a ∈ t.addresses.select (fun a => a.poolId == poolId && a.state == .available) :=
    Table.mem_select.mpr ⟨ha, by simp [hpool, hstate]⟩
  rw [(leastAvailable_pick t poolId).2 h] at hmem
  cases hmem

theorem insertAddress_ok {t t' : IpamTables} {a : IpAddress} (h : insertAddress t a = .ok t') :
    ∃ addresses, t.addresses.insert a = some addresses ∧ AddressesUnique addresses ∧
      t' = { t with addresses := addresses } := by
  simp only [insertAddress, bind_ok, orRaise_ok, raiseIf_ok, pure_ok, not_not] at h
  obtain ⟨addresses, hinsert, _, hunique, rfl⟩ := h
  exact ⟨addresses, hinsert, hunique, rfl⟩

/-- An offset that is drawn at random stays inside the pool. -/
theorem randomOffset_lt {size : Nat} {blocked : List (Int × Int)} {random : Nat → Nat}
    {i n o : Nat} (hsize : 0 < size) (h : randomOffset size blocked random i n = some o) :
    o < size := by
  induction n generalizing i with
  | zero => cases h
  | succ n ih =>
    simp only [randomOffset] at h
    split at h
    · exact ih h
    · cases h
      exact Nat.mod_lt _ hsize

/-- An automatic choice stays inside the pool. -/
theorem chosenOffset_lt {t : IpamTables} {pool : IpPool} {random : Nat → Nat} {o : Nat}
    (hnext : pool.nextOffset < pool.cidr.numAddresses) (h : chosenOffset t pool random = some o) :
    o < pool.cidr.numAddresses := by
  unfold chosenOffset at h
  rcases Option.or_eq_some_iff.mp h with h | ⟨_, h⟩
  · split at h
    · exact randomOffset_lt pool.cidr.numAddresses_pos h
    · cases h
  · obtain ⟨i, hi, rfl⟩ := Option.map_eq_some_iff.mp h
    have := firstFreeOffset_mem (by omega) (by omega) hi
    omega

/-- What choosing an address does and finds: the row is there, belongs to the pool, which is open,
and no allocation has been touched for it. -/
structure Chosen (t t' : IpamTables) (pool : IpPool) (a : IpAddress) : Prop where
  moves : Moves t t'
  found : t'.addresses.get? a.id = some a
  inPool : a.poolId = pool.id
  pool : ∃ p, t'.pools.get? a.poolId = some p ∧ p.isActive = true
  allocations : t'.allocations = t.allocations

/-- An available row is taken as it is. -/
theorem chosen_existing {t : IpamTables} {pool : IpPool} {a : IpAddress}
    (hpool : t.pools.get? pool.id = some pool) (hactive : pool.isActive = true)
    (ha : a ∈ t.addresses) (hin : a.poolId = pool.id) : Chosen t t pool a :=
  ⟨.refl t, Table.get?_of_mem ha, hin, ⟨pool, by rw [hin]; exact hpool, hactive⟩, rfl⟩

/-- An address without a row gets one first. That is a move of its own, and by itself changes what
nobody can tell. -/
theorem chosen_new {t t' : IpamTables} {pool : IpPool} {a : IpAddress} {offset : Nat}
    (hpool : t.pools.get? pool.id = some pool) (hactive : pool.isActive = true)
    (hin : a.poolId = pool.id) (hinside : pool.cidr.holds a.address = true)
    (hbound : offset < pool.cidr.numAddresses) (hfree : a.state = .available)
    (huntimed : a.quarantinedUntil = none)
    (h : insertAddress { t with pools := t.pools.update pool.id (movedOffset offset) } a = .ok t') :
    Chosen t t' pool a := by
  obtain ⟨addresses, hinsert, hunique, rfl⟩ := insertAddress_ok h
  have hget : (t.pools.update pool.id (movedOffset offset)).get? pool.id =
      some (movedOffset offset pool) :=
    Table.get?_update_same hpool rfl
  exact ⟨.of (.materialise hpool hactive hin hinside hbound (by rw [hfree]; rfl) huntimed hinsert
      hunique), Table.get?_insert_same hinsert, hin,
    ⟨movedOffset offset pool, by rw [hin]; exact hget, hactive⟩, rfl⟩

theorem candidateAddress_ok {t t' : IpamTables} {pool : IpPool} {requested : Option Address}
    {draws : Draws} {a : IpAddress} (hc : Consistent t)
    (hpool : t.pools.get? pool.id = some pool) (hactive : pool.isActive = true)
    (h : candidateAddress t pool requested draws = .ok (t', a)) : Chosen t t' pool a := by
  have hnext := hc.placed.offset pool (Table.get?_mem hpool)
  cases requested with
  | none =>
    simp only [candidateAddress, automaticCandidate] at h
    split at h
    · next available hleast =>
      cases h
      obtain ⟨hmem, hin, -⟩ := leastAvailable_some hleast
      exact chosen_existing hpool hactive hmem hin
    · simp only [bind_ok, orRaise_ok, pure_ok, Prod.mk.injEq] at h
      obtain ⟨offset, hoffset, candidate, hat, t'', hinsert, rfl, rfl⟩ := h
      have hlt := chosenOffset_lt hnext hoffset
      unfold addressAt at hat
      split at hat
      · cases hat
        refine chosen_new hpool hactive rfl ?_
          (Nat.mod_lt _ pool.cidr.numAddresses_pos) rfl rfl hinsert
        exact (Network.holds_iff _ _).mpr ⟨rfl, Nat.le_add_right _ _, Nat.add_lt_add_left hlt _⟩
      · cases hat
  | some literal =>
    simp only [candidateAddress, bind_ok, raiseIf_ok] at h
    obtain ⟨candidate, hvalid, _, _, h⟩ := h
    obtain ⟨rfl, hinside⟩ := validatedCandidate_ok hvalid
    split at h
    · next existing hrow =>
      cases h
      obtain ⟨hmem, hin, _⟩ := addressRow_some hrow
      exact chosen_existing hpool hactive hmem hin
    · simp only [bind_ok, pure_ok, Prod.mk.injEq] at h
      obtain ⟨t'', hinsert, rfl, rfl⟩ := h
      have hsame : t.pools.update pool.id (movedOffset pool.nextOffset) = t.pools :=
        Table.update_self hpool rfl
      exact chosen_new hpool hactive rfl hinside hnext rfl rfl (by rw [hsame]; exact hinsert)

/-! ### The calls -/

theorem moves_of {α : Type} {db : Db} {x : Except Exn (Outcome α)}
    (h : ∀ o, x = .ok o → Moves db.ipam o.db.ipam) : Moves db.ipam (Outcome.of db x).db.ipam :=
  Outcome.of_cases (P := fun d => Moves db.ipam d.ipam) (.refl _) h

variable {svc : IpamService} {db : Db} {draws : Draws}

theorem createPool_moves (payload : IpPoolCreate) :
    Moves db.ipam (svc.createPool db payload draws).db.ipam := by
  refine moves_of fun o h => ?_
  simp only [bind_ok, raiseIf_ok, onIntegrity_ok, pure_ok, Bool.not_eq_true] at h
  obtain ⟨network, _, _, _, _, _, _, _, _, _, _, hapart, t', hinsert, rfl⟩ := h
  simp only [insertPool, bind_ok, orRaise_ok, raiseIf_ok, pure_ok] at hinsert
  obtain ⟨pools, hpools, _, _, exclusions, _, _, _, rfl⟩ := hinsert
  exact .of (.openPool hpools rfl rfl hapart)

theorem updatePool_moves (poolId : Uuid) (payload : IpPoolUpdate) :
    Moves db.ipam (svc.updatePool db poolId payload).db.ipam := by
  refine moves_of fun o h => ?_
  simp only [bind_ok, raiseIf_ok, pure_ok, Bool.not_eq_true] at h
  obtain ⟨pool, hlock, _, _, network, _, _, _, _, _, _, _, _, hused, _, _, _, hapart, _, _, rfl⟩ := h
  obtain ⟨hget, hactive⟩ := lockedPool_ok hlock
  refine .of (.editPool hget hactive rfl hactive rfl ?_ hapart)
  by_cases hnone : ∀ a ∈ db.ipam.addresses, a.poolId ≠ pool.id
  · exact Or.inr hnone
  · refine Or.inl ?_
    -- the pool has an address, so nothing of its addressing has changed
    have hsome : db.ipam.addresses.select (fun a => a.poolId == pool.id) ≠ [] := by
      push Not at hnone
      obtain ⟨a, ha, hap⟩ := hnone
      exact List.ne_nil_of_mem (Table.mem_select.mpr ⟨ha, by simp [hap]⟩)
    simp only [hsome, ne_eq, not_false_eq_true, and_true, not_or, not_not] at hused
    exact ⟨by rw [hused.1]; exact Cidr.stored_toNetwork _, hused.2.1⟩

theorem deletePool_moves (poolId : Uuid) (version : Nat) :
    Moves db.ipam (svc.deletePool db poolId version).db.ipam := by
  refine moves_of fun o h => ?_
  simp only [bind_ok, raiseIf_ok, pure_ok, not_or] at h
  obtain ⟨pool, hlock, _, _, _, ⟨hnone, _⟩, rfl⟩ := h
  obtain ⟨hget, hactive⟩ := lockedPool_ok hlock
  refine .of (.closePool hget fun a ha hap => ?_)
  have hempty : unavailableAddresses db.ipam pool.id = [] := by
    rw [← List.length_eq_zero_iff]
    omega
  by_contra hstate
  have : a ∈ unavailableAddresses db.ipam pool.id :=
    Table.mem_select.mpr ⟨ha, by simp [hap, hstate]⟩
  rw [hempty] at this
  cases this

theorem reserveAddress_moves (hc : Consistent db.ipam) (poolId : Uuid) (address : Address)
    (reason : String) : Moves db.ipam (svc.reserveAddress db poolId address reason draws).db.ipam := by
  refine moves_of fun o h => ?_
  simp only [bind_ok] at h
  obtain ⟨pool, hlock, candidate, hvalid, h⟩ := h
  obtain ⟨hget, hactive⟩ := lockedPool_ok hlock
  obtain ⟨rfl, hinside⟩ := validatedCandidate_ok hvalid
  split at h
  · next existing hrow =>
    obtain ⟨hmem, hin, _⟩ := addressRow_some hrow
    simp only [bind_ok, raiseIf_ok, pure_ok, not_not] at h
    obtain ⟨_, hfree, rfl⟩ := h
    exact .of (.disable (Table.get?_of_mem hmem) (by rw [hin]; exact hget) hactive hfree)
  · simp only [bind_ok, pure_ok] at h
    obtain ⟨t', hinsert, rfl⟩ := h
    obtain ⟨addresses, hins, hunique, rfl⟩ := insertAddress_ok hinsert
    have hsame : db.ipam.pools.update pool.id (movedOffset pool.nextOffset) = db.ipam.pools :=
      Table.update_self hget rfl
    have hinside' : pool.cidr.holds candidate.inet = true := hinside
    have hmove := Move.materialise (t := db.ipam)
      (a := disabled reason (availableAddress (draws.uuid 0) pool.id candidate.inet))
      hget hactive rfl hinside' (hc.placed.offset pool (Table.get?_mem hget)) rfl rfl hins hunique
    rw [hsame] at hmove
    exact .of hmove

theorem insertAllocation_ok {t t' : IpamTables} {l : IpAllocation}
    (h : insertAllocation db t l = .ok t') : ∃ allocations, t.allocations.insert l = some allocations ∧
      UqActiveAddress allocations ∧ t' = { t with allocations := allocations } := by
  simp only [insertAllocation, bind_ok, orRaise_ok, raiseIf_ok, pure_ok, not_not] at h
  obtain ⟨_, _, allocations, hinsert, _, ⟨hsingle, _⟩, rfl⟩ := h
  exact ⟨allocations, hinsert, hsingle, rfl⟩

/-- Taking an address that was chosen: its status changes and the allocation is inserted. -/
theorem take_moves {t t' t'' : IpamTables} {pool : IpPool} {a : IpAddress} {l : IpAllocation}
    {f : IpAddress → IpAddress} (hc : Consistent t) (hchosen : Chosen t t' pool a)
    (free : a.state = .available)
    (keeps : (f a).id = a.id ∧ (f a).poolId = a.poolId ∧ (f a).address = a.address)
    (state : (f a).state = l.status.addressState)
    (untimed : a.quarantinedUntil = none → (f a).quarantinedUntil = none)
    (onAddress : l.ipAddressId = a.id)
    (status : l.status = .reserved ∨ l.status = .assigned ∧ l.workloadId ≠ none)
    (h : insertAllocation db (updateAddress t' a.id f) l = .ok t'') : Moves t t'' := by
  obtain ⟨allocations, hinsert, hsingle, rfl⟩ := insertAllocation_ok h
  obtain ⟨p, hp, hopen⟩ := hchosen.pool
  have hnot : a.quarantinedUntil = none := by
    by_contra hne
    have := ((hc.moves hchosen.moves).agreement.timed a (Table.get?_mem hchosen.found)).mp hne
    rw [free] at this
    cases this
  exact hchosen.moves.tail
    (.take hchosen.found hp hopen free keeps state (untimed hnot) onAddress status hinsert hsingle)

/-- `allocate`, to a workload. -/
theorem allocate_moves (hc : Consistent db.ipam) (poolId workloadId : Uuid)
    (requested : Option Address) :
    Moves db.ipam (svc.allocate db poolId workloadId requested draws).db.ipam := by
  refine moves_of fun o h => ?_
  simp only [bind_ok, raiseIf_ok, onIntegrity_ok, pure_ok, Prod.exists, not_not] at h
  obtain ⟨pool, hlock, workload, _, _, _, t', a, hcandidate, _, hfree, t'', hinsert, rfl⟩ := h
  obtain ⟨hget, hactive⟩ := lockedPool_ok hlock
  exact take_moves hc (candidateAddress_ok hc hget hactive hcandidate) hfree ⟨rfl, rfl, rfl⟩ rfl
    (fun _ => rfl) rfl (Or.inr ⟨rfl, Option.some_ne_none _⟩) hinsert

/-- `reserve_for_provisioning`, to a request that has no workload yet. -/
theorem reserveForProvisioning_moves (hc : Consistent db.ipam) (poolId requestId : Uuid)
    (requested : Option Address) :
    Moves db.ipam (svc.reserveForProvisioning db poolId requestId requested draws).db.ipam := by
  refine moves_of fun o h => ?_
  simp only [bind_ok] at h
  obtain ⟨pool, hlock, h⟩ := h
  obtain ⟨hget, hactive⟩ := lockedPool_ok hlock
  split at h
  · simp only [bind_ok, pure_ok] at h
    obtain ⟨_, _, rfl⟩ := h
    exact .refl _
  · simp only [bind_ok, raiseIf_ok, onIntegrity_ok, pure_ok, Prod.exists, not_not] at h
    obtain ⟨t', a, hcandidate, _, hfree, t'', hinsert, rfl⟩ := h
    exact take_moves hc (candidateAddress_ok hc hget hactive hcandidate) hfree ⟨rfl, rfl, rfl⟩ rfl
      id rfl (Or.inl rfl) hinsert

theorem requestAllocation_some {t : IpamTables} {requestId : Uuid}
    {statuses : List IpAllocationStatus} {l : IpAllocation}
    (h : requestAllocation t requestId statuses = some l) :
    l ∈ t.allocations ∧ l.provisioningRequestId = some requestId ∧ l.status ∈ statuses := by
  obtain ⟨hmem, hp⟩ := Table.first_some h
  simp only [Bool.and_eq_true, beq_iff_eq, List.contains_iff_mem] at hp
  exact ⟨hmem, hp⟩

/-- The end of an allocation: the address goes into quarantine for the time the pool says. -/
theorem quarantine_moves {t : IpamTables} {l : IpAllocation} {a : IpAddress} {pool : IpPool}
    {reason : String} {now : Instant} (hl : l ∈ t.allocations)
    (ha : t.addresses.get? l.ipAddressId = some a) (hactive : l.status.active = true) :
    Moves t (quarantine t l a pool reason now) := by
  have hid : a.id = l.ipAddressId := Table.get?_key ha
  exact .of (.shift (by rw [hid]; exact ha) (Table.get?_of_mem hl) hid.symm hactive ⟨rfl, rfl, rfl⟩
    ⟨rfl, rfl⟩ rfl rfl ⟨fun _ => rfl, fun _ => nofun⟩ nofun)

/-- `confirm_provisioning_ip`: the reservation of a request becomes the allocation of its
workload. -/
theorem confirmProvisioningIp_moves (hc : Consistent db.ipam) (requestId workloadId : Uuid) :
    Moves db.ipam (confirmProvisioningIp db requestId workloadId draws).db.ipam := by
  refine moves_of fun o h => ?_
  split at h
  · split at h
    · cases h
      exact .refl _
    · cases h
  · next l hl =>
    simp only [bind_ok, orRaise_ok, raiseIf_ok, pure_ok] at h
    obtain ⟨a, ha, _, _, rfl⟩ := h
    obtain ⟨hmem, _, hstatus⟩ := requestAllocation_some hl
    have hid : a.id = l.ipAddressId := Table.get?_key ha
    have hreserved : l.status = .reserved := by simpa using hstatus
    have hstate : a.state = .reserved := by
      rw [hc.agreement.matched a (Table.get?_mem ha) l hmem hid.symm (by rw [hreserved]; rfl),
        hreserved]
      rfl
    refine .of (.shift (by rw [hid]; exact ha) (Table.get?_of_mem hmem) hid.symm
      (by rw [hreserved]; rfl) ⟨rfl, rfl, rfl⟩ ⟨rfl, rfl⟩ rfl rfl ⟨fun hne => ?_, fun hne => by cases hne⟩
      fun _ => Option.some_ne_none _)
    -- a reserved address has no deadline, and the confirmation sets none
    have := (hc.agreement.timed a (Table.get?_mem ha)).mp hne
    rw [hstate] at this
    cases this

theorem quarantineProvisioningIp_moves (requestId : Uuid) :
    Moves db.ipam (quarantineProvisioningIp db requestId draws).db.ipam := by
  refine moves_of fun o h => ?_
  split at h
  · cases h
    exact .refl _
  · next l hl =>
    simp only [bind_ok, orRaise_ok, pure_ok] at h
    obtain ⟨a, ha, pool, _, rfl⟩ := h
    obtain ⟨hmem, _, hstatus⟩ := requestAllocation_some hl
    have hreserved : l.status = .reserved := by simpa using hstatus
    exact quarantine_moves hmem ha (by rw [hreserved]; rfl)

theorem release_moves (allocationId : Uuid) (reason : String) :
    Moves db.ipam (svc.release db allocationId reason draws).db.ipam := by
  refine moves_of fun o h => ?_
  simp only [bind_ok, orRaise_ok] at h
  obtain ⟨l, hl, a, ha, pool, _, h⟩ := h
  split at h
  · cases h
    exact .refl _
  · next hstatus =>
    cases h
    refine quarantine_moves (Table.get?_mem hl) ha ?_
    rw [not_or] at hstatus
    cases hs : l.status with
    | reserved | assigned => rfl
    | quarantined => exact absurd hs hstatus.2
    | released => exact absurd hs hstatus.1

theorem approveRelease_moves (addressId : Uuid) :
    Moves db.ipam (svc.approveRelease db addressId draws).db.ipam := by
  refine moves_of fun o h => ?_
  simp only [bind_ok, orRaise_ok, raiseIf_ok, pure_ok] at h
  obtain ⟨a, ha, _, _, _, _, l, hl, _, _, rfl⟩ := h
  obtain ⟨hmem, hp⟩ := Table.first_some hl
  simp only [Bool.and_eq_true, beq_iff_eq] at hp
  have hid : a.id = addressId := Table.get?_key ha
  exact .of (.free (by rw [hid]; exact ha) (Table.get?_of_mem hmem) hp.1 (by rw [hp.2]; rfl))

end PveMaster.Ipam
