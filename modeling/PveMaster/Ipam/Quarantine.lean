import PveMaster.Ipam.Screening

/-! Quarantine: a released address rests until its release is approved.

The deadline stands in the address row from the moment the allocation enters quarantine. No
call but `approve_release` touches a row in quarantine, and that one waits for the deadline
(`act_waits`). -/
namespace PveMaster.Ipam
open IpamService

/-- When a call reads the clock. A transaction of another service reads none that matters here. -/
def IpamAction.now : IpamAction → Option Instant
  | .call _ draws _ => some draws.now
  | .other _ => none

/-- The clock never runs back from one call of a run to the next. Nothing is assumed of how far it
moves. -/
def Clocked (actions : List IpamAction) : Prop := (actions.filterMap IpamAction.now).Pairwise (· ≤ ·)

/-- The address a call gives out, if it succeeds: to a workload, or to a provisioning request. -/
def yields (db : Db) : IpamAction → Option Uuid
  | .call svc draws (.allocate poolId workloadId requested) =>
    (svc.allocate db poolId workloadId requested draws).result.toOption.map (·.ipAddressId)
  | .call svc draws (.reserveForProvisioning poolId requestId requested) =>
    (svc.reserveForProvisioning db poolId requestId requested draws).result.toOption.map (·.1.id)
  | _ => none

/-- The address whose release a call approves, if it succeeds. -/
def approves (db : Db) : IpamAction → Option Uuid
  | .call svc draws (.approveRelease addressId) =>
    (svc.approveRelease db addressId draws).result.toOption.map fun _ => addressId
  | _ => none

/-- An address rests until its deadline: it is `QUARANTINED`, and the deadline stands in its row.
-/
def Waits (t : IpamTables) (k : Uuid) (deadline : Instant) : Prop :=
  ∃ a, t.addresses.get? k = some a ∧ a.state = .quarantined ∧ a.quarantinedUntil = some deadline

/-! ### Rows that are left alone -/

section Frames
variable {t t' : IpamTables} {k : Uuid} {deadline : Instant}

theorem Waits.same (h : Waits t k deadline) (hsame : t'.addresses.get? k = t.addresses.get? k) :
    Waits t' k deadline := by
  unfold Waits
  rw [hsame]
  exact h

/-- A write to the row of an address that does not rest. -/
theorem Waits.other (h : Waits t k deadline) {a : IpAddress} (ha : t.addresses.get? a.id = some a)
    (hstate : a.state ≠ .quarantined) (f : IpAddress → IpAddress) (allocations : Table IpAllocation) :
    Waits { updateAddress t a.id f with allocations := allocations } k deadline := by
  obtain ⟨b, hb, hquarantined, -⟩ := id h
  apply h.same
  apply Table.get?_update_of_ne
  rintro rfl
  rw [ha] at hb
  cases hb
  exact hstate hquarantined

theorem Waits.insert (h : Waits t k deadline) {a : IpAddress} {addresses : Table IpAddress}
    (hinsert : t.addresses.insert a = some addresses) (pools : Table IpPool) :
    Waits { t with pools := pools, addresses := addresses } k deadline := by
  obtain ⟨b, hb, -⟩ := id h
  apply h.same
  apply Table.get?_insert_of_ne hinsert
  rintro rfl
  exact (Table.insert_some hinsert).2 b (Table.get?_mem hb) (Table.get?_key hb)

theorem candidateAddress_waits {pool : IpPool} {requested : Option Address} {draws : Draws} {a : IpAddress}
    (h : Waits t k deadline) (hcandidate : candidateAddress t pool requested draws = .ok (t', a)) :
    Waits t' k deadline := by
  cases requested with
  | none =>
    simp only [candidateAddress, automaticCandidate] at hcandidate
    split at hcandidate
    · cases hcandidate
      exact h
    · simp only [bind_ok, orRaise_ok, pure_ok, Prod.mk.injEq] at hcandidate
      obtain ⟨offset, -, candidate, -, t'', hinsert, rfl, rfl⟩ := hcandidate
      obtain ⟨addresses, hinserted, -, rfl⟩ := insertAddress_ok hinsert
      exact h.insert hinserted _
  | some literal =>
    simp only [candidateAddress, bind_ok, raiseIf_ok] at hcandidate
    obtain ⟨candidate, -, -, -, hcandidate⟩ := hcandidate
    split at hcandidate
    · cases hcandidate
      exact h
    · simp only [bind_ok, pure_ok, Prod.mk.injEq] at hcandidate
      obtain ⟨t'', hinsert, rfl, rfl⟩ := hcandidate
      obtain ⟨addresses, hinserted, -, rfl⟩ := insertAddress_ok hinsert
      exact h.insert hinserted _

/-- A chosen address that is free is not the one that rests. -/
theorem chosen_not_waiting {pool : IpPool} {a : IpAddress} (h : Waits t' k deadline) (hchosen : Chosen t t' pool a)
    (hfree : a.state = .available) : a.id ≠ k := by
  obtain ⟨b, hb, hstate, -⟩ := h
  rintro rfl
  rw [hchosen.found] at hb
  cases hb
  rw [hfree] at hstate
  cases hstate

/-- The address of a reservation or an assignment does not rest. -/
theorem held_not_waiting (hc : Consistent t) {l : IpAllocation} {a : IpAddress} (hl : l ∈ t.allocations)
    (ha : t.addresses.get? l.ipAddressId = some a) (hstatus : l.status = .reserved ∨ l.status = .assigned) :
    a.state ≠ .quarantined := by
  have hid : a.id = l.ipAddressId := Table.get?_key ha
  have hactive : l.status.active = true := by
    rcases hstatus with hs | hs
    · rw [hs]
      rfl
    · rw [hs]
      rfl
  rw [hc.agreement.matched a (Table.get?_mem ha) l hl hid.symm hactive]
  rcases hstatus with hs | hs
  · rw [hs]
    nofun
  · rw [hs]
    nofun

end Frames

/-! ### What a call does to an address that rests -/

/-- No allocation enters quarantine. -/
def Settles (t t' : IpamTables) : Prop :=
  ∀ l ∈ t.allocations, ∀ l' ∈ t'.allocations, l'.id = l.id → l'.status = .quarantined → l.status = .quarantined

/-- No address leaves quarantine, and no allocation enters it: what most calls do to the rest. -/
structure Leaves (t t' : IpamTables) : Prop where
  waits : ∀ k deadline, Waits t k deadline → Waits t' k deadline
  settles : Settles t t'

theorem settles_same {t t' : IpamTables} (h : t'.allocations = t.allocations) : Settles t t' := by
  intro l hl l' hl' hid hstatus
  rw [h] at hl'
  rwa [Table.eq_of_key hl hl' hid.symm]

theorem settles_insert {t t' : IpamTables} {l : IpAllocation} (h : t.allocations.insert l = some t'.allocations)
    (hl : l.status ≠ .quarantined) : Settles t t' := by
  intro m hm m' hm' hid hstatus
  rcases (Table.mem_insert h).mp hm' with hold | rfl
  · rwa [Table.eq_of_key hm hold hid.symm]
  · exact absurd hstatus hl

theorem settles_update {t t' : IpamTables} {k : Uuid} {g : IpAllocation → IpAllocation}
    (h : t'.allocations = t.allocations.update k g) (hg : ∀ l, (g l).status ≠ .quarantined) : Settles t t' := by
  intro m hm m' hm' hid hstatus
  rw [h] at hm'
  revert hm hid hstatus
  refine Table.forall_update (P := fun m' => m ∈ t.allocations → m'.id = m.id → m'.status = .quarantined →
    m.status = .quarantined) (fun m' hm' hm hid hstatus => ?_) (fun l _ _ _ _ _ hstatus => ?_) m' hm'
  · rwa [Table.eq_of_key hm hm' hid.symm]
  · exact absurd hstatus (hg l)

theorem Leaves.refl (t : IpamTables) : Leaves t t := ⟨fun _ _ h => h, settles_same rfl⟩

/-- Addresses and allocations stay. -/
theorem leaves_same {t t' : IpamTables} (haddresses : t'.addresses = t.addresses)
    (hallocations : t'.allocations = t.allocations) : Leaves t t' :=
  ⟨fun k _ h => h.same (by rw [haddresses]), settles_same hallocations⟩

section Calls
variable {svc : IpamService} {db : Db} {draws : Draws} {k : Uuid} {deadline : Instant}

theorem leaves_of {α : Type} {x : Except Exn (Outcome α)} (h : ∀ o, x = .ok o → Leaves db.ipam o.db.ipam) :
    Leaves db.ipam (Outcome.of db x).db.ipam :=
  Outcome.of_cases (P := fun d => Leaves db.ipam d.ipam) (.refl _) h

theorem createPool_leaves (payload : IpPoolCreate) :
    Leaves db.ipam (svc.createPool db payload draws).db.ipam := by
  apply leaves_of
  intro o ho
  simp only [bind_ok, onIntegrity_ok, pure_ok] at ho
  obtain ⟨network, -, -, -, -, -, -, -, -, -, -, -, t', hinsert, rfl⟩ := ho
  simp only [insertPool, bind_ok, orRaise_ok, raiseIf_ok, pure_ok] at hinsert
  obtain ⟨pools, -, -, -, exclusions, -, -, -, rfl⟩ := hinsert
  exact leaves_same rfl rfl

theorem updatePool_leaves (poolId : Uuid) (payload : IpPoolUpdate) :
    Leaves db.ipam (svc.updatePool db poolId payload).db.ipam := by
  apply leaves_of
  intro o ho
  simp only [bind_ok, pure_ok] at ho
  obtain ⟨pool, -, -, -, network, -, -, -, -, -, -, -, -, -, -, -, -, -, -, -, rfl⟩ := ho
  exact leaves_same rfl rfl

theorem deletePool_leaves (poolId : Uuid) (version : Nat) :
    Leaves db.ipam (svc.deletePool db poolId version).db.ipam := by
  apply leaves_of
  intro o ho
  simp only [bind_ok, pure_ok] at ho
  obtain ⟨pool, -, -, -, -, -, rfl⟩ := ho
  exact leaves_same rfl rfl

theorem reserveAddress_leaves (poolId : Uuid) (address : Address) (reason : String) :
    Leaves db.ipam (svc.reserveAddress db poolId address reason draws).db.ipam := by
  apply leaves_of
  intro o ho
  simp only [bind_ok] at ho
  obtain ⟨pool, -, candidate, -, ho⟩ := ho
  split at ho
  · next existing hrow =>
    obtain ⟨hmem, -, -⟩ := addressRow_some hrow
    simp only [bind_ok, raiseIf_ok, pure_ok, not_not] at ho
    obtain ⟨-, hfree, rfl⟩ := ho
    constructor
    · intro k deadline h
      apply h.other (Table.get?_of_mem hmem)
      rw [hfree]
      decide
    · exact settles_same rfl
  · simp only [bind_ok, pure_ok] at ho
    obtain ⟨t', hinsert, rfl⟩ := ho
    obtain ⟨addresses, hinserted, -, rfl⟩ := insertAddress_ok hinsert
    exact ⟨fun _ _ h => h.insert hinserted _, settles_same rfl⟩

/-- An allocation of a chosen address that is free. -/
theorem take_leaves {t' t'' : IpamTables} {pool : IpPool} {requested : Option Address} {a : IpAddress}
    {l : IpAllocation} {f : IpAddress → IpAddress} (hc : Consistent db.ipam)
    (hpool : db.ipam.pools.get? pool.id = some pool) (hactive : pool.isActive = true)
    (hcandidate : candidateAddress db.ipam pool requested draws = .ok (t', a)) (hfree : a.state = .available)
    (hl : l.status ≠ .quarantined) (hinsert : insertAllocation db (updateAddress t' a.id f) l = .ok t'') :
    Leaves db.ipam t'' := by
  have hchosen := candidateAddress_ok hc hpool hactive hcandidate
  obtain ⟨allocations, hinserted, -, rfl⟩ := insertAllocation_ok hinsert
  constructor
  · intro k deadline h
    apply (candidateAddress_waits h hcandidate).other hchosen.found
    rw [hfree]
    nofun
  · apply settles_insert _ hl
    rw [← hchosen.allocations]
    exact hinserted

theorem allocate_leaves (hc : Consistent db.ipam) (poolId workloadId : Uuid) (requested : Option Address) :
    Leaves db.ipam (svc.allocate db poolId workloadId requested draws).db.ipam := by
  apply leaves_of
  intro o ho
  simp only [bind_ok, raiseIf_ok, onIntegrity_ok, pure_ok, Prod.exists, not_not] at ho
  obtain ⟨pool, hlock, workload, -, -, -, t', a, hcandidate, -, hfree, t'', hinsert, rfl⟩ := ho
  obtain ⟨hget, hactive⟩ := lockedPool_ok hlock
  exact take_leaves hc hget hactive hcandidate hfree (fun h => by cases h) hinsert

theorem reserveForProvisioning_leaves (hc : Consistent db.ipam) (poolId requestId : Uuid)
    (requested : Option Address) :
    Leaves db.ipam (svc.reserveForProvisioning db poolId requestId requested draws).db.ipam := by
  apply leaves_of
  intro o ho
  simp only [bind_ok] at ho
  obtain ⟨pool, hlock, ho⟩ := ho
  obtain ⟨hget, hactive⟩ := lockedPool_ok hlock
  split at ho
  · simp only [bind_ok, pure_ok] at ho
    obtain ⟨_, -, rfl⟩ := ho
    exact .refl _
  · simp only [bind_ok, raiseIf_ok, onIntegrity_ok, pure_ok, Prod.exists, not_not] at ho
    obtain ⟨t', a, hcandidate, -, hfree, t'', hinsert, rfl⟩ := ho
    exact take_leaves hc hget hactive hcandidate hfree (fun h => by cases h) hinsert

/-- The rows of a reservation or an assignment are rewritten. -/
theorem held_waits {t : IpamTables} (hc : Consistent t) {l : IpAllocation} {a : IpAddress}
    {f : IpAddress → IpAddress} {g : IpAllocation → IpAllocation} (hl : l ∈ t.allocations)
    (ha : t.addresses.get? l.ipAddressId = some a) (hstatus : l.status = .reserved ∨ l.status = .assigned)
    (h : Waits t k deadline) : Waits (updateAddress (updateAllocation t l.id g) a.id f) k deadline := by
  have hid : a.id = l.ipAddressId := Table.get?_key ha
  exact h.other (by rw [hid]; exact ha) (held_not_waiting hc hl ha hstatus) f _

theorem confirmProvisioningIp_leaves (hc : Consistent db.ipam) (requestId workloadId : Uuid) :
    Leaves db.ipam (confirmProvisioningIp db requestId workloadId draws).db.ipam := by
  apply leaves_of
  intro o ho
  split at ho
  · split at ho
    · cases ho
      exact .refl _
    · cases ho
  · next l hl =>
    simp only [bind_ok, orRaise_ok, pure_ok] at ho
    obtain ⟨a, ha, -, -, rfl⟩ := ho
    obtain ⟨hmem, -, hstatus⟩ := requestAllocation_some hl
    constructor
    · exact fun _ _ h => held_waits hc hmem ha (Or.inl (by simpa using hstatus)) h
    · exact settles_update rfl fun _ => nofun

/-- An allocation that is to be released. -/
theorem unreleased {l : IpAllocation} (h : ¬ (l.status = .released ∨ l.status = .quarantined)) :
    l.status = .reserved ∨ l.status = .assigned := by
  cases hs : l.status with
  | reserved => exact Or.inl rfl
  | assigned => exact Or.inr rfl
  | quarantined => exact absurd (Or.inr hs) h
  | released => exact absurd (Or.inl hs) h

/-- Both rows enter quarantine, until the deadline the pool has for it. -/
theorem quarantine_enters {t : IpamTables} (pool : IpPool) (reason : String) (now : Instant) (hc : Consistent t)
    {l : IpAllocation} {a : IpAddress} (hl : l ∈ t.allocations) (ha : t.addresses.get? l.ipAddressId = some a)
    (hstatus : l.status = .reserved ∨ l.status = .assigned) :
    (∀ k deadline, Waits t k deadline → Waits (quarantine t l a pool reason now) k deadline) ∧
      Waits (quarantine t l a pool reason now) l.ipAddressId (now + pool.quarantineSeconds * second) ∧
      ∀ m ∈ t.allocations, ∀ m' ∈ (quarantine t l a pool reason now).allocations, m'.id = m.id →
        m'.status = .quarantined → m.status = .quarantined ∨ m = l := by
  have hid : a.id = l.ipAddressId := Table.get?_key ha
  refine ⟨fun _ _ h => held_waits hc hl ha hstatus h, ?_, fun m hm m' hm' hmid hm'status => ?_⟩
  · refine ⟨quarantinedAddress pool now a, ?_, rfl, rfl⟩
    rw [← hid]
    apply Table.get?_update_same
    · rw [hid]
      exact ha
    · rfl
  · rcases (Table.mem_update_of_get (f := quarantinedAllocation reason now) (Table.get?_of_mem hl) rfl).mp hm' with
      ⟨hold, -⟩ | rfl
    · left
      rwa [Table.eq_of_key hm hold hmid.symm]
    · exact Or.inr (Table.eq_of_key hm hl hmid.symm)

/-- What entering quarantine leaves of the rest: addresses that rest already keep their deadlines,
and an allocation that enters starts the rest of its own address, for the period its pool has now.
-/
def Enters (t t' : IpamTables) (now : Instant) : Prop :=
  (∀ k deadline, Waits t k deadline → Waits t' k deadline) ∧
    ∀ l ∈ t.allocations, ∀ l' ∈ t'.allocations, l'.id = l.id → l'.status = .quarantined → l.status ≠ .quarantined →
      ∃ a pool, t.addresses.get? l.ipAddressId = some a ∧ t.pools.get? a.poolId = some pool ∧
        Waits t' l.ipAddressId (now + pool.quarantineSeconds * second)

theorem Leaves.enters {t t' : IpamTables} (h : Leaves t t') (now : Instant) : Enters t t' now :=
  ⟨h.waits, fun l hl l' hl' hid hstatus hnot => absurd (h.settles l hl l' hl' hid hstatus) hnot⟩

theorem quarantineProvisioningIp_enters (hc : Consistent db.ipam) (requestId : Uuid) :
    Enters db.ipam (quarantineProvisioningIp db requestId draws).db.ipam draws.now := by
  apply Outcome.of_cases (P := fun d => Enters db.ipam d.ipam draws.now) ((Leaves.refl _).enters _)
  intro o ho
  split at ho
  · cases ho
    exact (Leaves.refl _).enters _
  · next l hl =>
    simp only [bind_ok, orRaise_ok, pure_ok] at ho
    obtain ⟨a, ha, pool, hpool, rfl⟩ := ho
    obtain ⟨hmem, -, hstatus⟩ := requestAllocation_some hl
    obtain ⟨hwaits, henters, honly⟩ := quarantine_enters pool "Provisioning failed before clone completion"
      draws.now hc hmem ha (Or.inl (by simpa using hstatus))
    refine ⟨hwaits, fun m hm m' hm' hid hstatus' hnot => ?_⟩
    obtain rfl := (honly m hm m' hm' hid hstatus').resolve_left hnot
    exact ⟨a, pool, ha, hpool, henters⟩

theorem release_enters (hc : Consistent db.ipam) (allocationId : Uuid) (reason : String) :
    Enters db.ipam (svc.release db allocationId reason draws).db.ipam draws.now := by
  apply Outcome.of_cases (P := fun d => Enters db.ipam d.ipam draws.now) ((Leaves.refl _).enters _)
  intro o ho
  simp only [bind_ok, orRaise_ok] at ho
  obtain ⟨l, hl, a, ha, pool, hpool, ho⟩ := ho
  split at ho
  · cases ho
    exact (Leaves.refl _).enters _
  · next hstatus =>
    cases ho
    obtain ⟨hwaits, henters, honly⟩ := quarantine_enters pool reason draws.now hc (Table.get?_mem hl) ha
      (unreleased hstatus)
    refine ⟨hwaits, fun m hm m' hm' hid hstatus' hnot => ?_⟩
    obtain rfl := (honly m hm m' hm' hid hstatus').resolve_left hnot
    exact ⟨a, pool, ha, hpool, henters⟩

/-- An approval finds the deadline passed. -/
theorem approveRelease_waits (addressId : Uuid) (h : Waits db.ipam k deadline) :
    Waits (svc.approveRelease db addressId draws).db.ipam k deadline ∨
      approves db (.call svc draws (.approveRelease addressId)) = some k ∧ deadline ≤ draws.now := by
  apply Outcome.of_elim (P := fun (o : Outcome AddressResponse) => Waits o.db.ipam k deadline ∨
    (o.result.toOption.map fun _ => addressId) = some k ∧ deadline ≤ draws.now)
  · intro e
    exact Or.inl h
  · intro o ho
    simp only [bind_ok, orRaise_ok, raiseIf_ok, pure_ok] at ho
    obtain ⟨a, ha, -, -, -, hpassed, l, -, -, -, rfl⟩ := ho
    have hid : a.id = addressId := Table.get?_key ha
    by_cases hk : addressId = k
    · right
      obtain ⟨b, hb, -, hdeadline⟩ := h
      rw [← hk, ha] at hb
      cases hb
      push Not at hpassed
      exact ⟨congrArg some hk, hpassed deadline hdeadline⟩
    · left
      apply h.same
      apply Table.get?_update_of_ne
      rw [hid]
      exact fun heq => hk heq.symm

theorem approveRelease_settles (addressId : Uuid) :
    Settles db.ipam (svc.approveRelease db addressId draws).db.ipam := by
  apply Outcome.of_cases (P := fun d => Settles db.ipam d.ipam) (settles_same rfl)
  intro o ho
  simp only [bind_ok, pure_ok] at ho
  obtain ⟨_, -, _, -, _, -, l, -, _, -, rfl⟩ := ho
  refine settles_update rfl fun l hstatus => ?_
  cases hstatus

/-- What a call does to the addresses that rest, and to those that enter quarantine. -/
theorem perform_enters (hc : Consistent db.ipam) (c : IpamCall) (hc' : ∀ k, c ≠ .approveRelease k) :
    Enters db.ipam (perform svc draws db c).ipam draws.now := by
  cases c with
  | createPool payload => exact (createPool_leaves payload).enters _
  | updatePool poolId payload => exact (updatePool_leaves poolId payload).enters _
  | deletePool poolId version => exact (deletePool_leaves poolId version).enters _
  | reserveAddress poolId address reason => exact (reserveAddress_leaves poolId address reason).enters _
  | allocate poolId workloadId requested => exact (allocate_leaves hc poolId workloadId requested).enters _
  | reserveForProvisioning poolId requestId requested =>
    exact (reserveForProvisioning_leaves hc poolId requestId requested).enters _
  | confirmProvisioningIp requestId workloadId => exact (confirmProvisioningIp_leaves hc requestId workloadId).enters _
  | quarantineProvisioningIp requestId => exact quarantineProvisioningIp_enters hc requestId
  | release allocationId reason => exact release_enters hc allocationId reason
  | approveRelease addressId => exact absurd rfl (hc' addressId)

/-- **Every call** leaves an address that rests, but for an approval after the deadline. -/
theorem act_waits (hc : Consistent db.ipam) (h : Waits db.ipam k deadline) (a : IpamAction) :
    Waits (act db a).ipam k deadline ∨ approves db a = some k ∧ ∃ now ∈ a.now, deadline ≤ now := by
  cases a with
  | other f => exact Or.inl h
  | call svc draws c =>
    by_cases happrove : ∃ addressId, c = .approveRelease addressId
    · obtain ⟨addressId, rfl⟩ := happrove
      rcases approveRelease_waits addressId h with hwaits | ⟨happroves, hpassed⟩
      · exact Or.inl hwaits
      · exact Or.inr ⟨happroves, draws.now, rfl, hpassed⟩
    · push Not at happrove
      exact Or.inl ((perform_enters hc c happrove).1 k deadline h)

/-- An allocation that has entered quarantine starts the rest of its address. -/
theorem act_enters (hc : Consistent db.ipam) {a : IpamAction} {l l' : IpAllocation} (hl : l ∈ db.ipam.allocations)
    (hl' : l' ∈ (act db a).ipam.allocations) (hid : l'.id = l.id) (hstatus : l'.status = .quarantined)
    (hnot : l.status ≠ .quarantined) : ∃ now ∈ a.now, ∃ row pool, db.ipam.addresses.get? l.ipAddressId = some row ∧
      db.ipam.pools.get? row.poolId = some pool ∧
        Waits (act db a).ipam l.ipAddressId (now + pool.quarantineSeconds * second) := by
  cases a with
  | other f => exact absurd (settles_same rfl l hl l' hl' hid hstatus) hnot
  | call svc draws c =>
    by_cases happrove : ∃ addressId, c = .approveRelease addressId
    · obtain ⟨addressId, rfl⟩ := happrove
      exact absurd (approveRelease_settles addressId l hl l' hl' hid hstatus) hnot
    · push Not at happrove
      exact ⟨draws.now, rfl, (perform_enters hc c happrove).2 l hl l' hl' hid hstatus hnot⟩

/-- An address that rests is not given out. -/
theorem yields_not_waiting (hc : Consistent db.ipam) {a : IpamAction} (h : Waits db.ipam k deadline) :
    yields db a ≠ some k := by
  have htake {t' : IpamTables} {pool : IpPool} {requested : Option Address} {draws : Draws} {address : IpAddress}
      {poolId : Uuid} (hlock : lockedPool db.ipam poolId = .ok pool)
      (hcandidate : candidateAddress db.ipam pool requested draws = .ok (t', address))
      (hfree : address.state = .available) : address.id ≠ k := by
    obtain ⟨hget, hactive⟩ := lockedPool_ok hlock
    exact chosen_not_waiting (candidateAddress_waits h hcandidate)
      (candidateAddress_ok hc hget hactive hcandidate) hfree
  cases a with
  | other f =>
    intro hyields
    cases hyields
  | call svc draws c =>
    cases c with
    | allocate poolId workloadId requested =>
      apply Outcome.of_elim (P := fun (o : Outcome AllocationResponse) =>
        o.result.toOption.map (·.ipAddressId) ≠ some k)
      · intro e hyields
        cases hyields
      · intro o ho
        simp only [bind_ok, raiseIf_ok, onIntegrity_ok, pure_ok, Prod.exists, not_not] at ho
        obtain ⟨pool, hlock, workload, -, -, -, t', address, hcandidate, -, hfree, t'', -, rfl⟩ := ho
        intro hyields
        exact htake hlock hcandidate hfree (Option.some.inj hyields)
    | reserveForProvisioning poolId requestId requested =>
      apply Outcome.of_elim (P := fun (o : Outcome (IpAddress × IpAllocation)) =>
        o.result.toOption.map (·.1.id) ≠ some k)
      · intro e hyields
        cases hyields
      · intro o ho
        simp only [bind_ok] at ho
        obtain ⟨pool, hlock, ho⟩ := ho
        split at ho
        · next existing hexisting =>
          simp only [bind_ok, orRaise_ok, pure_ok] at ho
          obtain ⟨address, haddress, rfl⟩ := ho
          obtain ⟨hmem, -, hstatus⟩ := requestAllocation_some hexisting
          have hnot := held_not_waiting hc hmem haddress (by simpa using hstatus)
          intro hyields
          obtain ⟨b, hb, hstate, -⟩ := h
          have hkey : address.id = existing.ipAddressId := Table.get?_key haddress
          have hk : address.id = k := Option.some.inj hyields
          rw [← hk, hkey, haddress] at hb
          cases hb
          exact hnot hstate
        · simp only [bind_ok, raiseIf_ok, onIntegrity_ok, pure_ok, Prod.exists, not_not] at ho
          obtain ⟨t', address, hcandidate, -, hfree, t'', -, rfl⟩ := ho
          intro hyields
          exact htake hlock hcandidate hfree (Option.some.inj hyields)
    | _ =>
      intro hyields
      cases hyields

end Calls

/-! ### Runs -/

/-- The release of an address is approved in a run, and the approval has read a time that is not
before the deadline. -/
def Approved (db : Db) (actions : List IpamAction) (k : Uuid) (deadline : Instant) : Prop :=
  ∃ before approval after, actions = before ++ approval :: after ∧ approves (run db before) approval = some k ∧
    ∃ now ∈ approval.now, deadline ≤ now

/-- **A run** leaves the deadline of an address that rests, until its release is approved. -/
theorem run_waits {db : Db} {k : Uuid} {deadline : Instant} (hc : Consistent db.ipam) (h : Waits db.ipam k deadline)
    (actions : List IpamAction) : Approved db actions k deadline ∨ Waits (run db actions).ipam k deadline := by
  induction actions generalizing db with
  | nil => exact Or.inr h
  | cons a rest ih =>
    rcases act_waits hc h a with hwaits | ⟨happroves, hpassed⟩
    · rcases ih (hc.moves (act_moves hc a)) hwaits with ⟨before, approval, after, rfl, happroves⟩ | hend
      · exact Or.inl ⟨a :: before, approval, after, rfl, happroves⟩
      · exact Or.inr hend
    · exact Or.inl ⟨[], a, rest, rfl, happroves, hpassed⟩

/-- An allocation of an address enters quarantine by this action, at a time and in a pool whose
setting then counts. -/
structure EntersAt (db : Db) (enter : IpamAction) (k : Uuid) (now : Instant) (pool : IpPool) : Prop where
  entered : enter.now = some now
  pool : ∃ row, db.ipam.addresses.get? k = some row ∧ db.ipam.pools.get? row.poolId = some pool
  allocation : ∃ l ∈ db.ipam.allocations, l.ipAddressId = k ∧ l.status ≠ .quarantined ∧
    ∃ l' ∈ (act db enter).ipam.allocations, l'.id = l.id ∧ l'.status = .quarantined

/-- A time read before another in a run is not after it. -/
theorem Clocked.le {before : List IpamAction} {a b : IpamAction} {s t : Instant} (h : Clocked (before ++ [b]))
    (ha : a ∈ before) (hs : a.now = some s) (ht : b.now = some t) : s ≤ t := by
  unfold Clocked at h
  rw [List.filterMap_append, List.pairwise_append] at h
  apply h.2.2
  · exact List.mem_filterMap.mpr ⟨a, ha, hs⟩
  · simp [ht]

theorem EntersAt.waits {db : Db} {enter : IpamAction} {k : Uuid} {now : Instant} {pool : IpPool}
    (h : EntersAt db enter k now pool) (hc : Consistent db.ipam) :
    Waits (act db enter).ipam k (now + pool.quarantineSeconds * second) := by
  obtain ⟨hat, ⟨row, hrow, hpool⟩, l, hl, rfl, hnot, l', hl', hid, hstatus⟩ := h
  obtain ⟨now', hnow, row', pool', hrow', hpool', hwaits⟩ := act_enters hc hl hl' hid hstatus hnot
  rw [hat] at hnow
  rw [hrow] at hrow'
  cases hnow
  cases hrow'
  rw [hpool] at hpool'
  cases hpool'
  exact hwaits

/-- **Quarantine**: from the moment an allocation enters it, the address keeps its deadline in
every state reached until its release is approved, and it is given out again only after such
an approval, at or after the deadline. -/
theorem quarantine_respected (db : Db) (before middle : List IpamAction) (enter take : IpamAction) {k : Uuid}
    {now time : Instant} {pool : IpPool} (henter : EntersAt (run (fresh db) before) enter k now pool)
    (htake : take.now = some time) (hclock : Clocked (before ++ enter :: (middle ++ [take]))) :
    (∀ m rest, middle = m ++ rest →
      Approved (act (run (fresh db) before) enter) m k (now + pool.quarantineSeconds * second) ∨
        Waits (run (act (run (fresh db) before) enter) m).ipam k (now + pool.quarantineSeconds * second)) ∧
    (yields (run (act (run (fresh db) before) enter) middle) take = some k →
      ∃ m approval m', middle = m ++ approval :: m' ∧
        approves (run (act (run (fresh db) before) enter) m) approval = some k ∧
        ∃ approved, approval.now = some approved ∧ now + pool.quarantineSeconds * second ≤ approved ∧
          approved ≤ time) := by
  have hc := consistent_run (consistent_fresh db) before
  have hwaits := henter.waits hc
  have hc' := hc.moves (act_moves hc enter)
  refine ⟨fun m _ _ => run_waits hc' hwaits m, fun hyields => ?_⟩
  rcases run_waits hc' hwaits middle with ⟨m, approval, m', rfl, happroves, approved, hat, hpassed⟩ | hstill
  · refine ⟨m, approval, m', rfl, happroves, approved, hat, hpassed, ?_⟩
    -- The approval stands before the call that takes the address.
    have hruns : Clocked ((before ++ enter :: (m ++ approval :: m')) ++ [take]) := by
      simpa only [List.append_assoc, List.cons_append] using hclock
    apply hruns.le _ hat htake
    simp
  · exact absurd hyields (yields_not_waiting (consistent_run hc' middle) hstill)

def sampleWorkload : Workload :=
  ⟨20, 1, 100, "pve1", .qemu, none, "STOPPED", none, none, none, false, true, none, 0, 1⟩

/-- A pool, and its first address given to a workload. -/
def assignedRun : List IpamAction :=
  [.call root firstDraws (.createPool linkLocal),
    .call root ⟨0, 0, fun n => n + 30, fun _ => 0⟩ (.allocate 7 20 none)]

/-- The address rests for ten minutes from the tenth second on. -/
def enterCall : IpamAction := .call root ⟨10 * second, 0, fun n => n + 40, fun _ => 0⟩ (.release 31 "move")

def approveCall : IpamAction := .call root ⟨611 * second, 0, fun n => n + 50, fun _ => 0⟩ (.approveRelease 30)

def takeCall : IpamAction := .call root ⟨612 * second, 0, fun n => n + 60, fun _ => 0⟩ (.allocate 7 20 none)

def sampleDb : Db := { Db.empty with workloads := .single sampleWorkload }

/-- The address of that release is taken again, after its approval. -/
theorem released_address_rests :
    ∃ m approval m', [approveCall] = m ++ approval :: m' ∧
      approves (run (act (run (fresh sampleDb) assignedRun) enterCall) m) approval = some 30 ∧
      ∃ approved, approval.now = some approved ∧ 10 * second + 600 * second ≤ approved ∧
        approved ≤ 612 * second := by
  have hpool : ((run (fresh sampleDb) assignedRun).ipam.addresses.get? 30).bind
      (fun row => (run (fresh sampleDb) assignedRun).ipam.pools.get? row.poolId) = some (movedOffset 3 linkLocalPool) := by
    decide +kernel
  have hrows : ∃ l ∈ (run (fresh sampleDb) assignedRun).ipam.allocations.rows, l.ipAddressId = 30 ∧
      l.status ≠ .quarantined ∧ ∃ l' ∈ (act (run (fresh sampleDb) assignedRun) enterCall).ipam.allocations.rows,
        l'.id = l.id ∧ l'.status = .quarantined := by
    decide +kernel
  have henter : EntersAt (run (fresh sampleDb) assignedRun) enterCall 30 (10 * second)
      (movedOffset 3 linkLocalPool) :=
    ⟨rfl, Option.bind_eq_some_iff.mp hpool, hrows⟩
  exact (quarantine_respected sampleDb assignedRun [approveCall] enterCall takeCall henter rfl
    (by unfold Clocked; decide)).2 (by decide +kernel)

end PveMaster.Ipam
