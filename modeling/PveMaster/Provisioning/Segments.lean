import PveMaster.Platform.Agreement
import PveMaster.Provisioning.Shape

/-! The segment of a request and the segment of its address.

A request freezes the bridge and the VLAN tag of its template; its address lies in a pool,
which has a bridge and a tag of its own. Here is what the columns of both say of each other
(`Fits`, `Placed`), and what one operation of a run leaves of that. -/
namespace PveMaster.Networking
open IpamService

/-! ### The columns -/

/-- The layer-2 segment of a pool. -/
abbrev segment (p : IpPool) : String × Option Nat := (p.bridge, p.vlanTag)

/-- What makes an address the one it is. -/
abbrev place (a : IpAddress) : Uuid × Inet := (a.poolId, a.address)

/-- What a request keeps from its creation on of where its VM goes. -/
abbrev plan (r : ProvisioningRequest) : Uuid × Option Json × Option Json :=
  (r.ipPoolId, r.specSnapshot.get? "bridge", r.specSnapshot.get? "vlan_tag")

/-- The saved specification names the segment of the pool. -/
structure Fits (r : ProvisioningRequest) (p : IpPool) : Prop where
  bridge : r.specSnapshot.get? "bridge" = some (.str p.bridge)
  vlanTag : r.specSnapshot.get? "vlan_tag" = some ((p.vlanTag.map fun tag => Json.int tag).getD .null)

instance (r : ProvisioningRequest) (p : IpPool) : Decidable (Fits r p) :=
  decidable_of_iff (r.specSnapshot.get? "bridge" = some (.str p.bridge) ∧
    r.specSnapshot.get? "vlan_tag" = some ((p.vlanTag.map fun tag => Json.int tag).getD .null))
    ⟨fun h => ⟨h.1, h.2⟩, fun h => ⟨h.bridge, h.vlanTag⟩⟩

/-- The pool of the request is there, and the specification names its segment. -/
def Fitting (db : Db) (r : ProvisioningRequest) : Prop := ∃ p, db.ipam.pools.get? r.ipPoolId = some p ∧ Fits r p

instance (db : Db) (r : ProvisioningRequest) : Decidable (Fitting db r) :=
  decidable_of_iff ((db.ipam.pools.get? r.ipPoolId).any fun p => decide (Fits r p)) (by
    unfold Fitting
    rw [Option.any_eq_true]
    simp only [decide_eq_true_eq])

/-- The address lies in the pool. -/
def InPool (db : Db) (addressId poolId : Uuid) : Prop :=
  ∃ a, db.ipam.addresses.get? addressId = some a ∧ a.poolId = poolId

/-- The address of a request, once it has one, lies in its pool. -/
def Placed (db : Db) (r : ProvisioningRequest) : Prop := ∀ id, r.ipAddressId = some id → InPool db id r.ipPoolId

theorem Fits.same {r r' : ProvisioningRequest} {p p' : IpPool} (h : Fits r p) (hr : plan r' = plan r)
    (hp : segment p' = segment p) : Fits r' p' := by
  have hbridge : r'.specSnapshot.get? "bridge" = r.specSnapshot.get? "bridge" := congrArg (fun x => x.2.1) hr
  have htag : r'.specSnapshot.get? "vlan_tag" = r.specSnapshot.get? "vlan_tag" := congrArg (fun x => x.2.2) hr
  have hpool : p'.bridge = p.bridge := congrArg Prod.fst hp
  have hpoolTag : p'.vlanTag = p.vlanTag := congrArg Prod.snd hp
  exact ⟨by rw [hbridge, hpool]; exact h.bridge, by rw [htag, hpoolTag]; exact h.vlanTag⟩

/-- Two pools one request fits have one segment. -/
theorem Fits.segment_eq {r : ProvisioningRequest} {p p' : IpPool} (h : Fits r p) (h' : Fits r p') :
    segment p' = segment p := by
  have hbridge : some (Json.str p'.bridge) = some (Json.str p.bridge) := h'.bridge.symm.trans h.bridge
  have htag : (p'.vlanTag.map fun tag => Json.int tag).getD .null =
      (p.vlanTag.map fun tag => Json.int tag).getD .null := Option.some.inj (h'.vlanTag.symm.trans h.vlanTag)
  apply Prod.ext
  · exact Json.str.inj (Option.some.inj hbridge)
  · show p'.vlanTag = p.vlanTag
    cases hp : p.vlanTag with
    | none =>
      cases hp' : p'.vlanTag with
      | none => rfl
      | some tag =>
        rw [hp, hp'] at htag
        cases htag
    | some t =>
      cases hp' : p'.vlanTag with
      | none =>
        rw [hp, hp'] at htag
        cases htag
      | some t' =>
        rw [hp, hp'] at htag
        have hint : (t' : Int) = t := Json.int.inj htag
        rw [Int.ofNat.inj hint]

/-! ### The tables -/

/-- What every change keeps. -/
structure Onward (db db' : Db) : Prop where
  requests : Table.Keeps plan db.requests db'.requests
  addresses : Table.Keeps place db.ipam.addresses db'.ipam.addresses
  pools : Table.Keeps IpPool.id db.ipam.pools db'.ipam.pools

theorem Onward.refl (db : Db) : Onward db db := ⟨.refl _ _, .refl _ _, .refl _ _⟩

theorem Onward.trans {db db' db'' : Db} (h : Onward db db') (h' : Onward db' db'') : Onward db db'' :=
  ⟨h.requests.trans h'.requests, h.addresses.trans h'.addresses, h.pools.trans h'.pools⟩

theorem InPool.mono {db db' : Db} {addressId poolId : Uuid} (h : InPool db addressId poolId)
    (ho : Table.Keeps place db.ipam.addresses db'.ipam.addresses) : InPool db' addressId poolId := by
  obtain ⟨a, ha, hpool⟩ := h
  obtain ⟨a', ha', hplace⟩ := ho addressId a ha
  exact ⟨a', ha', (congrArg Prod.fst hplace).trans hpool⟩

theorem Placed.mono {db db' : Db} {r r' : ProvisioningRequest} (h : Placed db r)
    (ho : Table.Keeps place db.ipam.addresses db'.ipam.addresses) (hplan : plan r' = plan r)
    (haddress : r'.ipAddressId = r.ipAddressId) : Placed db' r' := by
  intro id hid
  have hpool : r'.ipPoolId = r.ipPoolId := congrArg Prod.fst hplan
  rw [hpool]
  exact (h id (haddress.symm.trans hid)).mono ho

theorem Fitting.mono {db db' : Db} {r r' : ProvisioningRequest} (h : Fitting db r)
    (ho : Table.Keeps segment db.ipam.pools db'.ipam.pools) (hplan : plan r' = plan r) : Fitting db' r' := by
  obtain ⟨p, hp, hfits⟩ := h
  obtain ⟨p', hp', hsegment⟩ := ho r.ipPoolId p hp
  have hpool : r'.ipPoolId = r.ipPoolId := congrArg Prod.fst hplan
  exact ⟨p', by rw [hpool]; exact hp', hfits.same hplan hsegment⟩

/-- What holds of the requests, and of the allocations made for them. -/
structure Mapped (db : Db) : Prop where
  placed : ∀ r ∈ db.requests, Placed db r
  fitting : ∀ r ∈ db.requests, r.status.terminal = false → Fitting db r
  allocated : ∀ l ∈ db.ipam.allocations, ∀ k, l.provisioningRequestId = some k →
    ∃ r, db.requests.get? k = some r ∧ InPool db l.ipAddressId r.ipPoolId

/-! ### What an operation does to the tables of the pools -/

/-- What one operation of the run of the request `k` leaves of them: an allocation for a
request is an old one, or the run has made it in the pool it asked. -/
structure Follows (k : Uuid) (asked : Option Uuid) (t t' : IpamTables) : Prop where
  pools : Table.Keeps segment t.pools t'.pools
  addresses : Table.Keeps place t.addresses t'.addresses
  allocations : ∀ l' ∈ t'.allocations, ∀ j, l'.provisioningRequestId = some j →
    (∃ l ∈ t.allocations, l.provisioningRequestId = some j ∧ l.ipAddressId = l'.ipAddressId) ∨
      j = k ∧ ∃ poolId ∈ asked, ∃ a, t'.addresses.get? l'.ipAddressId = some a ∧ a.poolId = poolId

theorem Follows.refl (k : Uuid) (asked : Option Uuid) (t : IpamTables) : Follows k asked t t :=
  ⟨.refl _ _, .refl _ _, fun l hl _ hj => Or.inl ⟨l, hl, hj, rfl⟩⟩

section Tables
variable {t t' : IpamTables} {k poolId : Uuid} {asked : Option Uuid}

theorem keeps_updateAddress {id : Uuid} {f : IpAddress → IpAddress} (hf : ∀ a, place (f a) = place a) :
    Table.Keeps place t.addresses (updateAddress t id f).addresses := (Table.alike_update id hf).keeps

/-- Rewriting an address and its allocation. -/
theorem Follows.rewrite {addressId allocationId : Uuid} {f : IpAddress → IpAddress} {g : IpAllocation → IpAllocation}
    (hf : ∀ a, place (f a) = place a)
    (hg : ∀ l, (g l).provisioningRequestId = l.provisioningRequestId ∧ (g l).ipAddressId = l.ipAddressId) :
    Follows k asked t (updateAddress (updateAllocation t allocationId g) addressId f) where
  pools := .refl _ _
  addresses := keeps_updateAddress hf
  allocations l' hl' j hj := by
    obtain ⟨l, hl, rfl⟩ := Table.mem_update.mp hl'
    left
    unfold Table.amend at hj ⊢
    split at hj
    · next hkey =>
      rw [if_pos hkey]
      exact ⟨l, hl, (hg l).1.symm.trans hj, (hg l).2.symm⟩
    · next hkey =>
      rw [if_neg hkey]
      exact ⟨l, hl, hj, rfl⟩

/-- What the choice of an address in a pool does to the tables. -/
structure Found (pool : IpPool) (t t' : IpamTables) (a : IpAddress) : Prop where
  pools : Table.Keeps segment t.pools t'.pools
  addresses : Table.Keeps place t.addresses t'.addresses
  found : t'.addresses.get? a.id = some a
  inPool : a.poolId = pool.id
  allocations : t'.allocations = t.allocations

theorem found_existing {pool : IpPool} {a : IpAddress} (ha : a ∈ t.addresses) (hin : a.poolId = pool.id) :
    Found pool t t a := ⟨.refl _ _, .refl _ _, Table.get?_of_mem ha, hin, rfl⟩

theorem found_new {pool : IpPool} {a : IpAddress} {pools : Table IpPool} (hpools : Table.Keeps segment t.pools pools)
    (hin : a.poolId = pool.id) (h : insertAddress { t with pools := pools } a = .ok t') : Found pool t t' a := by
  obtain ⟨addresses, hinsert, -, rfl⟩ := Ipam.insertAddress_ok h
  exact ⟨hpools, Table.keeps_insert hinsert, Table.get?_insert_same hinsert, hin, rfl⟩

/-- **A candidate** lies in the pool it is chosen for. -/
theorem candidateAddress_found {pool : IpPool} {requested : Option Address} {draws : Draws} {a : IpAddress}
    (h : candidateAddress t pool requested draws = .ok (t', a)) : Found pool t t' a := by
  cases requested with
  | none =>
    simp only [candidateAddress, automaticCandidate] at h
    split at h
    · next available hleast =>
      cases h
      obtain ⟨hmem, hin, -⟩ := Ipam.leastAvailable_some hleast
      exact found_existing hmem hin
    · simp only [bind_ok, orRaise_ok, pure_ok, Prod.mk.injEq] at h
      obtain ⟨offset, -, candidate, -, t'', hinsert, rfl, rfl⟩ := h
      exact found_new (Table.alike_update (g := movedOffset _) pool.id fun _ => rfl).keeps rfl hinsert
  | some literal =>
    simp only [candidateAddress, bind_ok, raiseIf_ok] at h
    obtain ⟨candidate, -, _, -, h⟩ := h
    split at h
    · next existing hrow =>
      cases h
      obtain ⟨hmem, hin, -⟩ := Ipam.addressRow_some hrow
      exact found_existing hmem hin
    · simp only [bind_ok, pure_ok, Prod.mk.injEq] at h
      obtain ⟨t'', hinsert, rfl, rfl⟩ := h
      exact found_new (.refl _ _) rfl hinsert

theorem lockedPool_id {pool : IpPool} (h : lockedPool t poolId = .ok pool) : pool.id = poolId := by
  simp only [lockedPool, bind_ok, orRaise_ok, raiseIf_ok, pure_ok] at h
  obtain ⟨p, hget, _, -, rfl⟩ := h
  exact Table.get?_key hget

theorem requestAllocation_of {requestId : Uuid} {statuses : List IpAllocationStatus} {l : IpAllocation}
    (h : requestAllocation t requestId statuses = some l) :
    l ∈ t.allocations ∧ l.provisioningRequestId = some requestId := by
  obtain ⟨hmem, hp⟩ := Table.first_some h
  simp only [Bool.and_eq_true, beq_iff_eq] at hp
  exact ⟨hmem, hp.1⟩

/-- An allocation taken for a request, on an address that was found in a pool. -/
theorem Found.taken {db : Db} {t'' : IpamTables} {pool : IpPool} {a : IpAddress} {l : IpAllocation}
    {f : IpAddress → IpAddress} (h : Found pool t t' a) (hf : ∀ a, place (f a) = place a)
    (haddress : l.ipAddressId = a.id)
    (hl : ∀ j, l.provisioningRequestId = some j → j = k ∧ asked = some pool.id)
    (hinsert : insertAllocation db (updateAddress t' a.id f) l = .ok t'') :
    Follows k asked t t'' ∧ ∃ a', t''.addresses.get? a.id = some a' ∧ a'.poolId = pool.id := by
  obtain ⟨allocations, hallocations, -, rfl⟩ := Ipam.insertAllocation_ok hinsert
  have hkeeps : Table.Keeps place t'.addresses (updateAddress t' a.id f).addresses := keeps_updateAddress hf
  obtain ⟨a', ha', hplace⟩ := hkeeps a.id a h.found
  have hpool : a'.poolId = pool.id := (congrArg Prod.fst hplace).trans h.inPool
  refine ⟨⟨h.pools, h.addresses.trans hkeeps, fun l' hl' j hj => ?_⟩, a', ha', hpool⟩
  rcases (Table.mem_insert hallocations).mp hl' with hold | rfl
  · replace hold : l' ∈ t.allocations := by
      rw [← h.allocations]
      exact hold
    exact Or.inl ⟨l', hold, hj, rfl⟩
  · obtain ⟨hj, hasked⟩ := hl j hj
    exact Or.inr ⟨hj, pool.id, hasked, a', by rw [haddress]; exact ha', hpool⟩

end Tables

section Calls
variable {db : Db} {draws : Draws} {k poolId : Uuid} {asked : Option Uuid}

theorem follows_of {α : Type} {x : Except Exn (Outcome α)} (h : ∀ o, x = .ok o → Follows k asked db.ipam o.db.ipam) :
    Follows k asked db.ipam (Outcome.of db x).db.ipam :=
  Outcome.of_cases (P := fun d => Follows k asked db.ipam d.ipam) (.refl _ _ _) h

/-- What `reserve_for_provisioning` leaves and answers. -/
structure Reserves (k poolId : Uuid) (db : Db) (out : Outcome (IpAddress × IpAllocation)) : Prop where
  follows : Follows k (some poolId) db.ipam out.db.ipam
  answered : ∀ a l, out.result = .ok (a, l) → InPool out.db a.id poolId
  /-- An address the request has already is there before. -/
  again : ∀ a l, out.result = .ok (a, l) →
    (requestAllocation db.ipam k [.reserved, .assigned]).isSome = true → InPool db a.id poolId

/-- **`reserve_for_provisioning`** answers with an address in the pool it is asked for, if the
allocation the request may have lies there. -/
theorem reserveForProvisioning_reserves (svc : IpamService) (requested : Option Address)
    (hown : ∀ l ∈ db.ipam.allocations, l.provisioningRequestId = some k → InPool db l.ipAddressId poolId) :
    Reserves k poolId db (svc.reserveForProvisioning db poolId k requested draws) := by
  refine Outcome.of_elim (P := Reserves k poolId db)
    (fun e => ⟨.refl _ _ _, fun a l h => (by cases h), fun a l h => (by cases h)⟩) fun out h => ?_
  simp only [bind_ok] at h
  obtain ⟨pool, hlock, h⟩ := h
  split at h
  · next existing hexisting =>
    simp only [bind_ok, orRaise_ok, pure_ok] at h
    obtain ⟨address, haddress, rfl⟩ := h
    obtain ⟨hmem, hrequest⟩ := requestAllocation_of hexisting
    have hin : InPool db address.id poolId := by
      have hid : address.id = existing.ipAddressId := Table.get?_key haddress
      rw [hid]
      exact hown existing hmem hrequest
    refine ⟨.refl _ _ _, fun a l hresult => ?_, fun a l hresult _ => ?_⟩
    · cases hresult
      exact hin
    · cases hresult
      exact hin
  · next hnone =>
    simp only [bind_ok, raiseIf_ok, onIntegrity_ok, pure_ok, Prod.exists, not_not] at h
    obtain ⟨t', a, hcandidate, -, -, t'', hinsert, rfl⟩ := h
    have hpool := lockedPool_id hlock
    obtain ⟨hfollows, hin⟩ := (candidateAddress_found hcandidate).taken (k := k) (f := reserved draws.now)
      (fun _ => rfl) rfl (fun j hj => ⟨(Option.some.inj hj).symm, rfl⟩) hinsert
    rw [hpool] at hfollows hin
    refine ⟨hfollows, fun a' l hresult => ?_, fun a' l hresult hsome => ?_⟩
    · cases hresult
      exact hin
    · rw [hnone] at hsome
      cases hsome

theorem confirmProvisioningIp_follows (requestId workloadId : Uuid) :
    Follows k asked db.ipam (confirmProvisioningIp db requestId workloadId draws).db.ipam := by
  refine follows_of fun out h => ?_
  split at h
  · split at h
    · cases h
      exact .refl _ _ _
    · cases h
  · simp only [bind_ok, pure_ok] at h
    obtain ⟨address, -, -, -, rfl⟩ := h
    exact .rewrite (fun _ => rfl) fun _ => ⟨rfl, rfl⟩

theorem quarantineProvisioningIp_follows (requestId : Uuid) :
    Follows k asked db.ipam (quarantineProvisioningIp db requestId draws).db.ipam := by
  refine follows_of fun out h => ?_
  split at h
  · cases h
    exact .refl _ _ _
  · simp only [bind_ok, pure_ok] at h
    obtain ⟨address, -, pool, -, rfl⟩ := h
    exact .rewrite (fun _ => rfl) fun _ => ⟨rfl, rfl⟩

/-! ### What the administrators do -/

theorem createPool_follows (svc : IpamService) (payload : IpPoolCreate) :
    Follows k asked db.ipam (svc.createPool db payload draws).db.ipam := by
  refine follows_of fun out h => ?_
  simp only [bind_ok, raiseIf_ok, onIntegrity_ok, pure_ok] at h
  obtain ⟨network, -, -, -, -, -, -, -, -, -, -, -, t, hinsert, rfl⟩ := h
  simp only [insertPool, bind_ok, orRaise_ok, raiseIf_ok, pure_ok] at hinsert
  obtain ⟨pools, hpools, -, -, exclusions, -, -, -, rfl⟩ := hinsert
  exact ⟨Table.keeps_insert hpools, .refl _ _, fun l hl j hj => Or.inl ⟨l, hl, hj, rfl⟩⟩

theorem deletePool_follows (svc : IpamService) (version : Nat) :
    Follows k asked db.ipam (svc.deletePool db poolId version).db.ipam := by
  refine follows_of fun out h => ?_
  simp only [bind_ok, raiseIf_ok, pure_ok] at h
  obtain ⟨pool, -, -, -, -, -, rfl⟩ := h
  exact ⟨(Table.alike_update (g := closedPool) pool.id fun _ => rfl).keeps, .refl _ _,
    fun l hl j hj => Or.inl ⟨l, hl, hj, rfl⟩⟩

theorem reserveAddress_follows (svc : IpamService) (address : Address) (reason : String) :
    Follows k asked db.ipam (svc.reserveAddress db poolId address reason draws).db.ipam := by
  refine follows_of fun out h => ?_
  simp only [bind_ok] at h
  obtain ⟨pool, -, candidate, -, h⟩ := h
  split at h
  · next existing _ =>
    simp only [bind_ok, raiseIf_ok, pure_ok] at h
    obtain ⟨-, -, rfl⟩ := h
    exact ⟨.refl _ _, keeps_updateAddress fun _ => rfl, fun l hl j hj => Or.inl ⟨l, hl, hj, rfl⟩⟩
  · simp only [bind_ok, pure_ok] at h
    obtain ⟨t, hinsert, rfl⟩ := h
    obtain ⟨addresses, haddresses, -, rfl⟩ := Ipam.insertAddress_ok hinsert
    exact ⟨.refl _ _, Table.keeps_insert haddresses, fun l hl j hj => Or.inl ⟨l, hl, hj, rfl⟩⟩

theorem allocate_follows (svc : IpamService) (workloadId : Uuid) (requested : Option Address) :
    Follows k asked db.ipam (svc.allocate db poolId workloadId requested draws).db.ipam := by
  refine follows_of fun out h => ?_
  simp only [bind_ok, raiseIf_ok, onIntegrity_ok, pure_ok, Prod.exists, not_not] at h
  obtain ⟨pool, -, workload, -, -, -, t, a, hcandidate, -, -, t', hinsert, rfl⟩ := h
  exact ((candidateAddress_found hcandidate).taken (f := assigned draws.now) (fun _ => rfl) rfl
    (fun j hj => by cases hj) hinsert).1

theorem release_follows (svc : IpamService) (allocationId : Uuid) (reason : String) :
    Follows k asked db.ipam (svc.release db allocationId reason draws).db.ipam := by
  refine follows_of fun out h => ?_
  simp only [bind_ok] at h
  obtain ⟨allocation, -, address, -, pool, -, h⟩ := h
  split at h
  · cases h
    exact .refl _ _ _
  · cases h
    exact .rewrite (fun _ => rfl) fun _ => ⟨rfl, rfl⟩

theorem approveRelease_follows (svc : IpamService) (addressId : Uuid) :
    Follows k asked db.ipam (svc.approveRelease db addressId draws).db.ipam := by
  refine follows_of fun out h => ?_
  simp only [bind_ok, raiseIf_ok, pure_ok] at h
  obtain ⟨address, -, -, -, -, -, allocation, -, pool, -, rfl⟩ := h
  exact .rewrite (fun _ => rfl) fun _ => ⟨rfl, rfl⟩

end Calls

/-! ### Each operation -/

/-- The pool an operation asks for an address. -/
def askedPool {ρ : Type} : ProvOp ρ → Option Uuid
  | .reserveIp _ poolId _ => some poolId
  | _ => none

section Operations
variable {settings : Settings} {θ : ProvState} {w : World} {k : Uuid} {asked : Option Uuid}

theorem commit_follows (θ : ProvState) (i : Input) {w : World} {db : Db} (h : Follows k asked w.db.ipam db.ipam) :
    Follows k asked w.db.ipam (θ.commit i w db).2.1.db.ipam := by
  rcases Agreement.commit_db θ i w db with hc | hc
  · rw [hc]
    exact .refl _ _ _
  · rw [hc]
    exact h

theorem commit_same (θ : ProvState) (i : Input) {w : World} {db : Db} (h : db.ipam = w.db.ipam) :
    Follows k asked w.db.ipam (θ.commit i w db).2.1.db.ipam := by
  apply commit_follows
  rw [h]
  exact .refl _ _ _

/-- **The reservation of an address**: what it answers with lies in the pool. -/
theorem reserveIp_follows (svc : IpamService) {poolId : Uuid} (requested : Option Address) (i : Input)
    (hown : ∀ l ∈ w.db.ipam.allocations, l.provisioningRequestId = some θ.requestId →
      InPool w.db l.ipAddressId poolId) :
    Follows θ.requestId (some poolId) w.db.ipam (PveMaster.reserveIp svc poolId requested i θ w).2.1.db.ipam ∧
      ∀ a, (PveMaster.reserveIp svc poolId requested i θ w).2.2 = .ok a →
        InPool (PveMaster.reserveIp svc poolId requested i θ w).2.1.db a.id poolId := by
  have hreserves : Reserves θ.requestId poolId w.db
      (svc.reserveForProvisioning w.db poolId θ.requestId requested (i.draws w)) :=
    reserveForProvisioning_reserves svc requested hown
  unfold PveMaster.reserveIp
  dsimp only
  generalize svc.reserveForProvisioning w.db poolId θ.requestId requested (i.draws w) = out at hreserves
  cases hresult : out.result with
  | error e =>
    dsimp only
    rw [Agreement.raising_db]
    refine ⟨.refl _ _ _, fun a ha => ?_⟩
    unfold ProvState.raising at ha
    split at ha <;> cases ha
  | ok pair =>
    obtain ⟨address, allocation⟩ := pair
    dsimp only
    split
    · next hagain =>
      refine ⟨.refl _ _ _, fun a ha => ?_⟩
      cases ha
      exact hreserves.again _ _ hresult hagain
    · have hfollows := commit_follows θ i hreserves.follows
      rcases commit_cases θ i w out.db with ⟨-, h⟩ | ⟨e, h, -⟩ | ⟨-, -, -, h⟩
      · rw [h] at hfollows ⊢
        exact ⟨hfollows, fun a ha => by cases ha⟩
      · rw [h] at hfollows ⊢
        refine ⟨hfollows, fun a ha => ?_⟩
        cases e <;> cases ha
      · rw [h] at hfollows ⊢
        refine ⟨hfollows, fun a ha => ?_⟩
        cases ha
        exact hreserves.answered _ _ hresult

theorem confirmIp_follows (workloadId : Uuid) (i : Input) :
    Follows k asked w.db.ipam (PveMaster.confirmIp workloadId i θ w).2.1.db.ipam := by
  unfold PveMaster.confirmIp
  dsimp only
  split
  · rw [Agreement.raising_db]
    exact .refl _ _ _
  · split
    · exact .refl _ _ _
    · exact commit_follows θ i (confirmProvisioningIp_follows _ _)

theorem quarantineIp_follows (i : Input) :
    Follows k asked w.db.ipam (quarantineIp i θ w).2.1.db.ipam := by
  unfold quarantineIp
  dsimp only
  split
  · rw [Agreement.raising_db]
    exact .refl _ _ _
  · split
    · exact .refl _ _ _
    · exact commit_follows θ i (quarantineProvisioningIp_follows _)

theorem assignOrganization_follows (actor : User) (i : Input) :
    Follows k asked w.db.ipam (PveMaster.assignOrganization settings actor i θ w).2.1.db.ipam := by
  unfold PveMaster.assignOrganization
  split
  · exact .refl _ _ _
  · split
    · rw [Agreement.raising_db]
      exact .refl _ _ _
    · next db id hassigned =>
      rw [Agreement.committing_db]
      apply commit_same
      unfold assignedWorkload at hassigned
      simp only [bind_ok, pure_ok, Prod.exists, Prod.mk.injEq] at hassigned
      obtain ⟨_, _, -, _, -, rfl, -⟩ := hassigned
      rfl

theorem recordPartialWorkload_follows (i : Input) :
    Follows k asked w.db.ipam (recordPartialWorkload settings i θ w).2.1.db.ipam := by
  unfold recordPartialWorkload
  split
  · exact .refl _ _ _
  · split
    · exact .refl _ _ _
    · exact commit_same θ i rfl
    · next db id hpartial =>
      apply commit_same
      unfold partialWorkload at hpartial
      split at hpartial
      · split at hpartial
        · cases hpartial
        · obtain ⟨_, -, hmark⟩ := bind_ok.mp hpartial
          rw [(markPartial_owners (pure_ok.mp hmark)).2]
      · cases hpartial

theorem selectTarget_follows (memory disk : Int) (i : Input) :
    Follows k asked w.db.ipam (selectTarget settings memory disk i θ w).2.1.db.ipam := by
  unfold selectTarget
  split
  · exact .refl _ _ _
  · split
    · exact .refl _ _ _
    · rw [Agreement.committing_db]
      exact commit_same _ i rfl

theorem releaseNodeCapacity_follows (i : Input) :
    Follows k asked w.db.ipam (releaseNodeCapacity settings i θ w).2.1.db.ipam := by
  unfold releaseNodeCapacity
  repeat' split
  all_goals first | exact .refl _ _ _ | exact commit_same _ i rfl

/-- **Every operation of a run** leaves the tables of the pools so. -/
theorem exec_follows {ρ : Type} {o : ProvOp ρ} {i : Input} {θ' : ProvState} {w' : World} {r : ρ}
    (hown : ∀ poolId, askedPool o = some poolId → ∀ l ∈ w.db.ipam.allocations,
      l.provisioningRequestId = some θ.requestId → InPool w.db l.ipAddressId poolId)
    (h : o.exec settings i θ w = some (θ', w', r)) :
    Follows θ.requestId (askedPool o) w.db.ipam w'.db.ipam := by
  have of {out : ProvState × World × ρ} (hout : some out = some (θ', w', r))
      (hfollows : Follows θ.requestId (askedPool o) w.db.ipam out.2.1.db.ipam) :
      Follows θ.requestId (askedPool o) w.db.ipam w'.db.ipam := by
    cases hout
    exact hfollows
  cases o with
  | claim time =>
    refine of h ?_
    unfold claim
    repeat' split
    all_goals exact .refl _ _ _
  | lock key =>
    obtain ⟨w₁, hlock, hout⟩ := Option.map_eq_some_iff.mp h
    rw [lock?_some hlock] at hout
    cases hout
    exact .refl _ _ _
  | commit e audit => exact of h (commit_same _ i rfl)
  | selectTarget memory disk => exact of h (selectTarget_follows memory disk i)
  | releaseNodeCapacity => exact of h (releaseNodeCapacity_follows i)
  | reserveIp svc asked requested =>
    exact of h (reserveIp_follows svc requested i (hown asked rfl)).1
  | confirmIp workloadId => exact of h (confirmIp_follows workloadId i)
  | quarantineIp => exact of h (quarantineIp_follows i)
  | assignOrganization actor => exact of h (assignOrganization_follows actor i)
  | recordPartialWorkload => exact of h (recordPartialWorkload_follows i)
  | releaseClaim =>
    refine of h ?_
    unfold releaseClaim
    split <;> exact .refl _ _ _
  | _ => exact of h (.refl _ _ _)

end Operations

end PveMaster.Networking
