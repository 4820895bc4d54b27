import PveMaster.Ipam.Screening

/-! What a call that raises has left committed.

A call that raises before its commit leaves nothing behind. After its commit only `release`
can raise: the response asserts a workload, and an allocation that provisioning has made has
none before it is confirmed. -/
namespace PveMaster.Ipam
open IpamService

/-- The exception a call ends with, if it ends with one. -/
def Outcome.raised {α : Type} (o : Outcome α) : Option Exn :=
  match o.result with
  | .ok _ => none
  | .error e => some e

/-- The exception any of the calls ends with. -/
def raises (svc : IpamService) (draws : Draws) (db : Db) : IpamCall → Option Exn
  | .createPool payload => Outcome.raised (svc.createPool db payload draws)
  | .updatePool poolId payload => Outcome.raised (svc.updatePool db poolId payload)
  | .deletePool poolId version => Outcome.raised (svc.deletePool db poolId version)
  | .reserveAddress poolId address reason => Outcome.raised (svc.reserveAddress db poolId address reason draws)
  | .allocate poolId workloadId address => Outcome.raised (svc.allocate db poolId workloadId address draws)
  | .reserveForProvisioning poolId requestId address =>
    Outcome.raised (svc.reserveForProvisioning db poolId requestId address draws)
  | .confirmProvisioningIp requestId workloadId => Outcome.raised (confirmProvisioningIp db requestId workloadId draws)
  | .quarantineProvisioningIp requestId => Outcome.raised (quarantineProvisioningIp db requestId draws)
  | .release allocationId reason => Outcome.raised (svc.release db allocationId reason draws)
  | .approveRelease addressId => Outcome.raised (svc.approveRelease db addressId draws)

/-- Whether a call releases a reservation that no workload has been confirmed for. Its response
has no workload to show. -/
def ReleasesReservation (t : IpamTables) : IpamCall → Prop
  | .release allocationId _ => ∃ l, t.allocations.get? allocationId = some l ∧ l.status = .reserved ∧ l.workloadId = none
  | _ => False

section Calls
variable {svc : IpamService} {draws : Draws} {db : Db}

/-- A call whose commit is the last thing that can fail. -/
theorem atomic_of {α : Type} {x : Except Exn (Outcome α)} (h : ∀ o, x = .ok o → Outcome.raised o = none)
    (hraised : Outcome.raised (Outcome.of db x) ≠ none) : (Outcome.of db x).db = db := by
  cases x with
  | error e => rfl
  | ok o => exact absurd (h o rfl) hraised

theorem createPool_atomic (payload : IpPoolCreate) (h : Outcome.raised (svc.createPool db payload draws) ≠ none) :
    (svc.createPool db payload draws).db = db := by
  refine atomic_of (fun o ho => ?_) h
  simp only [bind_ok, pure_ok] at ho
  obtain ⟨_, _, _, _, _, _, _, _, _, _, _, _, _, _, rfl⟩ := ho
  rfl

theorem updatePool_atomic (poolId : Uuid) (payload : IpPoolUpdate)
    (h : Outcome.raised (svc.updatePool db poolId payload) ≠ none) : (svc.updatePool db poolId payload).db = db := by
  refine atomic_of (fun o ho => ?_) h
  simp only [bind_ok, pure_ok] at ho
  obtain ⟨_, _, _, _, _, _, _, _, _, _, _, _, _, _, _, _, _, _, _, _, rfl⟩ := ho
  rfl

theorem deletePool_atomic (poolId : Uuid) (version : Nat)
    (h : Outcome.raised (svc.deletePool db poolId version) ≠ none) : (svc.deletePool db poolId version).db = db := by
  refine atomic_of (fun o ho => ?_) h
  simp only [bind_ok, pure_ok] at ho
  obtain ⟨_, _, _, _, _, _, rfl⟩ := ho
  rfl

theorem reserveAddress_atomic (poolId : Uuid) (address : Address) (reason : String)
    (h : Outcome.raised (svc.reserveAddress db poolId address reason draws) ≠ none) :
    (svc.reserveAddress db poolId address reason draws).db = db := by
  refine atomic_of (fun o ho => ?_) h
  simp only [bind_ok] at ho
  obtain ⟨_, _, _, _, ho⟩ := ho
  split at ho
  · simp only [bind_ok, pure_ok] at ho
    obtain ⟨_, _, rfl⟩ := ho
    rfl
  · simp only [bind_ok, pure_ok] at ho
    obtain ⟨_, _, rfl⟩ := ho
    rfl

/-- An allocation made for a workload can be shown. -/
theorem allocate_atomic (poolId workloadId : Uuid) (requested : Option Address)
    (h : Outcome.raised (svc.allocate db poolId workloadId requested draws) ≠ none) :
    (svc.allocate db poolId workloadId requested draws).db = db := by
  refine atomic_of (fun o ho => ?_) h
  simp only [bind_ok, pure_ok, Prod.exists] at ho
  obtain ⟨_, _, _, _, _, _, _, _, _, _, _, _, _, rfl⟩ := ho
  rfl

theorem reserveForProvisioning_atomic (poolId requestId : Uuid) (requested : Option Address)
    (h : Outcome.raised (svc.reserveForProvisioning db poolId requestId requested draws) ≠ none) :
    (svc.reserveForProvisioning db poolId requestId requested draws).db = db := by
  refine atomic_of (fun o ho => ?_) h
  simp only [bind_ok] at ho
  obtain ⟨_, _, ho⟩ := ho
  split at ho
  · simp only [bind_ok, pure_ok] at ho
    obtain ⟨_, _, rfl⟩ := ho
    rfl
  · simp only [bind_ok, pure_ok, Prod.exists] at ho
    obtain ⟨_, _, _, _, _, _, _, rfl⟩ := ho
    rfl

theorem confirmProvisioningIp_atomic (requestId workloadId : Uuid)
    (h : Outcome.raised (confirmProvisioningIp db requestId workloadId draws) ≠ none) :
    (confirmProvisioningIp db requestId workloadId draws).db = db := by
  refine atomic_of (fun o ho => ?_) h
  split at ho
  · split at ho
    · cases ho
      rfl
    · cases ho
  · simp only [bind_ok, pure_ok] at ho
    obtain ⟨_, _, _, _, rfl⟩ := ho
    rfl

theorem quarantineProvisioningIp_atomic (requestId : Uuid)
    (h : Outcome.raised (quarantineProvisioningIp db requestId draws) ≠ none) :
    (quarantineProvisioningIp db requestId draws).db = db := by
  refine atomic_of (fun o ho => ?_) h
  split at ho
  · cases ho
    rfl
  · simp only [bind_ok, pure_ok] at ho
    obtain ⟨_, _, _, _, rfl⟩ := ho
    rfl

theorem approveRelease_atomic (addressId : Uuid) (h : Outcome.raised (svc.approveRelease db addressId draws) ≠ none) :
    (svc.approveRelease db addressId draws).db = db := by
  refine atomic_of (fun o ho => ?_) h
  simp only [bind_ok, pure_ok] at ho
  obtain ⟨_, _, _, _, _, _, _, _, _, _, rfl⟩ := ho
  rfl

/-- A response shows an allocation unless the allocation has no workload. -/
theorem allocationResponse_raises {l : IpAllocation} {a : IpAddress} {shown : Address} {pool : IpPool} {db : Db} :
    Outcome.raised ⟨db, allocationResponse l a shown pool⟩ ≠ none ↔ l.workloadId = none := by
  unfold Outcome.raised allocationResponse
  cases l.workloadId <;> simp

/-- A release of an allocation whose address and pool are there. -/
theorem release_found {allocationId : Uuid} {reason : String} {l : IpAllocation} {a : IpAddress} {pool : IpPool}
    (hl : db.ipam.allocations.get? allocationId = some l) (ha : db.ipam.addresses.get? l.ipAddressId = some a)
    (hpool : db.ipam.pools.get? a.poolId = some pool) :
    (l.status = .released ∨ l.status = .quarantined → svc.release db allocationId reason draws =
      ⟨db, allocationResponse l a a.address.address pool⟩) ∧
    (¬ (l.status = .released ∨ l.status = .quarantined) → svc.release db allocationId reason draws =
      ⟨svc.audit { db with ipam := quarantine db.ipam l a pool reason draws.now } "IP_RELEASE_TO_QUARANTINE"
          "ip_allocation" l.id,
        allocationResponse (quarantinedAllocation reason draws.now l) (quarantinedAddress pool draws.now a)
          a.address.address pool⟩) := by
  unfold release
  simp only [hl, ha, hpool, orRaise, bind, Except.bind]
  constructor
  · intro hended
    rw [if_pos hended]
    rfl
  · intro hopen
    rw [if_neg hopen]
    rfl

/-- **A release** raises after its commit if and only if it releases a reservation. -/
theorem release_atomic (hc : Consistent db.ipam) (allocationId : Uuid) (reason : String) :
    (Outcome.raised (svc.release db allocationId reason draws) ≠ none →
      (svc.release db allocationId reason draws).db.ipam = db.ipam) ↔
        ¬ ReleasesReservation db.ipam (.release allocationId reason) := by
  cases hl : db.ipam.allocations.get? allocationId with
  | none =>
    have hnot : ¬ ReleasesReservation db.ipam (.release allocationId reason) := by
      rintro ⟨l, h, -⟩
      rw [hl] at h
      cases h
    have hraises : svc.release db allocationId reason draws =
        ⟨db, .error (.app ⟨404, "IP_ALLOCATION_NOT_FOUND", "The IP allocation was not found.", []⟩)⟩ := by
      simp only [release, hl, orRaise, bind, Except.bind, Outcome.of]
    rw [hraises]
    exact ⟨fun _ => hnot, fun _ _ => rfl⟩
  | some l =>
    have hmem := Table.get?_mem hl
    obtain ⟨a, ha, hid⟩ := hc.agreement.located l hmem
    obtain ⟨pool, hpool, hpid, -⟩ := hc.placed.pool a ha
    have hself : db.ipam.allocations.get? l.id = some l := Table.get?_of_mem hmem
    have haddress : db.ipam.addresses.get? l.ipAddressId = some a := Table.get?_eq_some.mpr ⟨ha, hid⟩
    have hpoolRow : db.ipam.pools.get? a.poolId = some pool := Table.get?_eq_some.mpr ⟨hpool, hpid⟩
    obtain ⟨hended, hopen⟩ : _ ∧ _ := @release_found svc draws db allocationId reason l a pool hl haddress hpoolRow
    by_cases hstatus : l.status = .released ∨ l.status = .quarantined
    · have hnot : ¬ ReleasesReservation db.ipam (.release allocationId reason) := by
        rintro ⟨l', h, hreserved, -⟩
        rw [hl] at h
        cases h
        rcases hstatus with hs | hs
        · rw [hs] at hreserved
          cases hreserved
        · rw [hs] at hreserved
          cases hreserved
      rw [hended hstatus]
      exact ⟨fun _ => hnot, fun _ _ => rfl⟩
    · rw [hopen hstatus]
      have hresponse : Outcome.raised ⟨svc.audit { db with ipam := quarantine db.ipam l a pool reason draws.now }
            "IP_RELEASE_TO_QUARANTINE" "ip_allocation" l.id,
          allocationResponse (quarantinedAllocation reason draws.now l) (quarantinedAddress pool draws.now a)
            a.address.address pool⟩ ≠ none ↔ l.workloadId = none := allocationResponse_raises
      rw [hresponse]
      constructor
      · -- the row of the allocation has changed
        rintro hsame ⟨l', h, -, hworkload⟩
        rw [hl] at h
        cases h
        have hrow : (quarantine db.ipam l a pool reason draws.now).allocations.get? l.id =
            some (quarantinedAllocation reason draws.now l) :=
          Table.get?_update_same hself rfl
        have htables : quarantine db.ipam l a pool reason draws.now = db.ipam := hsame hworkload
        rw [htables, hself] at hrow
        have hquarantined : l.status = .quarantined := congrArg IpAllocation.status (Option.some.inj hrow)
        exact hstatus (Or.inr hquarantined)
      · intro hnot hworkload
        cases hs : l.status with
        | reserved => exact absurd ⟨l, hl, hs, hworkload⟩ hnot
        | assigned => exact absurd hworkload (hc.agreement.owned l hmem hs)
        | quarantined => exact absurd (Or.inr hs) hstatus
        | released => exact absurd (Or.inl hs) hstatus

end Calls

/-- **A call that raises leaves the tables as they were**, unless it releases a reservation: there
the commit has been made when the response fails. -/
theorem error_atomic (db : Db) (actions : List IpamAction) (svc : IpamService) (draws : Draws) (c : IpamCall) :
    (raises svc draws (run (fresh db) actions) c ≠ none →
      (perform svc draws (run (fresh db) actions) c).ipam = (run (fresh db) actions).ipam) ↔
        ¬ ReleasesReservation (run (fresh db) actions).ipam c := by
  have hc := consistent_run (consistent_fresh db) actions
  cases c with
  | release allocationId reason => exact release_atomic hc allocationId reason
  | createPool payload => exact ⟨fun _ => id, fun _ h => congrArg Db.ipam (createPool_atomic payload h)⟩
  | updatePool poolId payload => exact ⟨fun _ => id, fun _ h => congrArg Db.ipam (updatePool_atomic poolId payload h)⟩
  | deletePool poolId version => exact ⟨fun _ => id, fun _ h => congrArg Db.ipam (deletePool_atomic poolId version h)⟩
  | reserveAddress poolId address reason =>
    exact ⟨fun _ => id, fun _ h => congrArg Db.ipam (reserveAddress_atomic poolId address reason h)⟩
  | allocate poolId workloadId address =>
    exact ⟨fun _ => id, fun _ h => congrArg Db.ipam (allocate_atomic poolId workloadId address h)⟩
  | reserveForProvisioning poolId requestId address =>
    exact ⟨fun _ => id, fun _ h => congrArg Db.ipam (reserveForProvisioning_atomic poolId requestId address h)⟩
  | confirmProvisioningIp requestId workloadId =>
    exact ⟨fun _ => id, fun _ h => congrArg Db.ipam (confirmProvisioningIp_atomic requestId workloadId h)⟩
  | quarantineProvisioningIp requestId =>
    exact ⟨fun _ => id, fun _ h => congrArg Db.ipam (quarantineProvisioningIp_atomic requestId h)⟩
  | approveRelease addressId =>
    exact ⟨fun _ => id, fun _ h => congrArg Db.ipam (approveRelease_atomic addressId h)⟩

/-- A request that waits for its address. -/
def waitingRequest : ProvisioningRequest where
  id := 90
  requestedById := 1
  idempotencyKeyHash := []
  requestFingerprint := []
  productId := 1
  templateId := 1
  organizationId := 1
  targetClusterId := 1
  targetNodeId := none
  targetVmid := none
  targetName := "vm"
  ipPoolId := 7
  requestedIpAddress := none
  ipAddressId := none
  workloadId := none
  status := .running
  currentStep := .step .reserveIp
  specSnapshot := []
  initialPasswordCiphertext := none
  initialPasswordNonce := none
  initialPasswordKeyVersion := none
  initialPasswordClearedAt := none
  celeryTaskId := "task"
  cloneSubmitted := false
  errorCode := none
  errorSummary := none
  startedAt := none
  finishedAt := none
  heartbeatAt := none
  runnerId := none
  leaseExpiresAt := none
  version := 1

/-- A pool, and its first address reserved for that request. -/
def reservedRun : List IpamAction :=
  [.call root firstDraws (.createPool linkLocal),
    .call root ⟨0, 0, fun n => n + 30, fun _ => 0⟩ (.reserveForProvisioning 7 90 none)]

/-- The release of that reservation raises, and the reservation is in quarantine. -/
theorem release_of_reservation :
    ¬ (raises root firstDraws (run (fresh { Db.empty with requests := .single waitingRequest }) reservedRun)
        (.release 31 "unused") ≠ none →
      (perform root firstDraws (run (fresh { Db.empty with requests := .single waitingRequest }) reservedRun)
        (.release 31 "unused")).ipam =
          (run (fresh { Db.empty with requests := .single waitingRequest }) reservedRun).ipam) := by
  intro h
  have hraises : raises root firstDraws
      (run (fresh { Db.empty with requests := .single waitingRequest }) reservedRun) (.release 31 "unused") =
        some .assertion := by
    decide +kernel
  have hsame := congrArg (fun t => (t.allocations.get? 31).map IpAllocation.status) (h (by rw [hraises]; nofun))
  revert hsame
  decide +kernel

end PveMaster.Ipam
