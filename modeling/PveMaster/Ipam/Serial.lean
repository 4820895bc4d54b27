import PveMaster.Foundation.Serial
import PveMaster.Foundation.Waiting
import PveMaster.Ipam.Atomicity
import PveMaster.Ipam.Moves
import PveMaster.Ipam.Quarantine
import PveMaster.Ipam.Transactions

/-! The calls on addresses as one step each.

A call whose statements nobody comes between leaves the database as the call of `IpamService`
does, and returns or raises the same. This is shown statement by statement (`Same`): a lock is got
at once and finds the row as it was read, a draw gets the numbers of the call, and a commit
applies the assignments that the session has collected to rows that are still as they were loaded.
So the calls of the service, which are written as one step, are what the statements come to where
calls follow one another (`serial_run`). -/
namespace PveMaster.Addresses
open Prog IpamProg IpamService

/-- What a program leaves and returns when nobody else takes a step, all its draws being those of
one call. -/
def alone {α : Type} (draws : Draws) : IpamProg α → Db → Db × Except Exn α
  | .done r, db => (db, r)
  | .node o f, db =>
    match o with
    | .draw k => alone draws (f (k draws)) db
    | .read q => alone draws (f (q db)) db
    | .lock _ _ q => alone draws (f (q db)) db
    | .skipLocked poolId k => alone draws (f (k (leastAvailable db.ipam poolId))) db
    | .commit w k =>
      match w.apply db with
      | .ok db' => alone draws (f (k (.ok ()))) db'
      | .error e => alone draws (f (k (.error e))) db

/-- A program does by itself what an atomic call does: it leaves the same database, and returns or
raises the same. -/
def Same {α : Type} (draws : Draws) (db : Db) (p : IpamProg α) (x : Except Exn (Outcome α)) : Prop :=
  alone draws p db = ((Outcome.of db x).db, (Outcome.of db x).result)

section Same
variable {α β : Type} {draws : Draws} {db : Db}

/-- A test comes to the same as the test of the service. -/
theorem same_ofExcept {r : Except Exn β} {f : β → IpamProg α} {g : β → Except Exn (Outcome α)}
    (h : ∀ b, r = .ok b → Same draws db (f b) (g b)) : Same draws db (ofExcept r >>= f) (r >>= g) := by
  cases r with
  | ok b => exact h b rfl
  | error e => rfl

theorem same_draw {f : Draws → IpamProg α} {x : Except Exn (Outcome α)} (h : Same draws db (f draws) x) :
    Same draws db (draw >>= f) x := h

theorem same_read {q : Db → β} {f : β → IpamProg α} {x : Except Exn (Outcome α)} (h : Same draws db (f (q db)) x) :
    Same draws db (read q >>= f) x := h

/-- Nobody else holds a row, so a lock is a read. -/
theorem same_lock {row : IpamRow} {wanted : Db → Bool} {q : Db → β} {f : β → IpamProg α}
    {x : Except Exn (Outcome α)} (h : Same draws db (f (q db)) x) : Same draws db (lock row wanted q >>= f) x := h

/-- Nobody holds a row, so none is skipped. -/
theorem same_skipLocked {poolId : Uuid} {k : Option IpAddress → IpamProg β} {f : β → IpamProg α}
    {x : Except Exn (Outcome α)} (h : Same draws db (k (leastAvailable db.ipam poolId) >>= f) x) :
    Same draws db ((op (.skipLocked poolId id) >>= k) >>= f) x := h

theorem same_lockedPool {poolId : Uuid} {f : IpPool → IpamProg α} {g : IpPool → Except Exn (Outcome α)}
    (h : ∀ pool, db.ipam.pools.get? pool.id = some pool → Same draws db (f pool) (g pool)) :
    Same draws db (lockedPool poolId >>= f) (IpamService.lockedPool db.ipam poolId >>= g) := by
  refine same_ofExcept (r := IpamService.lockedPool db.ipam poolId) fun pool hpool => ?_
  simp only [IpamService.lockedPool, bind_ok, orRaise_ok, raiseIf_ok, pure_ok] at hpool
  obtain ⟨stored, hstored, -, -, rfl⟩ := hpool
  have hid : stored.id = poolId := Table.get?_key hstored
  subst hid
  exact h stored hstored

/-- A query that more of the same program depends on. -/
theorem same_found {γ : Type} {q : Db → β} {k : β → IpamProg γ} {f : γ → IpamProg α} {x : Except Exn (Outcome α)}
    (h : Same draws db (k (q db) >>= f) x) : Same draws db ((read q >>= k) >>= f) x := h

theorem same_lockedAddress {poolId : Uuid} {address : Inet} {f : Option IpAddress → IpamProg α}
    {x : Except Exn (Outcome α)} (h : Same draws db (f (addressRow db.ipam poolId address)) x) :
    Same draws db (lockedAddress poolId address >>= f) x := by
  cases hrow : addressRow db.ipam poolId address with
  | none =>
    rw [hrow] at h
    refine same_found ?_
    rw [hrow]
    exact h
  | some a =>
    have hkept : ((db.ipam.addresses.get? a.id).filter fun a => a.poolId == poolId && a.address == address) = some a := by
      obtain ⟨hmem, hwanted⟩ := Table.first_some hrow
      exact Option.filter_eq_some_iff.mpr ⟨Table.get?_of_mem hmem, hwanted⟩
    rw [hrow, ← hkept] at h
    refine same_found ?_
    rw [hrow]
    exact h

theorem same_lockedAllocation {p : IpAllocation → Bool} {f : Option IpAllocation → IpamProg α}
    {x : Except Exn (Outcome α)} (h : Same draws db (f (db.ipam.allocations.first p)) x) :
    Same draws db (lockedAllocation p >>= f) x := by
  cases hrow : db.ipam.allocations.first p with
  | none =>
    rw [hrow] at h
    refine same_found ?_
    rw [hrow]
    exact h
  | some l =>
    have hkept : (db.ipam.allocations.get? l.id).filter p = some l := by
      obtain ⟨hmem, hwanted⟩ := Table.first_some hrow
      exact Option.filter_eq_some_iff.mpr ⟨Table.get?_of_mem hmem, hwanted⟩
    rw [hrow, ← hkept] at h
    refine same_found ?_
    rw [hrow]
    exact h

/-- A commit, and the answer after it. -/
theorem same_commit {w : IpamWrite} {db' : Db} {r : Except Exn α} (h : w.apply db = .ok db') :
    Same draws db (commit w >>= fun _ => ofExcept r) (.ok ⟨db', r⟩) := by
  show alone draws (.node (.commit w id) _) db = _
  rw [alone, h]
  rfl

theorem same_last {w : IpamWrite} {db' : Db} (h : w.apply db = .ok db') :
    Same draws db (commit w) (.ok ⟨db', .ok ()⟩) := by
  show alone draws (.node (.commit w id) _) db = _
  rw [alone, h]
  rfl

/-- A commit that the database refuses ends the call. -/
theorem same_refused {w : IpamWrite} {e : Exn} {f : Unit → IpamProg α} (h : w.apply db = .error e) :
    Same draws db (commit w >>= f) (.error e) := by
  show alone draws (.node (.commit w id) _) db = _
  rw [alone, h]
  rfl

theorem same_refusedLast {w : IpamWrite} {e : Exn} (h : w.apply db = .error e) : Same draws db (commit w) (.error e) := by
  show alone draws (.node (.commit w id) _) db = _
  rw [alone, h]
  rfl

/-- A commit whose `IntegrityError` is answered otherwise. -/
theorem same_commitOr {error : AppError} {w : IpamWrite} {x : Except Exn β} {db' : β → Db} {r : Except Exn α}
    (h : w.apply db = x.map db') :
    Same draws db (commitOr error w >>= fun _ => ofExcept r) (onIntegrity error x >>= fun b => .ok ⟨db' b, r⟩) := by
  show alone draws (.node (.commit w id) _) db = _
  rw [alone, h]
  cases x with
  | ok b => rfl
  | error e => cases e <;> rfl

/-- The same with an answer that is read after the commit. -/
theorem same_commitOrRead {error : AppError} {w : IpamWrite} {x : Except Exn β} {db' : β → Db} {q : Db → α}
    (h : w.apply db = x.map db') :
    Same draws db (commitOr error w >>= fun _ => read q)
      (onIntegrity error x >>= fun b => .ok ⟨db' b, .ok (q (db' b))⟩) := by
  show alone draws (.node (.commit w id) _) db = _
  rw [alone, h]
  cases x with
  | ok b => rfl
  | error e => cases e <;> rfl

end Same

/-! ### Rows that are written back -/

/-- A row that is still as it was loaded becomes what the session has made of it. -/
theorem update_address {t : IpamTables} {a : IpAddress} {f : IpAddress → IpAddress}
    (hrow : t.addresses.get? a.id = some a) (hmerge : mergeAddress a (f a) a = f a) :
    updateAddress t a.id (mergeAddress a (f a)) = updateAddress t a.id f := by
  unfold updateAddress
  rw [Table.update_congr fun r hr => ?_]
  rw [hrow] at hr
  cases hr
  exact hmerge

/-- The same of an allocation. -/
theorem update_allocation {t : IpamTables} {l : IpAllocation} {f : IpAllocation → IpAllocation}
    (hrow : t.allocations.get? l.id = some l) (hmerge : mergeAllocation l (f l) l = f l) :
    updateAllocation t l.id (mergeAllocation l (f l)) = updateAllocation t l.id f := by
  unfold updateAllocation
  rw [Table.update_congr fun r hr => ?_]
  rw [hrow] at hr
  cases hr
  exact hmerge

section Merge
variable (a : IpAddress) (l : IpAllocation)

theorem merge_disabled (reason : String) : mergeAddress a (disabled reason a) a = disabled reason a := by
  simp [mergeAddress, disabled]

theorem merge_assigned (now : Instant) : mergeAddress a (assigned now a) a = assigned now a := by
  simp [mergeAddress, assigned]

theorem merge_reserved (now : Instant) : mergeAddress a (reserved now a) a = reserved now a := by
  simp [mergeAddress, reserved]

theorem merge_confirmedAddress : mergeAddress a (confirmedAddress a) a = confirmedAddress a := by
  simp [mergeAddress, confirmedAddress]

theorem merge_quarantinedAddress (pool : IpPool) (now : Instant) :
    mergeAddress a (quarantinedAddress pool now a) a = quarantinedAddress pool now a := by
  simp [mergeAddress, quarantinedAddress]

theorem merge_freedAddress : mergeAddress a (freedAddress a) a = freedAddress a := by
  simp [mergeAddress, freedAddress]

theorem merge_confirmed (workloadId : Uuid) (now : Instant) :
    mergeAllocation l (confirmed workloadId now l) l = confirmed workloadId now l := by
  simp [mergeAllocation, confirmed]

theorem merge_quarantinedAllocation (reason : String) (now : Instant) :
    mergeAllocation l (quarantinedAllocation reason now l) l = quarantinedAllocation reason now l := by
  simp [mergeAllocation, quarantinedAllocation]

theorem merge_releasedAllocation : mergeAllocation l (releasedAllocation l) l = releasedAllocation l := by
  simp [mergeAllocation, releasedAllocation]

end Merge

section Calls
variable (svc : IpamService) (draws : Draws) (db : Db)

/-- `reserve_address`. -/
theorem reserveAddress_alone (poolId : Uuid) (address : Address) (reason : String) :
    alone draws (reserveAddress svc poolId address reason) db =
      ((svc.reserveAddress db poolId address reason draws).db, (svc.reserveAddress db poolId address reason draws).result) := by
  refine same_lockedPool fun pool _ => same_ofExcept fun candidate _ => same_lockedAddress ?_
  cases hrow : addressRow db.ipam pool.id candidate.inet with
  | some existing =>
    refine same_ofExcept fun _ _ => same_commit (r := .ok _) ?_
    have hget : db.ipam.addresses.get? existing.id = some existing := Table.get?_of_mem (Table.first_some hrow).1
    rw [← update_address hget (merge_disabled existing reason)]
    rfl
  | none =>
    refine same_draw ?_
    dsimp only
    cases hinsert : insertAddress db.ipam (disabled reason (availableAddress (draws.uuid 0) pool.id candidate.inet)) with
    | error e =>
      refine same_refused ?_
      simp only [IpamWrite.apply, Edits.apply, hinsert, Bind.bind, Except.bind]
    | ok t =>
      refine same_commit (r := .ok _) ?_
      simp only [IpamWrite.apply, Edits.apply, hinsert, Bind.bind, Except.bind]
      rfl

theorem same_workload {α : Type} {draws : Draws} {db : Db} {workloadId : Uuid} {f : Workload → IpamProg α}
    {g : Workload → Except Exn (Outcome α)} (h : ∀ w, Same draws db (f w) (g w)) :
    Same draws db (lockedWorkload workloadId >>= f)
      (orRaise (db.workloads.first (fun w => w.id == workloadId && w.isPresent))
        (.app ⟨404, "WORKLOAD_NOT_FOUND", "The workload was not found.", []⟩) >>= g) :=
  same_ofExcept (r := orRaise (db.workloads.first fun w => w.id == workloadId && w.isPresent) _) fun w _ => h w

/-- The address of an allocation. -/
theorem same_addressOf {α : Type} {draws : Draws} {db : Db} {l : IpAllocation} {f : IpAddress → IpamProg α}
    {g : IpAddress → Except Exn (Outcome α)}
    (h : ∀ a, db.ipam.addresses.get? a.id = some a → Same draws db (f a) (g a)) :
    Same draws db (addressOf l >>= f) (orRaise (db.ipam.addresses.get? l.ipAddressId) .assertion >>= g) := by
  refine same_ofExcept (r := orRaise (db.ipam.addresses.get? l.ipAddressId) .assertion) fun a ha => ?_
  have ha := orRaise_ok.mp ha
  have hid : a.id = l.ipAddressId := Table.get?_key ha
  exact h a (hid ▸ ha)

/-- The allocation of a request that has one status. -/
theorem requestAllocation_single (t : IpamTables) (requestId : Uuid) (status : IpAllocationStatus) :
    requestAllocation t requestId [status] = t.allocations.first (ofRequest requestId status) := by
  unfold requestAllocation ofRequest
  congr 1
  funext l
  rw [List.contains_cons, List.contains_nil, Bool.or_false]

/-- The event of a commit, if there is one. -/
def recorded (entry : Option AuditEntry) (db : Db) : Db :=
  match entry with
  | some e => svc.audit db e.action e.targetType e.targetId e.workloadId
  | none => db

/-- The commit of an allocation and its address, with the workload it had or one that is there. -/
theorem apply_both {a : IpAddress} {l : IpAllocation} {f : IpAddress → IpAddress} {g : IpAllocation → IpAllocation}
    (ha : db.ipam.addresses.get? a.id = some a) (hl : db.ipam.allocations.get? l.id = some l)
    (hf : mergeAddress a (f a) a = f a) (hg : mergeAllocation l (g l) l = g l)
    (hworkload : (g l).workloadId ≠ l.workloadId → ∀ w ∈ (g l).workloadId, (db.workloads.get? w).isSome)
    (entry : Option AuditEntry) :
    (IpamWrite.edits svc { address := some (a, f a), allocation := some (l, g l), audit := entry }).apply db =
      .ok (recorded svc entry { db with ipam := updateAddress (updateAllocation db.ipam l.id g) a.id f }) := by
  have hchecked : raiseIf ((g l).workloadId ≠ l.workloadId ∧ ∃ w ∈ (g l).workloadId, db.workloads.get? w = none)
      .integrity = .ok () := by
    refine raiseIf_ok.mpr fun ⟨hne, w, hw, hnone⟩ => ?_
    have hsome := hworkload hne w hw
    rw [hnone] at hsome
    cases hsome
  have hmerged : updateAddress (updateAllocation db.ipam l.id g) a.id f =
      updateAllocation (updateAddress db.ipam a.id (mergeAddress a (f a))) l.id (mergeAllocation l (g l)) := by
    rw [update_address ha hf, update_allocation (t := updateAddress db.ipam a.id f) hl hg]
    rfl
  rw [hmerged]
  simp only [IpamWrite.apply, Edits.apply, Bind.bind, Except.bind, hchecked]
  rfl

/-- The same with another workload, which is missing. -/
theorem apply_missing {a : IpAddress} {l : IpAllocation} {f : IpAddress → IpAddress} {g : IpAllocation → IpAllocation}
    {w : Uuid} (hw : w ∈ (g l).workloadId) (hne : (g l).workloadId ≠ l.workloadId) (hmissing : db.workloads.get? w = none)
    (entry : Option AuditEntry) :
    (IpamWrite.edits svc { address := some (a, f a), allocation := some (l, g l), audit := entry }).apply db =
      .error .integrity := by
  have hchecked : raiseIf ((g l).workloadId ≠ l.workloadId ∧ ∃ w ∈ (g l).workloadId, db.workloads.get? w = none)
      .integrity = .error .integrity := if_pos ⟨hne, w, hw, hmissing⟩
  simp only [IpamWrite.apply, Edits.apply, Bind.bind, Except.bind, hchecked]

/-- `confirm_provisioning_ip`. An allocation that names a workload names one that is there, as the
foreign key has it. -/
theorem confirmProvisioningIp_alone (requestId workloadId : Uuid)
    (hreferenced : ∀ l ∈ db.ipam.allocations, ∀ w ∈ l.workloadId, (db.workloads.get? w).isSome) :
    alone draws (confirmProvisioningIp svc requestId workloadId) db =
      ((IpamService.confirmProvisioningIp db requestId workloadId draws).db,
        (IpamService.confirmProvisioningIp db requestId workloadId draws).result) := by
  unfold IpamService.confirmProvisioningIp
  rw [requestAllocation_single, requestAllocation_single]
  refine same_lockedAllocation ?_
  cases hrow : db.ipam.allocations.first (ofRequest requestId .reserved) with
  | none =>
    refine same_read ?_
    cases db.ipam.allocations.first (ofRequest requestId .assigned) with
    | none => rfl
    | some l => rfl
  | some allocation =>
    refine same_addressOf fun address haddress => same_draw (same_lock ?_)
    have hmem := (Table.first_some hrow).1
    by_cases hworkload : db.workloads.get? workloadId = none
    · -- the workload is missing, and it is not the one the allocation had
      have hne : some workloadId ≠ allocation.workloadId := by
        intro heq
        have hsome := hreferenced allocation hmem workloadId heq.symm
        rw [hworkload] at hsome
        cases hsome
      have hrefused : (raiseIf (db.workloads.get? workloadId = none) Exn.integrity) = .error .integrity := if_pos hworkload
      rw [hrefused]
      exact same_refusedLast (apply_missing svc db (g := confirmed workloadId draws.now) rfl hne hworkload none)
    · have hpassed : (raiseIf (db.workloads.get? workloadId = none) Exn.integrity) = .ok () := if_neg hworkload
      rw [hpassed]
      refine same_last (apply_both svc db haddress (Table.get?_of_mem hmem) (merge_confirmedAddress address)
        (merge_confirmed allocation workloadId draws.now) (fun _ w hw => ?_) none)
      cases hw
      exact Option.isSome_iff_ne_none.mpr hworkload

/-- The pool of an address is asserted to be there. -/
theorem same_poolOf {α : Type} {draws : Draws} {db : Db} {a : IpAddress} {f : IpPool → IpamProg α}
    {g : IpPool → Except Exn (Outcome α)} (h : ∀ pool, Same draws db (f pool) (g pool)) :
    Same draws db (poolOf a >>= f) (orRaise (db.ipam.pools.get? a.poolId) .assertion >>= g) :=
  same_ofExcept (r := orRaise (db.ipam.pools.get? a.poolId) .assertion) fun pool _ => h pool

theorem same_discardPool {α : Type} {draws : Draws} {db : Db} {a : IpAddress} {f : Unit → IpamProg α}
    {g : IpPool → Except Exn (Outcome α)} (h : ∀ pool, Same draws db (f ()) (g pool)) :
    Same draws db (discard (poolOf a) >>= f) (orRaise (db.ipam.pools.get? a.poolId) .assertion >>= g) := by
  show alone draws (discard (ofExcept (orRaise (db.ipam.pools.get? a.poolId) .assertion)) >>= f) db = _
  cases db.ipam.pools.get? a.poolId with
  | none => rfl
  | some pool => exact h pool

/-- `quarantine_provisioning_ip`. -/
theorem quarantineProvisioningIp_alone (requestId : Uuid) :
    alone draws (quarantineProvisioningIp svc requestId) db =
      ((IpamService.quarantineProvisioningIp db requestId draws).db,
        (IpamService.quarantineProvisioningIp db requestId draws).result) := by
  unfold IpamService.quarantineProvisioningIp
  rw [requestAllocation_single]
  refine same_lockedAllocation ?_
  cases hrow : db.ipam.allocations.first (ofRequest requestId .reserved) with
  | none => rfl
  | some allocation =>
    refine same_addressOf fun address haddress => same_poolOf fun pool => same_draw (same_lock ?_)
    exact same_last (apply_both svc db haddress (Table.get?_of_mem (Table.first_some hrow).1)
      (merge_quarantinedAddress address pool draws.now) (merge_quarantinedAllocation allocation _ draws.now)
      (fun hne => absurd rfl hne) none)

/-- `release`. -/
theorem release_alone (allocationId : Uuid) (reason : String) :
    alone draws (release svc allocationId reason) db =
      ((svc.release db allocationId reason draws).db, (svc.release db allocationId reason draws).result) := by
  refine same_lock (same_ofExcept fun allocation hallocation => same_lock (same_ofExcept fun address haddress => ?_))
  refine same_poolOf fun pool => ?_
  by_cases hover : allocation.status = .released ∨ allocation.status = .quarantined
  · rw [if_pos hover, if_pos hover]
    rfl
  · rw [if_neg hover, if_neg hover]
    have hl : db.ipam.allocations.get? allocation.id = some allocation := by
      have hget := orRaise_ok.mp hallocation
      have hid : allocation.id = allocationId := Table.get?_key hget
      exact hid ▸ hget
    have ha : db.ipam.addresses.get? address.id = some address := by
      have hget := orRaise_ok.mp haddress
      have hid : address.id = allocation.ipAddressId := Table.get?_key hget
      exact hid ▸ hget
    exact same_draw (same_commit (apply_both svc db ha hl (merge_quarantinedAddress address pool draws.now)
      (merge_quarantinedAllocation allocation reason draws.now) (fun hne => absurd rfl hne) _))

/-- `approve_release`. -/
theorem approveRelease_alone (addressId : Uuid) :
    alone draws (approveRelease svc addressId) db =
      ((svc.approveRelease db addressId draws).db, (svc.approveRelease db addressId draws).result) := by
  refine same_lock (same_ofExcept fun address haddress => same_ofExcept fun _ _ => same_draw (same_ofExcept fun _ _ => ?_))
  refine same_lockedAllocation (same_ofExcept fun allocation hallocation => same_discardPool fun _ => ?_)
  have ha : db.ipam.addresses.get? address.id = some address := by
    have hget := orRaise_ok.mp haddress
    have hid : address.id = addressId := Table.get?_key hget
    exact hid ▸ hget
  have hl := Table.get?_of_mem (Table.first_some (orRaise_ok.mp hallocation)).1
  exact same_commit (r := .ok _) (apply_both svc db ha hl (merge_freedAddress address) (merge_releasedAllocation allocation)
    (fun hne => absurd rfl hne) _)

/-! ### Taking an address -/

/-- The tables with an address that has been chosen, as they are flushed: the offset of the pool
has moved, and a new address has its row. -/
def Choice.staged (c : Choice) (pool : IpPool) (t : IpamTables) : Except Exn IpamTables :=
  let t := { t with pools := t.pools.update pool.id (mergeOffset pool c.pool) }
  if c.fresh then insertAddress t c.address else .ok t

/-- Inserting an address looks at no pool. -/
theorem insertAddress_pools (t : IpamTables) (pools : Table IpPool) (a : IpAddress) :
    insertAddress { t with pools := pools } a = (insertAddress t a).map fun t => { t with pools := pools } := by
  unfold insertAddress
  cases orRaise (t.addresses.insert a) .integrity with
  | error e => rfl
  | ok addresses =>
    simp only [Bind.bind, Except.bind]
    cases raiseIf (¬ AddressesUnique addresses) .integrity <;> rfl

theorem insertAddress_row {t t' : IpamTables} {a : IpAddress} (h : insertAddress t a = .ok t') :
    t.addresses.get? a.id = none ∧ t'.addresses.get? a.id = some a := by
  simp only [insertAddress, bind_ok, orRaise_ok, raiseIf_ok, pure_ok] at h
  obtain ⟨addresses, hinsert, -, -, rfl⟩ := h
  exact ⟨Table.get?_eq_none.mpr fun r hr => (Table.insert_some hinsert).2 r hr, Table.get?_insert_same hinsert⟩

theorem update_pool {pools : Table IpPool} {pool moved : IpPool} (hpool : pools.get? pool.id = some pool) {f : IpPool → IpPool}
    (hf : mergeOffset pool moved pool = f pool) : pools.update pool.id (mergeOffset pool moved) = pools.update pool.id f := by
  refine Table.update_congr fun r hr => ?_
  rw [hpool] at hr
  cases hr
  exact hf

theorem update_samePool {pools : Table IpPool} {pool : IpPool} (hpool : pools.get? pool.id = some pool) :
    pools.update pool.id (mergeOffset pool pool) = pools :=
  Table.update_self hpool (by simp [mergeOffset])

section Candidate
variable {α : Type} {draws : Draws} {db : Db} {pool : IpPool} {f : Choice → IpamProg α}
  {g : IpamTables × IpAddress → Except Exn (Outcome α)}

/-- What comes after a choice, whichever it is. -/
abbrev Follows (draws : Draws) (db : Db) (pool : IpPool) (f : Choice → IpamProg α)
    (g : IpamTables × IpAddress → Except Exn (Outcome α)) : Prop :=
  ∀ c t, c.staged pool db.ipam = .ok t → t.addresses.get? c.address.id = some c.address →
    c.fresh = decide (db.ipam.addresses.get? c.address.id = none) → Same draws db (f c) (g (t, c.address))

/-- A row that was found is taken as it is. -/
theorem same_stored (hpool : db.ipam.pools.get? pool.id = some pool) (h : Follows draws db pool f g) {a : IpAddress}
    (ha : a ∈ db.ipam.addresses) : Same draws db (f ⟨pool, a, false⟩) (g (db.ipam, a)) := by
  have hget : db.ipam.addresses.get? a.id = some a := Table.get?_of_mem ha
  refine h ⟨pool, a, false⟩ db.ipam ?_ hget (by simp [hget])
  simp only [Choice.staged, update_samePool hpool]
  rfl

/-- A row that is made first is flushed before it is taken, together with the offset its pool goes
on from. -/
theorem same_flushed (h : Follows draws db pool f g) (moved : IpPool) (a : IpAddress) :
    Same draws db (flushed moved a >>= f)
      (insertAddress { db.ipam with pools := db.ipam.pools.update pool.id (mergeOffset pool moved) } a >>=
        fun t => g (t, a)) := by
  rw [insertAddress_pools]
  show alone draws ((discard (ofExcept (insertAddress db.ipam a)) >>= fun _ => pure ⟨moved, a, true⟩) >>= f) db = _
  cases hinsert : insertAddress db.ipam a with
  | error e => rfl
  | ok t =>
    obtain ⟨hnone, hget⟩ := insertAddress_row hinsert
    refine h ⟨moved, a, true⟩ { t with pools := _ } ?_ hget (by simp [hnone])
    simp only [Choice.staged, if_true]
    rw [insertAddress_pools, hinsert]
    rfl

/-- `_automatic_candidate`. -/
theorem same_automatic (hpool : db.ipam.pools.get? pool.id = some pool) (h : Follows draws db pool f g) :
    Same draws db (automaticCandidate pool >>= f) (IpamService.automaticCandidate db.ipam pool draws >>= g) := by
  unfold automaticCandidate IpamService.automaticCandidate
  refine same_skipLocked ?_
  cases hleast : leastAvailable db.ipam pool.id with
  | some a => exact same_stored hpool h (Ipam.leastAvailable_some hleast).1
  | none =>
    dsimp only
    rw [bind_assoc, bind_assoc]
    refine same_draw ?_
    rw [bind_assoc]
    refine same_read ?_
    rw [bind_assoc]
    refine same_ofExcept fun offset _ => ?_
    rw [bind_assoc, bind_assoc]
    refine same_ofExcept fun candidate _ => ?_
    have hmoved : db.ipam.pools.update pool.id (mergeOffset pool (movedOffset ((offset + 1) % pool.cidr.numAddresses) pool)) =
        db.ipam.pools.update pool.id (movedOffset ((offset + 1) % pool.cidr.numAddresses)) :=
      update_pool hpool (by simp [mergeOffset, movedOffset])
    rw [← hmoved]
    rw [bind_assoc]
    exact same_flushed h _ _

/-- `_candidate_address`, with an address that is asked for or without. -/
theorem same_candidate (requested : Option Address) (hpool : db.ipam.pools.get? pool.id = some pool)
    (h : Follows draws db pool f g) :
    Same draws db (candidateAddress pool requested >>= f) (IpamService.candidateAddress db.ipam pool requested draws >>= g) := by
  cases requested with
  | none => exact same_automatic hpool h
  | some requested =>
    unfold candidateAddress IpamService.candidateAddress
    dsimp only
    rw [bind_assoc, bind_assoc]
    refine same_ofExcept fun candidate _ => ?_
    rw [bind_assoc, bind_assoc]
    refine same_read ?_
    rw [bind_assoc]
    refine same_ofExcept fun _ _ => ?_
    rw [bind_assoc]
    refine same_lockedAddress ?_
    cases hrow : addressRow db.ipam pool.id candidate.inet with
    | some a => exact same_stored hpool h (Table.first_some hrow).1
    | none =>
      dsimp only
      rw [bind_assoc, bind_assoc]
      refine same_draw ?_
      have hflushed := same_flushed h pool (availableAddress (draws.uuid 0) pool.id candidate.inet)
      rw [update_samePool hpool] at hflushed
      exact hflushed

end Candidate

/-- The commit of an address that is taken. -/
theorem apply_taken {c : Choice} {pool : IpPool} {t : IpamTables} (hstaged : c.staged pool db.ipam = .ok t)
    (hget : t.addresses.get? c.address.id = some c.address) {f : IpAddress → IpAddress}
    (hf : mergeAddress c.address (f c.address) c.address = f c.address) (l : IpAllocation) (entry : Option AuditEntry) :
    (IpamWrite.edits svc
      { pool := some (pool, c.pool)
        added := if c.fresh then some c.address else none
        address := some (c.address, f c.address)
        allocated := some l
        audit := entry }).apply db =
      (insertAllocation db (updateAddress t c.address.id f) l).map fun t => recorded svc entry { db with ipam := t } := by
  rw [← update_address hget hf]
  simp only [Choice.staged] at hstaged
  cases hfresh : c.fresh with
  | true =>
    rw [hfresh, if_pos rfl] at hstaged
    simp only [IpamWrite.apply, Edits.apply, if_true, hstaged, Bind.bind, Except.bind]
    cases insertAllocation db (updateAddress t c.address.id (mergeAddress c.address (f c.address))) l <;> rfl
  | false =>
    rw [hfresh, if_neg Bool.false_ne_true] at hstaged
    rw [← Except.ok.inj hstaged]
    simp only [IpamWrite.apply, Edits.apply, Bool.false_eq_true, if_false, Bind.bind, Except.bind]
    cases insertAllocation db (updateAddress { db.ipam with pools := db.ipam.pools.update pool.id (mergeOffset pool c.pool) }
      c.address.id (mergeAddress c.address (f c.address))) l <;> rfl

/-- `allocate`. -/
theorem allocate_alone (poolId workloadId : Uuid) (requested : Option Address) :
    alone draws (allocate svc poolId workloadId requested) db =
      ((svc.allocate db poolId workloadId requested draws).db, (svc.allocate db poolId workloadId requested draws).result) := by
  refine same_lockedPool fun pool hpool => same_workload fun workload => same_ofExcept fun _ _ => ?_
  refine same_candidate requested hpool fun c t hstaged hget hfresh => same_ofExcept fun _ _ => same_draw ?_
  dsimp only
  rw [← hfresh]
  exact same_commitOr (apply_taken svc db hstaged hget (merge_assigned c.address draws.now) _ _)

/-- `reserve_for_provisioning`. -/
theorem reserveForProvisioning_alone (poolId requestId : Uuid) (requested : Option Address) :
    alone draws (reserveForProvisioning svc poolId requestId requested) db =
      ((svc.reserveForProvisioning db poolId requestId requested draws).db,
        (svc.reserveForProvisioning db poolId requestId requested draws).result) := by
  refine same_lockedPool fun pool hpool => same_read ?_
  cases requestAllocation db.ipam requestId [.reserved, .assigned] with
  | some existing => exact same_addressOf fun address _ => rfl
  | none =>
    refine same_candidate requested hpool fun c t hstaged hget _ => same_ofExcept fun _ _ => same_draw ?_
    exact same_commitOr (r := .ok _) (apply_taken svc db hstaged hget (merge_reserved c.address draws.now) _ none)

/-- The commit of a new pool. -/
theorem apply_create (pool : IpPool) (exclusions : List IpPoolExclusion) :
    (IpamWrite.create svc pool exclusions).apply db = (insertPool db.ipam pool exclusions).map fun t =>
      svc.audit { db with ipam := t } "IP_POOL_CREATE" "ip_pool" pool.id := by
  simp only [IpamWrite.apply]
  cases insertPool db.ipam pool exclusions <;> rfl

/-- `create_pool`. -/
theorem createPool_alone (payload : IpPoolCreate) : alone draws (createPool svc payload) db =
    ((svc.createPool db payload draws).db, (svc.createPool db payload draws).result) := by
  refine same_ofExcept fun network _ => same_ofExcept fun _ _ => same_read (same_ofExcept fun _ _ => ?_)
  refine same_ofExcept fun _ _ => same_ofExcept fun _ _ => same_read (same_ofExcept fun _ _ => same_draw ?_)
  exact same_commitOrRead (apply_create svc db _ _)

/-! ### Requests -/

/-- The programs of the pools, within those of the addresses. -/
theorem ofPool_alone {α : Type} (p : Pools.PoolProg α) : alone draws (p.rename ofPoolStatement) db = Pools.alone p db := by
  induction p generalizing db with
  | done r => rfl
  | node o f ih =>
    cases o with
    | read q => exact ih (q () db) db
    | lock row wanted q => exact ih (q db) db
    | call x k | answer x k => exact ih (k ()) db
    | commit w k =>
      simp only [Prog.rename, ofPoolStatement, alone, Pools.alone, IpamWrite.apply]
      cases w.apply db with
      | ok db' => exact ih (k (.ok ())) db'
      | error e => exact ih (k (.error e)) db

theorem alone_andThen {α β : Type} (p : IpamProg α) (f : Except Exn α → IpamProg β) :
    alone draws (p.andThen f) db = alone draws (f (alone draws p db).2) (alone draws p db).1 := by
  induction p generalizing db with
  | done r => rfl
  | node o k ih =>
    cases o with
    | draw q | read q | lock row wanted q | skipLocked poolId q => exact ih _ db
    | commit w q =>
      simp only [Prog.andThen, alone]
      cases w.apply db with
      | ok db' => exact ih _ db'
      | error e => exact ih _ db

end Calls

/-- What a call leaves, without its answer. -/
def silent {α : Type} (o : Outcome α) : Outcome Unit := ⟨o.db, o.result.map fun _ => ()⟩

theorem discard_alone {α : Type} {draws : Draws} {db : Db} {p : IpamProg α} {o : Outcome α}
    (h : alone draws p db = (o.db, o.result)) : alone draws (discard p) db = ((silent o).db, (silent o).result) := by
  show alone draws (p.andThen _) db = _
  rw [alone_andThen, h]
  cases hresult : o.result <;> simp only [silent, hresult] <;> rfl

/-- The call of the service a request stands for, its answer left out. -/
def IpamMessage.outcome (m : IpamMessage) (draws : Draws) (db : Db) : Outcome Unit :=
  match m.request with
  | .createPool payload => silent (m.svc.createPool db payload draws)
  | .pool (.update poolId payload) => silent (m.svc.updatePool db poolId payload)
  | .pool (.delete poolId version) => silent (m.svc.deletePool db poolId version)
  | .reserveAddress poolId address reason => silent (m.svc.reserveAddress db poolId address reason draws)
  | .allocate poolId workloadId requestedAddress => silent (m.svc.allocate db poolId workloadId requestedAddress draws)
  | .reserveForProvisioning poolId requestId requestedAddress =>
    silent (m.svc.reserveForProvisioning db poolId requestId requestedAddress draws)
  | .confirmProvisioningIp requestId workloadId => IpamService.confirmProvisioningIp db requestId workloadId draws
  | .quarantineProvisioningIp requestId => IpamService.quarantineProvisioningIp db requestId draws
  | .release allocationId reason => silent (m.svc.release db allocationId reason draws)
  | .approveRelease addressId => silent (m.svc.approveRelease db addressId draws)

/-- What the database keeps to: the unique names, and the workloads that allocations refer to. The
serial runs start from any such state. -/
structure Sound (db : Db) : Prop where
  names : PoolNamesUnique db.ipam.pools
  referenced : ∀ l ∈ db.ipam.allocations, ∀ w ∈ l.workloadId, (db.workloads.get? w).isSome

/-- Every message, whichever call it is. -/
theorem message_alone (m : IpamMessage) (draws : Draws) {db : Db} (h : Sound db) :
    alone draws m.program db = ((m.outcome draws db).db, (m.outcome draws db).result) := by
  obtain ⟨svc, request⟩ := m
  cases request with
  | createPool payload => exact discard_alone (createPool_alone svc draws db payload)
  | pool request =>
    cases request with
    | update poolId payload => exact (ofPool_alone draws db _).trans (Pools.updatePool_alone svc db poolId payload)
    | delete poolId version => exact (ofPool_alone draws db _).trans (Pools.deletePool_alone svc db poolId version h.names)
  | reserveAddress poolId address reason => exact discard_alone (reserveAddress_alone svc draws db poolId address reason)
  | allocate poolId workloadId requested => exact discard_alone (allocate_alone svc draws db poolId workloadId requested)
  | reserveForProvisioning poolId requestId requested =>
    exact discard_alone (reserveForProvisioning_alone svc draws db poolId requestId requested)
  | confirmProvisioningIp requestId workloadId =>
    exact confirmProvisioningIp_alone svc draws db requestId workloadId h.referenced
  | quarantineProvisioningIp requestId => exact quarantineProvisioningIp_alone svc draws db requestId
  | release allocationId reason => exact discard_alone (release_alone svc draws db allocationId reason)
  | approveRelease addressId => exact discard_alone (approveRelease_alone svc draws db addressId)

section Sound
variable {db db' : Db}

/-- A change that leaves the names leaves them unique. -/
theorem names_update {pools : Table IpPool} {id : Uuid} {f : IpPool → IpPool} (hf : ∀ p, (f p).name = p.name)
    (h : PoolNamesUnique pools) : PoolNamesUnique (pools.update id f) := by
  have hname (p : IpPool) : (Table.amend id f p).name = p.name := by
    unfold Table.amend
    split
    · exact hf p
    · rfl
  intro p' hp' q' hq' hsame
  obtain ⟨p, hp, rfl⟩ := Table.mem_update.mp hp'
  obtain ⟨q, hq, rfl⟩ := Table.mem_update.mp hq'
  rw [hname, hname] at hsame
  rw [show (Table.amend id f p).id = p.id from Table.key_amend id f p,
    show (Table.amend id f q).id = q.id from Table.key_amend id f q]
  exact h p hp q hq hsame

/-- Allocations of which none has another workload than before. -/
theorem Sound.steady (h : Sound db) (hnames : PoolNamesUnique db'.ipam.pools) (hworkloads : db'.workloads = db.workloads)
    (hsame : ∀ l' ∈ db'.ipam.allocations, ∀ w ∈ l'.workloadId, (∃ l ∈ db.ipam.allocations, l.workloadId = some w) ∨
      (db.workloads.get? w).isSome) : Sound db' := by
  refine ⟨hnames, fun l' hl' w hw => ?_⟩
  rw [hworkloads]
  rcases hsame l' hl' w hw with ⟨l, hl, hlw⟩ | hthere
  · exact h.referenced l hl w hlw
  · exact hthere

/-- A change that leaves the workloads names no other. -/
theorem kept_allocation {allocations : Table IpAllocation} {id : Uuid} {f : IpAllocation → IpAllocation} {l' : IpAllocation}
    {w : Uuid} (hf : ∀ l, (f l).workloadId = l.workloadId) (hl' : l' ∈ allocations.update id f) (hw : w ∈ l'.workloadId) :
    ∃ l ∈ allocations, l.workloadId = some w := by
  obtain ⟨l, hl, rfl⟩ := Table.mem_update.mp hl'
  refine ⟨l, hl, ?_⟩
  unfold Table.amend at hw
  split at hw
  · exact (hf l).symm.trans hw
  · exact hw

/-- Choosing an address touches neither the names of the pools nor an allocation. -/
theorem candidate_kept {t t' : IpamTables} {pool : IpPool} {requested : Option Address} {draws : Draws} {a : IpAddress}
    (h : IpamService.candidateAddress t pool requested draws = .ok (t', a)) (hnames : PoolNamesUnique t.pools) :
    PoolNamesUnique t'.pools ∧ t'.allocations = t.allocations := by
  cases requested with
  | none =>
    simp only [IpamService.candidateAddress, IpamService.automaticCandidate] at h
    split at h
    · cases h
      exact ⟨hnames, rfl⟩
    · simp only [bind_ok, orRaise_ok, pure_ok, Prod.mk.injEq] at h
      obtain ⟨offset, -, candidate, -, t'', hinsert, rfl, rfl⟩ := h
      simp only [insertAddress, bind_ok, orRaise_ok, raiseIf_ok, pure_ok] at hinsert
      obtain ⟨addresses, -, -, -, rfl⟩ := hinsert
      exact ⟨names_update (fun _ => rfl) hnames, rfl⟩
  | some literal =>
    simp only [IpamService.candidateAddress, bind_ok, raiseIf_ok] at h
    obtain ⟨candidate, -, -, -, h⟩ := h
    split at h
    · cases h
      exact ⟨hnames, rfl⟩
    · simp only [bind_ok, pure_ok, Prod.mk.injEq] at h
      obtain ⟨t'', hinsert, rfl, rfl⟩ := h
      simp only [insertAddress, bind_ok, orRaise_ok, raiseIf_ok, pure_ok] at hinsert
      obtain ⟨addresses, -, -, -, rfl⟩ := hinsert
      exact ⟨hnames, rfl⟩

variable {svc : IpamService} {draws : Draws}

theorem sound_createPool (h : Sound db) (payload : IpPoolCreate) : Sound (svc.createPool db payload draws).db := by
  refine Outcome.of_cases (P := Sound) h fun o ho => ?_
  simp only [bind_ok, onIntegrity_ok, pure_ok] at ho
  obtain ⟨network, -, -, -, -, -, -, -, -, -, -, -, t, hinsert, rfl⟩ := ho
  simp only [insertPool, bind_ok, orRaise_ok, raiseIf_ok, pure_ok, not_not] at hinsert
  obtain ⟨pools, -, -, hnames, exclusions, -, -, -, rfl⟩ := hinsert
  exact h.steady hnames rfl fun l hl w hw => Or.inl ⟨l, hl, hw⟩

theorem sound_updatePool (h : Sound db) (poolId : Uuid) (payload : IpPoolUpdate) : Sound (svc.updatePool db poolId payload).db := by
  refine Outcome.of_cases (P := Sound) h fun o ho => ?_
  simp only [bind_ok, raiseIf_ok, pure_ok, not_not] at ho
  obtain ⟨pool, -, -, -, network, -, -, -, -, -, -, -, -, -, -, -, -, -, -, hnames, rfl⟩ := ho
  exact h.steady hnames rfl fun l hl w hw => Or.inl ⟨l, hl, hw⟩

theorem sound_deletePool (h : Sound db) (poolId : Uuid) (version : Nat) : Sound (svc.deletePool db poolId version).db := by
  refine Outcome.of_cases (P := Sound) h fun o ho => ?_
  simp only [bind_ok, raiseIf_ok, pure_ok, not_or] at ho
  obtain ⟨pool, -, -, -, -, -, rfl⟩ := ho
  exact h.steady (names_update (fun _ => rfl) h.names) rfl fun l hl w hw => Or.inl ⟨l, hl, hw⟩

theorem sound_reserveAddress (h : Sound db) (poolId : Uuid) (address : Address) (reason : String) :
    Sound (svc.reserveAddress db poolId address reason draws).db := by
  refine Outcome.of_cases (P := Sound) h fun o ho => ?_
  simp only [bind_ok] at ho
  obtain ⟨pool, -, candidate, -, ho⟩ := ho
  split at ho
  · simp only [bind_ok, raiseIf_ok, pure_ok, not_not] at ho
    obtain ⟨-, -, rfl⟩ := ho
    exact h.steady h.names rfl fun l hl w hw => Or.inl ⟨l, hl, hw⟩
  · simp only [bind_ok, pure_ok] at ho
    obtain ⟨t, hinsert, rfl⟩ := ho
    simp only [insertAddress, bind_ok, orRaise_ok, raiseIf_ok, pure_ok] at hinsert
    obtain ⟨addresses, -, -, -, rfl⟩ := hinsert
    exact h.steady h.names rfl fun l hl w hw => Or.inl ⟨l, hl, hw⟩

theorem sound_allocate (h : Sound db) (poolId workloadId : Uuid) (requested : Option Address) :
    Sound (svc.allocate db poolId workloadId requested draws).db := by
  refine Outcome.of_cases (P := Sound) h fun o ho => ?_
  simp only [bind_ok, orRaise_ok, raiseIf_ok, onIntegrity_ok, pure_ok, Prod.exists, not_not] at ho
  obtain ⟨pool, -, workload, hworkload, -, -, t, a, hcandidate, -, -, t', hinsert, rfl⟩ := ho
  obtain ⟨hnames, hallocations⟩ := candidate_kept hcandidate h.names
  simp only [insertAllocation, bind_ok, orRaise_ok, raiseIf_ok, pure_ok] at hinsert
  obtain ⟨-, -, allocations, hinsert, -, -, rfl⟩ := hinsert
  refine h.steady hnames rfl fun l hl w hw => ?_
  rcases (Table.mem_insert hinsert).mp hl with hold | rfl
  · exact Or.inl ⟨l, hallocations ▸ hold, hw⟩
  · cases hw
    have hget : db.workloads.get? workload.id = some workload := Table.get?_of_mem (Table.first_some hworkload).1
    exact Or.inr (hget ▸ rfl)

theorem sound_reserveForProvisioning (h : Sound db) (poolId requestId : Uuid) (requested : Option Address) :
    Sound (svc.reserveForProvisioning db poolId requestId requested draws).db := by
  refine Outcome.of_cases (P := Sound) h fun o ho => ?_
  simp only [bind_ok] at ho
  obtain ⟨pool, -, ho⟩ := ho
  split at ho
  · simp only [bind_ok, pure_ok] at ho
    obtain ⟨address, -, rfl⟩ := ho
    exact h
  · simp only [bind_ok, raiseIf_ok, onIntegrity_ok, pure_ok, Prod.exists, not_not] at ho
    obtain ⟨t, a, hcandidate, -, -, t', hinsert, rfl⟩ := ho
    obtain ⟨hnames, hallocations⟩ := candidate_kept hcandidate h.names
    simp only [insertAllocation, bind_ok, orRaise_ok, raiseIf_ok, pure_ok] at hinsert
    obtain ⟨-, -, allocations, hinsert, -, -, rfl⟩ := hinsert
    refine h.steady hnames rfl fun l hl w hw => ?_
    rcases (Table.mem_insert hinsert).mp hl with hold | rfl
    · exact Or.inl ⟨l, hallocations ▸ hold, hw⟩
    · cases hw

theorem sound_confirm (h : Sound db) (requestId workloadId : Uuid) :
    Sound (IpamService.confirmProvisioningIp db requestId workloadId draws).db := by
  refine Outcome.of_cases (P := Sound) h fun o ho => ?_
  split at ho
  · split at ho
    · cases ho
      exact h
    · cases ho
  · next l hl =>
    simp only [bind_ok, orRaise_ok, raiseIf_ok, pure_ok] at ho
    obtain ⟨address, -, -, hworkload, rfl⟩ := ho
    refine h.steady h.names rfl fun l' hl' w hw => ?_
    obtain ⟨l, hl, rfl⟩ := Table.mem_update.mp hl'
    unfold Table.amend at hw
    split at hw
    · cases hw
      exact Or.inr (Option.isSome_iff_ne_none.mpr hworkload)
    · exact Or.inl ⟨l, hl, hw⟩

theorem sound_quarantine (h : Sound db) (requestId : Uuid) :
    Sound (IpamService.quarantineProvisioningIp db requestId draws).db := by
  refine Outcome.of_cases (P := Sound) h fun o ho => ?_
  split at ho
  · cases ho
    exact h
  · simp only [bind_ok, orRaise_ok, pure_ok] at ho
    obtain ⟨address, -, pool, -, rfl⟩ := ho
    exact h.steady h.names rfl fun l hl w hw =>
      Or.inl (kept_allocation (f := quarantinedAllocation "Provisioning failed before clone completion" draws.now)
        (fun _ => rfl) hl hw)

theorem sound_release (h : Sound db) (allocationId : Uuid) (reason : String) :
    Sound (svc.release db allocationId reason draws).db := by
  refine Outcome.of_cases (P := Sound) h fun o ho => ?_
  simp only [bind_ok, orRaise_ok] at ho
  obtain ⟨allocation, -, address, -, pool, -, ho⟩ := ho
  split at ho
  · cases ho
    exact h
  · cases ho
    exact h.steady h.names rfl fun l hl w hw =>
      Or.inl (kept_allocation (f := quarantinedAllocation reason draws.now) (fun _ => rfl) hl hw)

theorem sound_approve (h : Sound db) (addressId : Uuid) : Sound (svc.approveRelease db addressId draws).db := by
  refine Outcome.of_cases (P := Sound) h fun o ho => ?_
  simp only [bind_ok, orRaise_ok, raiseIf_ok, pure_ok] at ho
  obtain ⟨address, -, -, -, -, -, allocation, -, pool, -, rfl⟩ := ho
  exact h.steady h.names rfl fun l hl w hw => Or.inl (kept_allocation (f := releasedAllocation) (fun _ => rfl) hl hw)

/-- Every call keeps the names and the workloads. -/
theorem sound_outcome (m : IpamMessage) (draws : Draws) (h : Sound db) : Sound (m.outcome draws db).db := by
  obtain ⟨svc, request⟩ := m
  cases request with
  | createPool payload => exact sound_createPool h payload
  | pool request =>
    cases request with
    | update poolId payload => exact sound_updatePool h poolId payload
    | delete poolId version => exact sound_deletePool h poolId version
  | reserveAddress poolId address reason => exact sound_reserveAddress h poolId address reason
  | allocate poolId workloadId requested => exact sound_allocate h poolId workloadId requested
  | reserveForProvisioning poolId requestId requested => exact sound_reserveForProvisioning h poolId requestId requested
  | confirmProvisioningIp requestId workloadId => exact sound_confirm h requestId workloadId
  | quarantineProvisioningIp requestId => exact sound_quarantine h requestId
  | release allocationId reason => exact sound_release h allocationId reason
  | approveRelease addressId => exact sound_approve h addressId

end Sound

/-! ### The machine -/

/-- Nobody but one transaction has locked a row. -/
def IpamStore.Free (s : IpamStore) (x : Nat) : Prop := ∀ row y, s.holder row = some y → y = x

/-- At the end of a transaction no row is locked. -/
theorem IpamStore.free_release {s : IpamStore} {x : Nat} (h : s.Free x) (row : IpamRow) : (s.release x).holder row = none := by
  cases hrow : (s.release x).holder row with
  | none => rfl
  | some y =>
    obtain ⟨hne, hheld⟩ := Store.release_holder hrow
    exact absurd (h row y hheld) hne

theorem IpamStore.free_take {s : IpamStore} {x : Nat} (h : s.Free x) (row : IpamRow) : IpamStore.Free (s.take row x) x := by
  intro r y hr
  rcases Store.take_holder hr with hheld | ⟨-, rfl⟩
  · exact h r y hheld
  · rfl

theorem IpamStore.free_unlocked {s : IpamStore} {x : Nat} (h : s.Free x) : s.unlocked x = s.db.ipam := by
  have hall : s.db.ipam.addresses.restrict (fun a => (s.holder (.address a.id)).all (· == x)) = s.db.ipam.addresses := by
    refine Table.ext (List.filter_eq_self.mpr fun a _ => ?_)
    cases hrow : s.holder (.address a.id) with
    | none => rfl
    | some y => simpa using h _ y hrow
  unfold IpamStore.unlocked
  rw [hall]

/-- A transaction that runs by itself. -/
theorem machine_alone {α : Type} (draws : Draws) (p : IpamProg α) (θ : Transaction IpamMessage Unit) {s : IpamStore}
    (h : s.Free θ.xid) : ∃ s', ipamMachine.alone draws p θ s = some ((alone draws p s.db).2, θ, s') ∧
      s'.db = (alone draws p s.db).1 ∧ s'.Free θ.xid := by
  induction p generalizing s with
  | done r => exact ⟨s, rfl, rfl, h⟩
  | node o k ih =>
    cases o with
    | draw q => exact ih (q draws) h
    | read q => exact ih (q s.db) h
    | lock row wanted q =>
      cases hrow : s.holder row with
      | none =>
        have hexec : ipamMachine.exec (.lock row wanted q) draws θ s =
            some (θ, if wanted s.db then s.take row θ.xid else s, q s.db) := by simp only [ipamMachine, hrow]
        have hfree : IpamStore.Free (if wanted s.db then s.take row θ.xid else s) θ.xid := by
          split
          · exact IpamStore.free_take h row
          · exact h
        have hdb : (if wanted s.db then s.take row θ.xid else s).db = s.db := by split <;> rfl
        obtain ⟨s', halone, hleft, hfree'⟩ := ih (q s.db) hfree
        rw [hdb] at halone hleft
        exact ⟨s', by rw [Machine.alone, hexec]; exact halone, hleft, hfree'⟩
      | some y =>
        have hy := h row y hrow
        have hexec : ipamMachine.exec (.lock row wanted q) draws θ s = some (θ, s, q s.db) := by
          simp only [ipamMachine, hrow, hy, if_true]
        obtain ⟨s', halone, hleft⟩ := ih (q s.db) h
        exact ⟨s', by rw [Machine.alone, hexec]; exact halone, hleft⟩
    | skipLocked poolId q =>
      have hunlocked := IpamStore.free_unlocked h
      cases hleast : leastAvailable s.db.ipam poolId with
      | none =>
        have hexec : ipamMachine.exec (.skipLocked poolId q) draws θ s = some (θ, s, q none) := by
          simp only [ipamMachine, hunlocked, hleast]
        obtain ⟨s', halone, hleft⟩ := ih (q none) h
        simp only [alone, hleast]
        exact ⟨s', by rw [Machine.alone, hexec]; exact halone, hleft⟩
      | some a =>
        have hexec : ipamMachine.exec (.skipLocked poolId q) draws θ s = some (θ, s.take (.address a.id) θ.xid, q (some a)) := by
          simp only [ipamMachine, hunlocked, hleast]
        obtain ⟨s', halone, hleft⟩ := ih (q (some a)) (IpamStore.free_take h (.address a.id))
        simp only [alone, hleast]
        exact ⟨s', by rw [Machine.alone, hexec]; exact halone, hleft⟩
    | commit w q =>
      cases happly : w.apply s.db with
      | ok db =>
        have hexec : ipamMachine.exec (.commit w q) draws θ s = some (θ, s.commit db ⟨θ.xid, θ.request, w⟩, q (.ok ())) := by
          simp only [ipamMachine, happly]
        have hfree : IpamStore.Free (s.commit db ⟨θ.xid, θ.request, w⟩) θ.xid := fun row y hr =>
          h row y (Store.release_holder hr).2
        obtain ⟨s', halone, hleft⟩ := ih (q (.ok ())) hfree
        simp only [alone, happly]
        exact ⟨s', by rw [Machine.alone, hexec]; exact halone, hleft⟩
      | error e =>
        have hexec : ipamMachine.exec (.commit w q) draws θ s = some (θ, s.release θ.xid, q (.error e)) := by
          simp only [ipamMachine, happly]
        have hfree : IpamStore.Free (s.release θ.xid) θ.xid := fun row y hr => h row y (Store.release_holder hr).2
        obtain ⟨s', halone, hleft⟩ := ih (q (.error e)) hfree
        simp only [alone, happly]
        exact ⟨s', by rw [Machine.alone, hexec]; exact halone, hleft⟩

/-- A store nobody has locked a row of, with a sound database: where a serial run is between two
of its calls. -/
structure Stands (s : IpamStore) (db : Db) : Prop where
  stored : s.db = db
  unlocked : ∀ row, s.holder row = none
  sound : Sound db

/-- A call begins and ends with no row locked, and stands for the call of the service. -/
theorem call_stands {s : IpamStore} {db : Db} (h : Stands s db) (c : (Nat × IpamMessage) × Draws) :
    ∃ s', ipamMachine.call s c = some s' ∧ Stands s' (c.1.2.outcome c.2 db).db := by
  obtain ⟨⟨x, m⟩, draws⟩ := c
  have hfree : s.Free x := fun row y hrow => by
    rw [h.unlocked] at hrow
    cases hrow
  obtain ⟨s', halone, hleft, hfree'⟩ := machine_alone draws m.program ⟨x, m, none⟩ hfree
  rw [h.stored, message_alone m draws h.sound] at halone hleft
  refine ⟨s'.release x, ?_, hleft, IpamStore.free_release hfree', sound_outcome m draws h.sound⟩
  exact congrArg (Option.map fun out => ipamMachine.drop out.2.1 out.2.2) halone

/-- **One call after another**: where no two of them overlap, the statements of the calls come to what the
calls of the service come to, and no row stays locked. -/
theorem serial_run (calls : List ((Nat × IpamMessage) × Draws)) (db : Db) (h : Sound db) :
    ∃ n s, s.db = calls.foldl (fun db c => (c.1.2.outcome c.2 db).db) db ∧ (∀ row, s.holder row = none) ∧
      ∀ m, n ≤ m → runFrom (Sys.next ipamMachine) (Sys.idle (Store.unlocked _ _ _ db)) (serially m calls) = Sys.idle s := by
  have hstands : Stands (Store.unlocked _ _ _ db) db := ⟨rfl, fun _ => rfl, h⟩
  obtain ⟨n, s, hleft, hrun⟩ := Sys.run_serially (R := Stands) (fun _ _ c h => call_stands h c) calls hstands
  exact ⟨n, s, hleft.stored, hleft.unlocked, hrun⟩

/-- A workload without an address, and a request that waits. -/
def waitingWorkload : Db := { Ipam.sampleDb with requests := .single Ipam.waitingRequest }

/-- A pool is created; the workload gets an address, which it then gives back, and the request
reserves the next one. -/
def servedCalls : List ((Nat × IpamMessage) × Draws) :=
  [((0, ⟨Ipam.root, .createPool Ipam.linkLocal⟩), Ipam.firstDraws),
    ((1, ⟨Ipam.root, .allocate 7 20 none⟩), ⟨0, 0, fun n => n + 30, fun _ => 0⟩),
    ((2, ⟨Ipam.root, .release 31 "move"⟩), ⟨10 * second, 10 * second, fun n => n + 40, fun _ => 0⟩),
    ((3, ⟨Ipam.root, .reserveForProvisioning 7 90 none⟩), ⟨20 * second, 20 * second, fun n => n + 50, fun _ => 0⟩)]

theorem served_serially : ∃ n s, (s.db.ipam.allocations.rows.map fun l => l.status) = [.quarantined, .reserved] ∧
    (∀ row, s.holder row = none) ∧
    ∀ m, n ≤ m → runFrom (Sys.next ipamMachine) (Sys.idle (Store.unlocked _ _ _ waitingWorkload)) (serially m servedCalls) =
      Sys.idle s := by
  have hsound : Sound waitingWorkload := ⟨by decide, by decide⟩
  obtain ⟨n, s, hleft, hunlocked, hrun⟩ := serial_run servedCalls waitingWorkload hsound
  refine ⟨n, s, ?_, hunlocked, hrun⟩
  rw [hleft]
  decide +kernel

end PveMaster.Addresses
