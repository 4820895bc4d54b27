import PveMaster.Ipam.Transactions
import PveMaster.Foundation.Product

/-! The order in which the calls on addresses lock their rows.

They go from the pool over the workload and the allocation to the address. The approval of a release
alone has locked its address when it asks for the allocation. -/
namespace PveMaster.Addresses
open Prog IpamProg IpamService Locking

/-- The order in which the calls ask for rows. -/
def IpamRow.rank : IpamRow → Nat
  | .pool _ => 0
  | .workload _ => 1
  | .allocation _ => 2
  | .address _ => 3

/-- What may be asked for after an address has been locked: the allocation, by the approval of a
release. -/
def IpamRow.late : IpamRow → Bool
  | .allocation _ => true
  | _ => false

/-- The locks of the calls on addresses. The choice with `SKIP LOCKED` takes an address without
asking for it. -/
def addressLocks : Locking IpamOp (Transaction IpamMessage Unit) IpamStore IpamRow Nat where
  name := Transaction.xid
  holder := Store.holder
  rank := IpamRow.rank
  asks
    | .lock row _ _ => some row
    | _ => none
  reach
    | .lock row _ _ => row.rank + 1
    | .skipLocked _ _ => 4
    | _ => 0
  ends
    | .commit _ _ => true
    | _ => false

theorem exec_unchanged {ρ : Type} {o : IpamOp ρ} {i : Draws} {θ θ' : Transaction IpamMessage Unit} {s s' : IpamStore} {r : ρ}
    (h : ipamMachine.exec o i θ s = some (θ', s', r)) : θ' = θ := by
  cases o with
  | draw k | read q =>
    cases h
    rfl
  | lock row wanted q =>
    simp only [ipamMachine] at h
    split at h
    · split at h
      · cases h
        rfl
      · cases h
    · cases h
      rfl
  | skipLocked poolId k | commit w k =>
    simp only [ipamMachine] at h
    split at h <;> cases h <;> rfl

/-- What an operation makes of the locks. -/
theorem exec_holder {ρ : Type} {o : IpamOp ρ} {i : Draws} {θ θ' : Transaction IpamMessage Unit} {s s' : IpamStore} {r : ρ}
    (h : ipamMachine.exec o i θ s = some (θ', s', r)) {k : IpamRow} {x : Nat} (hk : s'.holder k = some x) :
    match o with
    | .lock row _ _ => s.holder k = some x ∨ k = row ∧ x = θ.xid
    | .skipLocked _ _ => s.holder k = some x ∨ k.rank = 3 ∧ x = θ.xid
    | .commit _ _ => x ≠ θ.xid ∧ s.holder k = some x
    | _ => s.holder k = some x := by
  cases o with
  | draw k | read q =>
    cases h
    exact hk
  | lock row wanted q =>
    simp only [ipamMachine] at h
    split at h
    · split at h
      · cases h
        exact Or.inl hk
      · cases h
    · cases h
      split at hk
      · exact Store.take_holder hk
      · exact Or.inl hk
  | skipLocked poolId k =>
    simp only [ipamMachine] at h
    split at h
    · cases h
      rcases Store.take_holder hk with hold | ⟨hrow, hx⟩
      · exact Or.inl hold
      · exact Or.inr ⟨hrow ▸ rfl, hx⟩
    · cases h
      exact Or.inl hk
  | commit w k =>
    simp only [ipamMachine] at h
    split at h
    · cases h
      exact Store.release_holder hk
    · cases h
      exact Store.release_holder hk

theorem addressLocks_lawful : addressLocks.Lawful ipamMachine where
  name o i θ θ' s s' r h := congrArg Transaction.xid (exec_unchanged h)
  others o i θ θ' s s' r h k x hne hk := by
    have hbefore := exec_holder h hk
    cases o with
    | draw k | read q => exact hbefore
    | lock row wanted q => exact hbefore.elim id fun hown => absurd hown.2 hne
    | skipLocked poolId k => exact hbefore.elim id fun hown => absurd hown.2 hne
    | commit w k => exact hbefore.2
  own o i θ θ' s s' r h k hk := by
    have hbefore := exec_holder h hk
    cases o with
    | draw k | read q => exact ⟨rfl, Or.inr hbefore⟩
    | lock row wanted q =>
      refine ⟨rfl, hbefore.elim Or.inr fun hown => Or.inl ?_⟩
      rw [hown.1]
      exact Nat.lt_succ_self _
    | skipLocked poolId k =>
      refine ⟨rfl, hbefore.elim Or.inr fun hown => Or.inl ?_⟩
      exact hown.1.trans_lt (Nat.lt_succ_self 3)
    | commit w k => exact absurd rfl hbefore.1
  drop θ s k x h := (Store.release_holder h).2

/-! ### Programs -/

section Programs
variable {α β : Type} {top n : Nat}

/-- A call asks for rows in their order, from those below `top` that it has. -/
abbrev Ordered (p : IpamProg α) (top : Nat) : Prop := addressLocks.Ranked IpamRow.late p top

abbrev OnlyLate (n : Nat) (p : IpamProg α) : Prop := p.Only (addressLocks.Below IpamRow.late n)

theorem late_read {q : Db → α} : OnlyLate n (IpamProg.read q) :=
  only_op ⟨fun _ hk => (by cases hk), Nat.zero_le n, rfl⟩

theorem late_draw : OnlyLate n draw := only_op ⟨fun _ hk => (by cases hk), Nat.zero_le n, rfl⟩

theorem ordered_lock {row : IpamRow} {wanted : Db → Bool} {q : Db → α} {f : α → IpamProg β} (hrank : top ≤ row.rank)
    (hf : ∀ a, Ordered (f a) (row.rank + 1)) : Ordered (lock row wanted q >>= f) top := by
  refine ranked_op (fun k hk _ => ?_) fun a => (hf a).mono ?_
  · cases hk
    exact hrank
  · exact max_le (hrank.trans (Nat.le_succ _)) (Nat.le_refl _)

theorem ordered_commit {w : IpamWrite} {f : Unit → IpamProg β} (hf : Ordered (f ()) 0) :
    Ordered (commit w >>= f) top := by
  refine ⟨fun _ hk => (by cases hk), fun r => ?_⟩
  cases r with
  | ok _ => exact hf
  | error e => trivial

theorem ordered_discard {p : IpamProg α} (hp : Ordered p top) : Ordered (discard p) top :=
  ranked_andThen hp fun r _ => by cases r <;> trivial

theorem ordered_lockedPool {poolId : Uuid} {f : IpPool → IpamProg β} (hf : ∀ pool, Ordered (f pool) 1) :
    Ordered (lockedPool poolId >>= f) 0 := by
  unfold lockedPool
  rw [bind_assoc]
  exact ordered_lock (Nat.zero_le _) fun pool => ranked_ofExcept hf

/-- An address is the last row that is asked for. -/
theorem ordered_lockedAddress {poolId : Uuid} {address : Inet} : Ordered (lockedAddress poolId address) 3 := by
  refine ranked_quiet late_read fun found => ?_
  split
  · trivial
  · exact ⟨fun k hk _ => Option.some.inj hk ▸ Nat.le_refl 3, fun _ => trivial⟩

theorem within_lockedAddress {poolId : Uuid} {address : Inet} :
    (lockedAddress poolId address).Only (addressLocks.Within 4) := by
  refine only_bind (Only.mono (fun _ ho => ho.2) (late_read (n := 4))) fun found => ?_
  split
  · trivial
  · exact only_op ⟨Nat.le_refl 4, rfl⟩

theorem late_lockedAllocation {p : IpAllocation → Bool} : OnlyLate 3 (lockedAllocation p) := by
  refine only_bind late_read fun found => ?_
  split
  · trivial
  · exact only_op ⟨fun _ hk => Option.some.inj hk ▸ rfl, Nat.le_refl 3, rfl⟩

theorem late_addressOf {l : IpAllocation} : OnlyLate n (addressOf l) := only_bind late_read fun _ => trivial

theorem late_poolOf {a : IpAddress} : OnlyLate n (poolOf a) := only_bind late_read fun _ => trivial

theorem late_flushed {pool : IpPool} {address : IpAddress} : OnlyLate n (flushed pool address) :=
  only_bind late_read fun inserted => only_bind (p := discard (ofExcept inserted)) (by cases inserted <;> trivial) fun _ => trivial

theorem ordered_reserveAddress {svc : IpamService} {poolId : Uuid} {address : Address} {reason : String} :
    Ordered (reserveAddress svc poolId address reason) 0 := by
  refine ordered_lockedPool fun pool => ranked_ofExcept fun candidate => ?_
  refine ranked_bind 4 (ordered_lockedAddress.mono (by decide)) within_lockedAddress fun found => ?_
  split
  · exact ranked_ofExcept fun _ => ordered_commit trivial
  · exact ranked_quiet late_draw fun draws => ordered_commit trivial

theorem ordered_candidateAddress {pool : IpPool} {requested : Option Address} :
    Ordered (candidateAddress pool requested) 2 := by
  cases requested with
  | none =>
    refine ranked_op (fun _ hk => by cases hk) fun found => ?_
    split
    · trivial
    · refine ranked_quiet late_draw fun draws => ranked_quiet late_read fun offset => ?_
      exact ranked_ofExcept fun _ => ranked_ofExcept fun _ => ranked_only (n := 0) late_flushed
  | some requested =>
    refine ranked_ofExcept fun candidate => ranked_quiet late_read fun excluded => ranked_ofExcept fun _ => ?_
    refine ranked_bind 4 (ordered_lockedAddress.mono (by decide)) within_lockedAddress fun found => ?_
    split
    · trivial
    · exact ranked_quiet late_draw fun draws => ranked_only (n := 0) late_flushed

theorem within_late {p : IpamProg α} (hp : OnlyLate n p) : p.Only (addressLocks.Within n) :=
  Only.mono (fun _ ho => ho.2) hp

theorem within_candidateAddress {pool : IpPool} {requested : Option Address} :
    (candidateAddress pool requested).Only (addressLocks.Within 4) := by
  cases requested with
  | none =>
    refine only_bind (only_op (o := IpamOp.skipLocked pool.id id) ⟨Nat.le_refl 4, rfl⟩) fun found => ?_
    split
    · trivial
    · refine only_bind (within_late late_draw) fun draws => only_bind (within_late late_read) fun offset => ?_
      exact only_bind only_done fun _ => only_bind only_done fun _ => within_late late_flushed
  | some requested =>
    refine only_bind only_done fun candidate => only_bind (within_late late_read) fun excluded => ?_
    refine only_bind only_done fun _ => only_bind within_lockedAddress fun found => ?_
    split
    · trivial
    · exact only_bind (within_late late_draw) fun draws => within_late late_flushed

theorem ordered_commitOr {error : AppError} {w : IpamWrite} {f : Unit → IpamProg β} (hf : Ordered (f ()) 0) :
    Ordered (commitOr error w >>= f) top := by
  refine ⟨fun _ hk => (by cases hk), fun r => ?_⟩
  cases r with
  | ok _ => exact hf
  | error e => cases e <;> trivial

theorem ordered_allocate {svc : IpamService} {poolId workloadId : Uuid} {requested : Option Address} :
    Ordered (allocate svc poolId workloadId requested) 0 := by
  refine ordered_lockedPool fun pool => ?_
  unfold lockedWorkload
  dsimp only
  rw [bind_assoc]
  refine ordered_lock (Nat.le_refl 1) fun workload => ranked_ofExcept fun workload => ranked_ofExcept fun _ => ?_
  refine ranked_bind 4 ordered_candidateAddress within_candidateAddress fun choice => ranked_ofExcept fun _ => ?_
  exact ranked_quiet late_draw fun draws => ordered_commitOr trivial

theorem ordered_reserveForProvisioning {svc : IpamService} {poolId requestId : Uuid} {requested : Option Address} :
    Ordered (reserveForProvisioning svc poolId requestId requested) 0 := by
  refine ordered_lockedPool fun pool => ranked_quiet late_read fun existing => ?_
  split
  · exact ranked_quiet late_addressOf fun address => trivial
  · refine ranked_bind 4 (ordered_candidateAddress.mono (by decide)) within_candidateAddress fun choice => ?_
    exact ranked_ofExcept fun _ => ranked_quiet late_draw fun draws => ordered_commitOr trivial

/-- A new pool asks for no row. -/
theorem ordered_createPool {svc : IpamService} {payload : IpPoolCreate} : Ordered (createPool svc payload) 0 := by
  refine ranked_ofExcept fun network => ranked_ofExcept fun _ => ranked_quiet late_read fun known => ?_
  refine ranked_ofExcept fun _ => ranked_ofExcept fun _ => ranked_ofExcept fun _ => ?_
  refine ranked_quiet late_read fun overlaps => ranked_ofExcept fun _ => ranked_quiet late_draw fun draws => ?_
  exact ordered_commitOr (ranked_only (n := 0) late_read)

/-- The update of an address, at the commit. -/
theorem ordered_touch {a : IpAddress} {w : IpamWrite} : Ordered (touch a >>= fun _ => commit w) 3 :=
  ordered_lock (Nat.le_refl 3) fun _ => ⟨fun _ hk => (by cases hk), fun _ => trivial⟩

theorem ordered_confirmProvisioningIp {svc : IpamService} {requestId workloadId : Uuid} :
    Ordered (confirmProvisioningIp svc requestId workloadId) 0 := by
  refine ranked_below 3 late_lockedAllocation fun found => ?_
  split
  · exact ranked_quiet late_read fun _ => trivial
  · exact ranked_quiet late_addressOf fun address => ranked_quiet late_draw fun draws => ordered_touch

theorem ordered_quarantineProvisioningIp {svc : IpamService} {requestId : Uuid} :
    Ordered (quarantineProvisioningIp svc requestId) 0 := by
  refine ranked_below 3 late_lockedAllocation fun found => ?_
  split
  · trivial
  · refine ranked_quiet late_addressOf fun address => ranked_quiet late_poolOf fun pool => ?_
    exact ranked_quiet late_draw fun draws => ordered_touch

theorem ordered_release {svc : IpamService} {allocationId : Uuid} {reason : String} :
    Ordered (release svc allocationId reason) 0 := by
  refine ordered_lock (Nat.zero_le _) fun allocation => ranked_ofExcept fun allocation => ?_
  refine ordered_lock (Nat.le_refl 3) fun address => ranked_ofExcept fun address => ?_
  refine ranked_quiet late_poolOf fun pool => ?_
  split
  · trivial
  · exact ranked_quiet late_draw fun draws => ordered_commit trivial

/-- The allocation is asked for with the address locked. -/
theorem ordered_approveRelease {svc : IpamService} {addressId : Uuid} : Ordered (approveRelease svc addressId) 0 := by
  refine ordered_lock (Nat.zero_le _) fun address => ranked_ofExcept fun address => ranked_ofExcept fun _ => ?_
  refine ranked_quiet late_draw fun draws => ranked_ofExcept fun _ => ?_
  refine ranked_below 3 late_lockedAllocation fun found => ranked_ofExcept fun allocation => ?_
  exact ranked_quiet (only_bind late_poolOf fun _ => trivial) fun _ => ordered_commit trivial

/-! The calls on pools ask for their pool only. -/

abbrev poolLocks : Locking Pools.PoolStatement (Transaction Pools.PoolMessage Unit)
    (Store Db Uuid Pools.PoolWrite Pools.PoolMessage) Uuid Nat := Store.locking fun _ => 0

abbrev OrderedPool (p : Pools.PoolProg α) (top : Nat) : Prop := poolLocks.Ranked (fun _ => false) p top

theorem ordered_ofPool {p : Pools.PoolProg α} (hp : OrderedPool p top) : Ordered (p.rename ofPoolStatement) top := by
  refine ranked_rename (fun o k hk _ => ?_) (fun o => ?_) (fun o => ?_) hp
  · cases o with
    | read q | call x c | answer a c | commit w c => cases hk
    | lock row wanted q =>
      cases hk
      exact ⟨row, rfl, rfl, Nat.le_refl 0⟩
  · cases o <;> rfl
  · cases o <;> rfl

theorem ordered_poolRead {q : Db → α} {f : α → Pools.PoolProg β} (hf : ∀ a, OrderedPool (f a) top) :
    OrderedPool (Pools.PoolProg.read q >>= f) top := ranked_quiet (only_op Store.below_read) hf

theorem ordered_poolLock {poolId : Uuid} {f : IpPool → Pools.PoolProg β} (hf : ∀ pool, OrderedPool (f pool) 1) :
    OrderedPool (Pools.lockedPool poolId >>= f) 0 := by
  unfold Pools.lockedPool
  rw [bind_assoc]
  exact Store.ranked_lock (Nat.zero_le _) fun pool => ranked_ofExcept hf

theorem ordered_updatePool {svc : IpamService} {poolId : Uuid} {payload : IpPoolUpdate} :
    OrderedPool (Pools.updatePool svc poolId payload) 0 := by
  refine ordered_poolLock fun pool => ranked_ofExcept fun _ => ranked_ofExcept fun network => ?_
  refine ranked_ofExcept fun _ => ranked_ofExcept fun _ => ordered_poolRead fun known => ranked_ofExcept fun _ => ?_
  refine ordered_poolRead fun materialized => ranked_ofExcept fun _ => ordered_poolRead fun exclusions => ?_
  refine ranked_ofExcept fun _ => ordered_poolRead fun overlaps => ranked_ofExcept fun _ => ?_
  refine ⟨fun _ hk => (by cases hk), fun r => ?_⟩
  cases r with
  | ok _ => trivial
  | error e => cases e <;> trivial

theorem ordered_deletePool {svc : IpamService} {poolId : Uuid} {version : Nat} :
    OrderedPool (Pools.deletePool svc poolId version) 0 := by
  refine ordered_poolLock fun pool => ranked_ofExcept fun _ => ordered_poolRead fun unavailable => ?_
  refine ordered_poolRead fun active => ranked_ofExcept fun _ => ?_
  exact ⟨fun _ hk => (by cases hk), fun _ => trivial⟩

/-- **Every call** asks for its rows in this order. -/
theorem ordered_program (m : IpamMessage) : Ordered m.program 0 := by
  obtain ⟨svc, request⟩ := m
  cases request with
  | createPool payload => exact ordered_discard ordered_createPool
  | pool request =>
    cases request with
    | update poolId payload => exact ordered_ofPool ordered_updatePool
    | delete poolId version => exact ordered_ofPool ordered_deletePool
  | reserveAddress poolId address reason => exact ordered_discard ordered_reserveAddress
  | allocate poolId workloadId requested => exact ordered_discard ordered_allocate
  | reserveForProvisioning poolId requestId requested => exact ordered_discard ordered_reserveForProvisioning
  | confirmProvisioningIp requestId workloadId => exact ordered_confirmProvisioningIp
  | quarantineProvisioningIp requestId => exact ordered_quarantineProvisioningIp
  | release allocationId reason => exact ordered_discard ordered_release
  | approveRelease addressId => exact ordered_discard ordered_approveRelease

end Programs

end PveMaster.Addresses
