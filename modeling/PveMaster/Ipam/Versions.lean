import PveMaster.Ipam.Statements

/-! The versions of the pools.

`update_pool` and `delete_pool` compare the version of a pool they have locked. -/
namespace PveMaster.Pools
open Prog PoolProg

/-- How pools are versioned: a commit that assigns the version of its pool counts as an update,
and both calls carry the version they are meant for. -/
def poolVersions : Versioned Db Uuid PoolWrite PoolMessage where
  version k db := (db.ipam.pools.get? k).map IpPool.version
  assigns w :=
    if w.current.version = w.loaded.version then none
    else some (w.loaded.id, w.loaded.version, w.current.version)
  carried m :=
    match m.request with
    | .update poolId payload => some (poolId, payload.version)
    | .delete poolId version => some (poolId, version)

theorem PoolWrite.apply_pools {w : PoolWrite} {db db' : Db} (h : w.apply db = .ok db') :
    db'.ipam.pools = db.ipam.pools.update w.loaded.id (flush w.loaded w.current) := by
  unfold PoolWrite.apply at h
  dsimp only at h
  split at h
  · cases h
    rfl
  · cases h

theorem poolVersions_lawful : poolVersions.Lawful poolSchema where
  assigned w db db' k l a happly hassigns hthere := by
    have hassigns : (if w.current.version = w.loaded.version then none
      else some (w.loaded.id, w.loaded.version, w.current.version)) = some (k, l, a) := hassigns
    split at hassigns
    · cases hassigns
    next hne =>
    cases hassigns
    have hthere : ((db.ipam.pools.get? w.loaded.id).map IpPool.version).isSome = true := hthere
    obtain ⟨p, hp⟩ := Option.isSome_iff_exists.mp (Option.isSome_map.symm.trans hthere)
    show (db'.ipam.pools.get? w.loaded.id).map IpPool.version = some w.current.version
    rw [PoolWrite.apply_pools happly, Table.get?_update_same hp rfl]
    exact congrArg some (written_of_ne p.version hne)
  others w db db' k n happly hnot hversion := by
    obtain ⟨p, hp, rfl⟩ := Option.map_eq_some_iff.mp hversion
    show (db'.ipam.pools.get? k).map IpPool.version = some p.version
    rw [PoolWrite.apply_pools happly]
    by_cases hk : k = w.loaded.id
    · subst hk
      have hsame : w.current.version = w.loaded.version := by
        by_contra hne
        exact hnot w.loaded.version w.current.version (if_neg hne)
      rw [Table.get?_update_same hp rfl]
      show some (written w.loaded.version w.current.version p.version) = some p.version
      rw [hsame, written_unchanged]
    · rw [Table.get?_update_of_ne _ hk, hp]
      rfl

variable {m : PoolMessage} {held : Uuid → Option Nat} {α : Type}

abbrev Guards (m : PoolMessage) (p : PoolProg α) (held : Uuid → Option Nat) : Prop :=
  poolVersions.Guarded m p (fun _ _ => True) held

theorem quiet_read {q : Db → α} : (PoolProg.read q).Only poolVersions.Quiet := only_op trivial

/-- A pool that is selected for update is locked, with the version that has been read. -/
theorem guards_lockedPool {poolId : Uuid} {f : IpPool → PoolProg α}
    (h : ∀ pool held, pool.id = poolId → held pool.id = some pool.version → Guards m (f pool) held) :
    Guards m (lockedPool poolId >>= f) held := by
  unfold lockedPool
  rw [bind_assoc]
  refine Versioned.guarded_lock fun db => Versioned.guarded_ofExcept fun pool hpool => ?_
  simp only [IpamService.lockedPool, bind_ok, orRaise_ok, raiseIf_ok, pure_ok] at hpool
  obtain ⟨stored, hstored, -, -, rfl⟩ := hpool
  have hid : stored.id = poolId := Table.get?_key hstored
  subst hid
  rw [if_pos (by rw [hstored]; rfl)]
  refine h stored _ rfl ?_
  rw [Function.update_self]
  show (db.ipam.pools.get? stored.id).map IpPool.version = some stored.version
  rw [hstored]
  rfl

/-- A commit that writes the next version of a pool that is locked. -/
theorem allows_next {w : PoolWrite} (hnext : w.current.version = w.loaded.version + 1)
    (hheld : held w.loaded.id = some w.loaded.version)
    (hcarried : ∀ k v, poolVersions.carried m = some (k, v) → k = w.loaded.id ∧ v = w.loaded.version) :
    poolVersions.Allows m held w := by
  intro k l a ha
  have hassigns : (if w.current.version = w.loaded.version then none
    else some (w.loaded.id, w.loaded.version, w.current.version)) = some (k, l, a) := ha
  split at hassigns
  · cases hassigns
  · cases hassigns
    exact ⟨hheld, hnext, hcarried⟩

theorem guards_updatePool {svc : IpamService} {poolId : Uuid} {payload : IpPoolUpdate} :
    Guards ⟨svc, .update poolId payload⟩ (updatePool svc poolId payload) held := by
  refine guards_lockedPool fun pool held hid hheld => Versioned.guarded_ofExcept fun _ hversion => ?_
  have hversion := not_not.mp (raiseIf_ok.mp hversion)
  refine Versioned.guarded_ofExcept fun network _ => Versioned.guarded_ofExcept fun _ _ => ?_
  refine Versioned.guarded_ofExcept fun _ _ => Versioned.guarded_quiet quiet_read fun known => ?_
  refine Versioned.guarded_ofExcept fun _ _ => Versioned.guarded_quiet quiet_read fun materialized => ?_
  refine Versioned.guarded_ofExcept fun _ _ => Versioned.guarded_quiet quiet_read fun exclusions => ?_
  refine Versioned.guarded_ofExcept fun _ _ => Versioned.guarded_quiet quiet_read fun overlaps => ?_
  refine Versioned.guarded_ofExcept fun _ _ => ?_
  refine Versioned.guarded_bind (fun _ _ => trivial) (Versioned.guarded_attempt ?_)
  refine ⟨allows_next rfl hheld fun k v hkv => ?_, fun r a _ => ?_⟩
  · cases hkv
    exact ⟨hid.symm, hversion.symm⟩
  · split <;> trivial

theorem guards_deletePool {svc : IpamService} {poolId : Uuid} {version : Nat} :
    Guards ⟨svc, .delete poolId version⟩ (deletePool svc poolId version) held := by
  refine guards_lockedPool fun pool held hid hheld => Versioned.guarded_ofExcept fun _ hversion => ?_
  have hversion := not_not.mp (raiseIf_ok.mp hversion)
  refine Versioned.guarded_quiet quiet_read fun unavailable => Versioned.guarded_quiet quiet_read fun active => ?_
  refine Versioned.guarded_ofExcept fun _ _ => ⟨allows_next rfl hheld fun k v hkv => ?_, fun _ => trivial⟩
  cases hkv
  exact ⟨hid.symm, hversion.symm⟩

theorem guarded_pools (m : PoolMessage) : Guards m (poolSchema.program m) (fun _ => none) := by
  obtain ⟨svc, request⟩ := m
  cases request with
  | update poolId payload => exact guards_updatePool
  | delete poolId version => exact guards_deletePool

end PveMaster.Pools
