import PveMaster.Ipam.Atomicity
import PveMaster.Ipam.Quarantine

/-! When a pool can be deleted.

`delete_pool` asks that every address of the pool is `AVAILABLE`. An address that
`reserve_address` has excluded is `DISABLED`, which no call ever takes back, so a pool that has
one cannot be deleted although nobody holds an address of it. -/
namespace PveMaster.Ipam
open IpamService

/-- Nobody holds an address of the pool, and no request that may still take one names it. -/
structure Unused (db : Db) (poolId : Uuid) : Prop where
  addresses : ∀ a ∈ db.ipam.addresses, a.poolId = poolId → a.state.held = false
  requests : ∀ r ∈ db.requests, r.ipPoolId = poolId →
    r.status ≠ .queued ∧ r.status ≠ .running ∧ r.status ≠ .manualReview

theorem activeRequests_none {db : Db} {poolId : Uuid} : (activeRequests db poolId).length = 0 ↔
    ∀ r ∈ db.requests, r.ipPoolId = poolId → r.status ≠ .queued ∧ r.status ≠ .running ∧ r.status ≠ .manualReview := by
  constructor
  · intro h r hr hpool
    have hnot := Table.select_empty h hr
    simpa [hpool, and_assoc] using hnot
  · intro h
    rw [List.length_eq_zero_iff]
    apply List.eq_nil_iff_forall_not_mem.mpr
    intro r hr
    obtain ⟨hmem, hp⟩ := Table.mem_select.mp hr
    simp only [Bool.and_eq_true, Bool.or_eq_true, beq_iff_eq] at hp
    obtain ⟨hqueued, hrunning, hreview⟩ := h r hmem hp.1
    tauto

theorem unavailableAddresses_none {t : IpamTables} {poolId : Uuid} : (unavailableAddresses t poolId).length = 0 ↔
    ∀ a ∈ t.addresses, a.poolId = poolId → a.state = .available := by
  constructor
  · intro h a ha hpool
    have hnot := Table.select_empty h ha
    simpa [hpool] using hnot
  · intro h
    rw [List.length_eq_zero_iff]
    apply List.eq_nil_iff_forall_not_mem.mpr
    intro a ha
    obtain ⟨hmem, hp⟩ := Table.mem_select.mp ha
    simp only [Bool.and_eq_true, beq_iff_eq, bne_iff_ne] at hp
    exact hp.2 (h a hmem hp.1)

/-- **When `delete_pool` succeeds**, for an active pool and its version. -/
theorem deletePool_iff (svc : IpamService) {db : Db} {pool : IpPool} (hpool : pool ∈ db.ipam.pools)
    (hactive : pool.isActive = true) : (svc.deletePool db pool.id pool.version).result = .ok () ↔
      (∀ a ∈ db.ipam.addresses, a.poolId = pool.id → a.state = .available) ∧
        ∀ r ∈ db.requests, r.ipPoolId = pool.id →
          r.status ≠ .queued ∧ r.status ≠ .running ∧ r.status ≠ .manualReview := by
  have hget : db.ipam.pools.get? pool.id = some pool := Table.get?_of_mem hpool
  have hlocked : lockedPool db.ipam pool.id = .ok pool := by
    simp [lockedPool, hget, hactive, orRaise, raiseIf, bind, Except.bind, pure, Except.pure]
  rw [← unavailableAddresses_none, ← activeRequests_none]
  unfold deletePool
  simp only [hlocked, raiseIf, bind, Except.bind, ne_eq, not_true_eq_false, if_false]
  by_cases hused : (unavailableAddresses db.ipam pool.id).length > 0 ∨ (activeRequests db pool.id).length > 0
  · rw [if_pos hused]
    constructor
    · intro hanswer
      cases hanswer
    · intro h
      omega
  · rw [if_neg hused]
    refine ⟨fun _ => by omega, fun _ => rfl⟩

/-- What is left of the pool. -/
theorem deletePool_closes {svc : IpamService} {db : Db} {poolId : Uuid} {version : Nat}
    (h : (svc.deletePool db poolId version).result = .ok ()) :
    ∃ p ∈ (svc.deletePool db poolId version).db.ipam.pools, p.id = poolId ∧ p.isActive = false := by
  unfold deletePool at h ⊢
  revert h
  refine Outcome.of_elim (P := fun o => o.result = .ok () → ∃ p ∈ o.db.ipam.pools, p.id = poolId ∧ p.isActive = false)
    (fun e h => by cases h) fun o ho _ => ?_
  simp only [bind_ok, raiseIf_ok, pure_ok] at ho
  obtain ⟨pool, hlock, -, -, -, -, rfl⟩ := ho
  obtain ⟨hget, -⟩ := lockedPool_ok hlock
  have hid : poolId = pool.id := by
    unfold lockedPool at hlock
    simp only [bind_ok, orRaise_ok, pure_ok] at hlock
    obtain ⟨p, hp, -, -, rfl⟩ := hlock
    exact (Table.get?_key hp).symm
  have hclosed : (db.ipam.pools.update pool.id closedPool).get? pool.id = some (closedPool pool) :=
    Table.get?_update_same hget rfl
  exact ⟨closedPool pool, Table.get?_mem hclosed, hid.symm, rfl⟩

/-- A closed pool stays closed. -/
theorem closed_move {t t' : IpamTables} {k : Uuid} (hm : Move t t') (h : ∃ p ∈ t.pools, p.id = k ∧ p.isActive = false) :
    ∃ p ∈ t'.pools, p.id = k ∧ p.isActive = false := by
  obtain ⟨p, hp, hid, hclosed⟩ := h
  have updated {j : Uuid} {f : IpPool → IpPool} (hf : ∀ q, (f q).id = q.id)
      (hkeeps : p.id = j → (f p).isActive = false) : ∃ q ∈ t.pools.update j f, q.id = k ∧ q.isActive = false := by
    refine ⟨Table.amend j f p, Table.mem_update.mpr ⟨p, hp, rfl⟩, ?_⟩
    by_cases hj : p.id = j
    · rw [Table.amend_of_key hj (hf p), hf]
      exact ⟨hid, hkeeps hj⟩
    · rw [Table.amend_of_ne f hj]
      exact ⟨hid, hclosed⟩
  cases hm with
  | openPool inserted => exact ⟨p, (Table.mem_insert inserted).mpr (Or.inl hp), hid, hclosed⟩
  | @editPool q f found active hsame =>
    have hne : p.id ≠ q.id := by
      intro he
      have hpq : p = q := Table.eq_of_key hp (Table.get?_mem found) he
      rw [hpq, active] at hclosed
      cases hclosed
    exact ⟨p, (Table.mem_update_of_get found hsame).mpr (Or.inl ⟨hp, hne⟩), hid, hclosed⟩
  | closePool => exact updated (fun _ => rfl) fun _ => rfl
  | materialise => exact updated (fun _ => rfl) fun _ => hclosed
  | disable | take | shift | free => exact ⟨p, hp, hid, hclosed⟩

theorem closed_moves {t t' : IpamTables} {k : Uuid} (hm : Moves t t')
    (h : ∃ p ∈ t.pools, p.id = k ∧ p.isActive = false) : ∃ p ∈ t'.pools, p.id = k ∧ p.isActive = false := by
  induction hm with
  | refl => exact h
  | tail _ hm ih => exact closed_move hm ih

theorem closed_run {db : Db} {k : Uuid} (hc : Consistent db.ipam)
    (h : ∃ p ∈ db.ipam.pools, p.id = k ∧ p.isActive = false) (actions : List IpamAction) :
    ∃ p ∈ (run db actions).ipam.pools, p.id = k ∧ p.isActive = false := by
  induction actions generalizing db with
  | nil => exact h
  | cons a rest ih =>
    have hmoves := act_moves hc a
    exact ih (hc.moves hmoves) (closed_moves hmoves h)

/-- Nobody ever holds an address of the pool again, whatever happens afterwards. -/
def Abandoned (db : Db) (poolId : Uuid) : Prop :=
  ∀ later, ∀ a ∈ (run db later).ipam.addresses, a.poolId = poolId → ∀ l, ¬ ActiveOn (run db later).ipam a l

/-- What the deletion of an active pool should be: it succeeds for a pool that is not used, and
only for such a pool, and from then on the pool is never used again. -/
structure Deletes (svc : IpamService) (db : Db) (pool : IpPool) : Prop where
  succeeds : Unused db pool.id → (svc.deletePool db pool.id pool.version).result = .ok ()
  unused : (svc.deletePool db pool.id pool.version).result = .ok () → Unused db pool.id
  abandoned : (svc.deletePool db pool.id pool.version).result = .ok () →
    Abandoned (svc.deletePool db pool.id pool.version).db pool.id

/-- **A pool that is not used can be deleted**, unless an address of it is excluded; in every
reachable state, and for any administrator. -/
theorem deletes_iff (db : Db) (actions : List IpamAction) (svc : IpamService) (pool : IpPool)
    (hpool : pool ∈ (run (fresh db) actions).ipam.pools) (hactive : pool.isActive = true) :
    Deletes svc (run (fresh db) actions) pool ↔ (Unused (run (fresh db) actions) pool.id →
      ∀ a ∈ (run (fresh db) actions).ipam.addresses, a.poolId = pool.id → a.state ≠ .disabled) := by
  have hc := consistent_run (consistent_fresh db) actions
  have hiff := deletePool_iff svc hpool hactive
  constructor
  · intro h hunused a ha hap hdisabled
    have havailable := (hiff.mp (h.succeeds hunused)).1 a ha hap
    rw [hdisabled] at havailable
    cases havailable
  · intro h
    constructor
    · intro hunused
      refine hiff.mpr ⟨fun a ha hap => ?_, hunused.requests⟩
      have hfree := hunused.addresses a ha hap
      have henabled := h hunused a ha hap
      cases hs : a.state with
      | available => rfl
      | disabled => exact absurd hs henabled
      | reserved | assigned | quarantined =>
        rw [hs] at hfree
        cases hfree
    · intro hok
      obtain ⟨haddresses, hrequests⟩ := hiff.mp hok
      refine ⟨fun a ha hap => ?_, hrequests⟩
      rw [haddresses a ha hap]
      rfl
    · intro hok later a ha hap l hl
      have hmoves : Moves (run (fresh db) actions).ipam
          (svc.deletePool (run (fresh db) actions) pool.id pool.version).db.ipam :=
        deletePool_moves pool.id pool.version
      have hc' := hc.moves hmoves
      obtain ⟨p, hp, hid, hclosed⟩ := closed_run hc' (deletePool_closes hok) later
      have hnone := (consistent_run hc' later).exclusive.inactive p hp hclosed a ha (hap.trans hid.symm) l hl.1
        hl.2.1
      rw [hl.2.2] at hnone
      cases hnone

/-- An address of the link-local network has been given to a workload, released, and approved for
another use once its quarantine was over. -/
def approvedRun : List IpamAction := assignedRun ++ [enterCall, approveCall]

/-- The pool, whose one row is `AVAILABLE` again, can be deleted. -/
theorem linkLocal_deletes :
    ((run (fresh sampleDb) approvedRun).ipam.addresses.rows.map fun a => (a.poolId, a.state)) = [(7, .available)] ∧
      Deletes root (run (fresh sampleDb) approvedRun) (movedOffset 3 linkLocalPool) := by
  have hrows : ∀ a ∈ (run (fresh sampleDb) approvedRun).ipam.addresses.rows, a.state ≠ .disabled := by decide +kernel
  have hiff := deletes_iff sampleDb approvedRun root (movedOffset 3 linkLocalPool) (Table.mem_rows.mp (by decide +kernel)) rfl
  exact ⟨by decide +kernel, hiff.mpr fun _ a ha _ => hrows a ha⟩

/-- With one excluded address the same pool, of which nobody holds anything, cannot be deleted. -/
theorem excluded_address_keeps : ¬ Deletes root (run (fresh .empty) linkLocalRun) linkLocalPool := by
  intro h
  have hunused : Unused (run (fresh .empty) linkLocalRun) linkLocalPool.id := by
    have hstates : ∀ a ∈ (run (fresh .empty) linkLocalRun).ipam.addresses.rows, a.state.held = false := by
      decide +kernel
    exact ⟨fun a ha _ => hstates a ha, fun r hr => absurd hr (Table.not_mem_empty r)⟩
  have hraises : Outcome.raised (root.deletePool (run (fresh .empty) linkLocalRun) linkLocalPool.id
      linkLocalPool.version) ≠ none := by
    decide +kernel
  exact hraises (by rw [Outcome.raised, h.succeeds hunused])

end PveMaster.Ipam
