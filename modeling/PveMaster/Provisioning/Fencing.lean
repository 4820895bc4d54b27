import PveMaster.Foundation.RelyGuarantee
import PveMaster.Provisioning.Shape

/-! Who may work on a request.

The lease of a run is looked at once, by `_claim`; every later write and every call to
Proxmox goes ahead whether or not it has passed. So a run that another has replaced is
fenced off as long as no run acts past its own lease (`inLease`), and one that was
stalled for longer acts on a request that is someone else's (`stalled_runner`). -/
namespace PveMaster.Fencing
open ProvisioningRunner

/-! ### The row of a request -/

section Row
variable (k : Uuid)

/-- The request has ended, so nobody claims it any more. -/
def Ended (db : Db) : Prop := ∃ r, db.requests.get? k = some r ∧ r.status.terminal = true

/-- The row names the runner `x`, whether or not that one's lease still lasts. -/
def Named (x : Uuid) (db : Db) : Prop := ∃ r, db.requests.get? k = some r ∧ r.runnerId = some x

/-- The request is run by `x` under a lease to `t`, as the row says. -/
def Own (x : Uuid) (t : Instant) (db : Db) : Prop :=
  ∃ r, db.requests.get? k = some r ∧ r.status = .running ∧ r.runnerId = some x ∧
    r.leaseExpiresAt = some t

/-- What the runner `x` can do to the row, as far as others know. -/
structure Allows (x : Uuid) (w w' : World) : Prop where
  clock : w.clock ≤ w'.clock
  ended : Ended k w.db → Ended k w'.db
  own : ∀ y t, y ≠ x → w.clock < t → Own k y t w.db → Own k y t w'.db
  named : ∀ y, y ≠ x → Named k y w'.db → Named k y w.db

/-- What the rest of the program can do to the row: create it. -/
structure Outside (w w' : World) : Prop where
  clock : w.clock ≤ w'.clock
  row : (w'.db.requests.get? k).map (fun r => (r.status, r.runnerId, r.leaseExpiresAt)) =
      (w.db.requests.get? k).map (fun r => (r.status, r.runnerId, r.leaseExpiresAt)) ∨
    w.db.requests.get? k = none ∧
      ∃ r, w'.db.requests.get? k = some r ∧ r.status = .queued ∧ r.runnerId = none

instance (k : Uuid) (w w' : World) : Decidable (Outside k w w') :=
  decidable_of_iff (w.clock ≤ w'.clock ∧
    ((w'.db.requests.get? k).map (fun r => (r.status, r.runnerId, r.leaseExpiresAt)) =
        (w.db.requests.get? k).map (fun r => (r.status, r.runnerId, r.leaseExpiresAt)) ∨
      w.db.requests.get? k = none ∧
        (w'.db.requests.get? k).any (fun r => r.status == .queued && r.runnerId == none) = true)) <| by
    rw [Option.any_eq_true]
    simp only [Bool.and_eq_true, beq_iff_eq]
    exact ⟨fun ⟨clock, row⟩ => ⟨clock, row⟩, fun h => ⟨h.clock, h.row⟩⟩

end Row

variable {k : Uuid}

theorem Own.not_ended {x : Uuid} {t : Instant} {db : Db} (h : Own k x t db) : ¬ Ended k db := by
  rintro ⟨r, hr, hterminal⟩
  obtain ⟨r', hr', hstatus, -⟩ := h
  rw [hr] at hr'
  cases hr'
  rw [hstatus] at hterminal
  cases hterminal

theorem Own.named {x y : Uuid} {t : Instant} {db : Db} (h : Own k x t db) (h' : Named k y db) :
    y = x := by
  obtain ⟨r, hr, -, hrunner, -⟩ := h
  obtain ⟨r', hr', hrunner'⟩ := h'
  rw [hr] at hr'
  cases hr'
  exact Option.some.inj (hrunner'.symm.trans hrunner)

/-- A request that can be claimed has not ended. -/
theorem claimable_open {db : Db} {r : ProvisioningRequest} {time : Instant}
    (hr : db.requests.get? k = some r) (hclaimable : r.claimable time = true) : ¬ Ended k db := by
  rintro ⟨r', hr', hterminal⟩
  rw [hr] at hr'
  cases hr'
  unfold ProvisioningRequest.claimable at hclaimable
  cases hs : r.status <;> rw [hs] at hclaimable hterminal <;>
    simp_all [ProvisioningStatus.terminal]

/-- A request that can be claimed is not held under a lease. -/
theorem claimable_passed {db : Db} {r : ProvisioningRequest} {time t : Instant} {x : Uuid}
    (hr : db.requests.get? k = some r) (hclaimable : r.claimable time = true)
    (hown : Own k x t db) : t ≤ time := by
  obtain ⟨r', hr', hstatus, hrunner, hlease⟩ := hown
  rw [hr] at hr'
  cases hr'
  unfold ProvisioningRequest.claimable at hclaimable
  rw [hstatus, hrunner, hlease] at hclaimable
  simpa using hclaimable

/-! ### What a run knows of its request -/

/-- How the request a run has assigned to differs from the one it loaded. -/
structure Drift (l c : ProvisioningRequest) : Prop where
  id : c.id = l.id
  status : c.status = l.status ∨ c.status.terminal = true
  runner : c.runnerId = l.runnerId ∨ c.runnerId = none

theorem Drift.refl (l : ProvisioningRequest) : Drift l l := ⟨rfl, Or.inl rfl, Or.inl rfl⟩

theorem Drift.edit {l c : ProvisioningRequest} (h : Drift l c) (settings : Settings) (e : ProvEdit) :
    Drift l (e.onRequest settings c) := by
  refine ⟨(onRequest_id settings e c).trans h.id, ?_, ?_⟩
  · rcases onRequest_status settings e c with he | he
    · rw [he]
      exact h.status
    · exact Or.inr he
  · rcases onRequest_runner settings e c with he | he
    · rw [he]
      exact h.runner
    · exact Or.inr he

/-- The session holds its request as it has loaded it, changed as a run changes it, or nothing. -/
inductive Held (θ : ProvState) : Prop
  | nothing (loaded : θ.loaded.request = none) (current : θ.current.request = none)
  | row {l c : ProvisioningRequest} (loaded : θ.loaded.request = some l)
      (current : θ.current.request = some c) (id : l.id = θ.requestId) (drift : Drift l c)

theorem Held.assign {θ : ProvState} (h : Held θ) (settings : Settings) (e : ProvEdit) :
    Held (θ.assign settings e) := by
  cases h with
  | nothing loaded current =>
    refine .nothing loaded ?_
    show θ.current.request.map _ = none
    rw [current]
    rfl
  | row loaded current id drift =>
    refine .row loaded ?_ id (drift.edit settings e)
    show θ.current.request.map _ = _
    rw [current]
    rfl

theorem Held.saved {θ : ProvState} (h : Held θ) : Held θ.saved := by
  cases h with
  | nothing loaded current => exact .nothing current current
  | row loaded current id drift => exact .row current current (drift.id.trans id) (.refl _)

theorem Held.load (θ : ProvState) (db : Db) : Held (loadRequest θ db) := by
  cases hr : db.requests.get? θ.requestId with
  | none => exact .nothing hr hr
  | some r => exact .row hr hr (Table.get?_key hr) (.refl r)

/-- What a run knows of the row of its request, after its claim. -/
structure Knows (k : Uuid) (θ : ProvState) (w : World) : Prop where
  ended : θ.ended = true → Ended k w.db
  own : ∀ t, θ.lease = some t → w.clock < t → Ended k w.db ∨
    Own k θ.runnerId t w.db ∧ ∃ l, θ.loaded.request = some l ∧ l.status = .running ∧
      l.runnerId = some θ.runnerId ∧ l.leaseExpiresAt = some t

/-- A run that has not been told to give its request up. -/
def Faithful (θ : ProvState) : Prop :=
  ∀ l c, θ.loaded.request = some l → θ.current.request = some c →
    c.runnerId = l.runnerId ∨ c.status.terminal = true

/-- A run that has given up its request: what it holds has no lease any more. -/
def Spent (θ : ProvState) : Prop := ∀ c, θ.current.request = some c → c.leaseExpiresAt = none

/-- Whether a run acts in time: its lease has not passed, or it has ended its request itself. -/
def inTime (θ : ProvState) (w : World) : Bool :=
  θ.ended || θ.lease.any (fun t => decide (w.clock < t))

/-! ### A commit -/

section Merge
variable {l c r : ProvisioningRequest}

theorem merge_terminal (h : Drift l c) (hr : r.status.terminal = true) :
    (ProvisioningRequest.merge l c r).status.terminal = true := by
  show (written l.status c.status r.status).terminal = true
  unfold written
  split
  · exact hr
  · next hne => exact h.status.resolve_left hne

theorem merge_runner (h : Drift l c) : (ProvisioningRequest.merge l c r).runnerId = r.runnerId ∨
    (ProvisioningRequest.merge l c r).runnerId = none := by
  show written l.runnerId c.runnerId r.runnerId = _ ∨ written l.runnerId c.runnerId r.runnerId = _
  unfold written
  split
  · exact Or.inl rfl
  · next hne => exact Or.inr (h.runner.resolve_left hne)

/-- Over a row as it was loaded, a commit writes what the run holds. -/
theorem merge_own (hstatus : r.status = l.status) (hrunner : r.runnerId = l.runnerId)
    (hlease : r.leaseExpiresAt = l.leaseExpiresAt) :
    (ProvisioningRequest.merge l c r).status = c.status ∧
      (ProvisioningRequest.merge l c r).runnerId = c.runnerId ∧
      (ProvisioningRequest.merge l c r).leaseExpiresAt = c.leaseExpiresAt := by
  refine ⟨?_, ?_, ?_⟩
  · show written l.status c.status r.status = _
    rw [hstatus, written_fresh]
  · show written l.runnerId c.runnerId r.runnerId = _
    rw [hrunner, written_fresh]
  · show written l.leaseExpiresAt c.leaseExpiresAt r.leaseExpiresAt = _
    rw [hlease, written_fresh]

end Merge

/-- A change that leaves the row as it is. -/
theorem allows_same {x : Uuid} {w w' : World} (clock : w.clock ≤ w'.clock)
    (row : w'.db.requests.get? k = w.db.requests.get? k) : Allows k x w w' where
  clock := clock
  ended h := by unfold Ended; rw [row]; exact h
  own y t _ _ h := by unfold Own; rw [row]; exact h
  named y _ h := by unfold Named at h; rw [row] at h; exact h

/-- **A commit in time** does what others allow for, and the run knows what it did. -/
theorem commit_allows {θ : ProvState} {w w' : World} {db : Db} (held : Held θ)
    (hk : θ.requestId = k) (knows : Knows k θ w) (mode : Faithful θ ∨ Spent θ)
    (htime : inTime θ w = true) (hrequests : db.requests = w.db.requests)
    (hdb : w'.db = θ.flush db) (hclock : w'.clock = w.clock) :
    Allows k θ.runnerId w w' ∧ Knows k θ.saved w' := by
  have hflush := flush_request θ db k
  rw [← hdb, hrequests] at hflush
  cases held with
  | nothing loaded current =>
    rw [loaded] at hflush
    refine ⟨allows_same hclock.ge hflush, fun hended => ?_, fun t ht => ?_⟩
    · have hended' : (θ.ended || θ.current.request.any (·.status.terminal)) = true := hended
      rw [current, Option.any_none, Bool.or_false] at hended'
      obtain ⟨r, hr, hterminal⟩ := knows.ended hended'
      exact ⟨r, hflush.trans hr, hterminal⟩
    · have ht' : θ.current.request.bind ProvisioningRequest.leaseExpiresAt = some t := ht
      rw [current] at ht'
      cases ht'
  | @row l c loaded current id drift =>
    rw [loaded, current] at hflush
    simp only [if_pos (id.trans hk)] at hflush
    have hcases : Ended k w.db ∨ ∃ t, Own k θ.runnerId t w.db ∧ l.status = .running ∧
        l.runnerId = some θ.runnerId ∧ l.leaseExpiresAt = some t := by
      unfold inTime at htime
      rw [Bool.or_eq_true] at htime
      rcases htime with hended | hlive
      · exact Or.inl (knows.ended hended)
      · obtain ⟨t, hlease, hlt⟩ := (Option.any_eq_true _ _).mp hlive
        rcases knows.own t hlease (of_decide_eq_true hlt) with hended | ⟨hown, l', hl', hrest⟩
        · exact Or.inl hended
        · rw [loaded] at hl'
          cases hl'
          exact Or.inr ⟨t, hown, hrest⟩
    rcases hcases with ⟨r, hr, hterminal⟩ | ⟨t, hown, hstatus, hrunner, hlease⟩
    · -- the request has ended, and stays so
      rw [hr, Option.map_some] at hflush
      have hended : Ended k w'.db := ⟨_, hflush, merge_terminal drift hterminal⟩
      refine ⟨⟨hclock.ge, fun _ => hended, fun y t _ _ h => ?_, fun y _ h => ?_⟩,
        fun _ => hended, fun _ _ _ => Or.inl hended⟩
      · exact absurd ⟨r, hr, hterminal⟩ h.not_ended
      · obtain ⟨r', hr', hnamed⟩ := h
        rw [hflush] at hr'
        cases hr'
        rcases merge_runner (r := r) drift with he | he
        · exact ⟨r, hr, he.symm.trans hnamed⟩
        · rw [he] at hnamed
          cases hnamed
    · -- the row is as it was loaded
      have hrow := hown
      obtain ⟨r, hr, hrstatus, hrrunner, hrlease⟩ := hrow
      rw [hr, Option.map_some] at hflush
      obtain ⟨hstatus', hrunner', hlease'⟩ := merge_own (c := c) (hrstatus.trans hstatus.symm)
        (hrrunner.trans hrunner.symm) (hrlease.trans hlease.symm)
      have hcur : θ.saved.loaded.request = some c := current
      refine ⟨⟨hclock.ge, fun h => absurd h hown.not_ended, fun y t' hy _ h => ?_, fun y hy h => ?_⟩,
        fun hended => ?_, fun t' ht' hlive => ?_⟩
      · exact absurd (h.named ⟨r, hr, hrrunner⟩) (Ne.symm hy)
      · obtain ⟨r', hr', hnamed⟩ := h
        rw [hflush] at hr'
        cases hr'
        rw [hrunner'] at hnamed
        rcases drift.runner with he | he
        · rw [he, hrunner] at hnamed
          exact absurd (Option.some.inj hnamed).symm hy
        · rw [he] at hnamed
          cases hnamed
      · have hended' : (θ.ended || θ.current.request.any (·.status.terminal)) = true := hended
        rw [current, Option.any_some, Bool.or_eq_true] at hended'
        rcases hended' with hbefore | hterminal
        · exact absurd (knows.ended hbefore) hown.not_ended
        · exact ⟨_, hflush, by rw [hstatus']; exact hterminal⟩
      · have ht : c.leaseExpiresAt = some t' := by
          have : θ.current.request.bind ProvisioningRequest.leaseExpiresAt = some t' := ht'
          rwa [current] at this
        rcases drift.status with hsame | hterminal
        · right
          have hkept : c.runnerId = l.runnerId := by
            rcases mode with hfaithful | hspent
            · rcases hfaithful l c loaded current with h | h
              · exact h
              · rw [hsame, hstatus] at h
                cases h
            · rw [hspent c current] at ht
              cases ht
          have hrunning : c.status = .running := hsame.trans hstatus
          have hmine : c.runnerId = some θ.runnerId := hkept.trans hrunner
          exact ⟨⟨_, hflush, hstatus'.trans hrunning, hrunner'.trans hmine, hlease'.trans ht⟩,
            c, hcur, hrunning, hmine, ht⟩
        · exact Or.inl ⟨_, hflush, by rw [hstatus']; exact hterminal⟩

/-! ### The stages of a run -/

/-- A run that has written nothing and read no row. -/
structure Blank (θ : ProvState) : Prop where
  ended : θ.ended = false
  lease : θ.lease = none
  loaded : θ.loaded.request = none
  current : θ.current.request = none

theorem Blank.held {θ : ProvState} (h : Blank θ) : Held θ := .nothing h.loaded h.current

section Programs
variable (rt : Runtime)

/-- `run` once it has its request. -/
def runLoaded : ProvProg Unit :=
  .node .load fun _ => Prog.always (runClaimed rt) ProvisioningRunner.releaseClaim

/-- What `run` goes on with once its claim has been answered. -/
def afterClaim : Except Exn Bool → ProvProg Unit
  | .ok true => runLoaded rt
  | .ok false => .done (.ok ())
  | .error e => .done (.error e)

/-- `run` once it has read the clock. -/
def claimAt (time : Instant) : ProvProg Unit := .node (.claim time) (afterClaim rt)

theorem run_eq : run rt = .node .now (claimAt rt) := by
  have hafter (time : Instant) : ((Prog.perform (.claim time) : ProvProg Bool) >>= fun b =>
      if b = true then (Prog.op .load >>= fun _ => Prog.always (runClaimed rt) ProvisioningRunner.releaseClaim)
      else pure ()) = claimAt rt time := by
    show Prog.node _ _ = Prog.node _ _
    congr 1
    funext r
    rcases r with e | b
    · rfl
    · cases b <;> rfl
  show Prog.node _ _ = Prog.node _ _
  congr 1
  funext time
  exact hafter time

end Programs

/-- What the rest of a working run performs, and what it may still write. -/
def Shape (θ : ProvState) (p : ProvProg Unit) : Prop :=
  p.OnlyUntil Ordinary Revoking Plain ∧ Faithful θ ∨ p.Only Plain ∧ Spent θ

/-- Where a run of the request stands, from its first operation to its last. What it knows of the
row depends on it. -/
inductive Stage (rt : Runtime) (k : Uuid) (θ : ProvState) (p : ProvProg Unit) (w : World) : Prop
  | waiting (blank : Blank θ) (at_run : p = run rt)
  | claiming {time : Instant} (blank : Blank θ) (past : time ≤ w.clock) (at_claim : p = claimAt rt time)
  | refused {r : Except Exn Unit} (blank : Blank θ) (at_end : p = .done r)
  | loading {t : Instant} (fresh : θ.ended = false) (lease : θ.lease = some t)
      (own : w.clock < t → Own k θ.runnerId t w.db) (at_load : p = runLoaded rt)
  | working (shape : Shape θ p) (knows : Knows k θ w)

/-- What a process knows: its session is in order, and if it is about the request, where it
stands. -/
structure Local (rt : Runtime) (k : Uuid) (θ : ProvState) (p : ProvProg Unit) (w : World) : Prop where
  held : Held θ
  stage : θ.requestId = k → Stage rt k θ p w

/-! ### Interference -/

theorem Knows.stable {θ : ProvState} {w w' : World} {x : Uuid} (h : Knows k θ w)
    (hx : θ.runnerId ≠ x) (ha : Allows k x w w') : Knows k θ w' := by
  refine ⟨fun hended => ha.ended (h.ended hended), fun t ht hlive => ?_⟩
  have hlive' : w.clock < t := lt_of_le_of_lt ha.clock hlive
  rcases h.own t ht hlive' with hended | ⟨hown, hl⟩
  · exact Or.inl (ha.ended hended)
  · exact Or.inr ⟨ha.own _ t hx hlive' hown, hl⟩

theorem Local.stable {rt : Runtime} {θ : ProvState} {p : ProvProg Unit} {w w' : World} {x : Uuid}
    (h : Local rt k θ p w) (hx : θ.runnerId ≠ x) (ha : Allows k x w w') : Local rt k θ p w' := by
  refine ⟨h.held, fun hk => ?_⟩
  cases h.stage hk with
  | waiting blank at_run => exact .waiting blank at_run
  | claiming blank past at_claim => exact .claiming blank (past.trans ha.clock) at_claim
  | refused blank at_end => exact .refused blank at_end
  | loading fresh lease own at_load =>
    exact .loading fresh lease (fun hlive => ha.own _ _ hx (lt_of_le_of_lt ha.clock hlive)
      (own (lt_of_le_of_lt ha.clock hlive))) at_load
  | working shape knows => exact .working shape (knows.stable hx ha)

/-- The rest of the program leaves alone what every run knows. -/
theorem Outside.allows {w w' : World} (h : Outside k w w') (x : Uuid) : Allows k x w w' := by
  rcases h.row with hsame | ⟨hnone, r, hr, hqueued, hrunner⟩
  · have back {r' : ProvisioningRequest} (hr' : w'.db.requests.get? k = some r') :
        ∃ r, w.db.requests.get? k = some r ∧ r.status = r'.status ∧ r.runnerId = r'.runnerId ∧
          r.leaseExpiresAt = r'.leaseExpiresAt := by
      rw [hr', Option.map_some] at hsame
      obtain ⟨r, hr, he⟩ := Option.map_eq_some_iff.mp hsame.symm
      simp only [Prod.mk.injEq] at he
      exact ⟨r, hr, he⟩
    have forth {r : ProvisioningRequest} (hr : w.db.requests.get? k = some r) :
        ∃ r', w'.db.requests.get? k = some r' ∧ r'.status = r.status ∧ r'.runnerId = r.runnerId ∧
          r'.leaseExpiresAt = r.leaseExpiresAt := by
      rw [hr, Option.map_some] at hsame
      obtain ⟨r', hr', he⟩ := Option.map_eq_some_iff.mp hsame
      simp only [Prod.mk.injEq] at he
      exact ⟨r', hr', he⟩
    refine ⟨h.clock, fun ⟨r, hr, hterminal⟩ => ?_, fun y t _ _ ⟨r, hr, hown⟩ => ?_,
      fun y _ ⟨r', hr', hnamed⟩ => ?_⟩
    · obtain ⟨r', hr', hstatus, -⟩ := forth hr
      exact ⟨r', hr', by rw [hstatus]; exact hterminal⟩
    · obtain ⟨r', hr', hstatus, hrunner, hlease⟩ := forth hr
      exact ⟨r', hr', hstatus.trans hown.1, hrunner.trans hown.2.1, hlease.trans hown.2.2⟩
    · obtain ⟨r, hr, -, hrunner, -⟩ := back hr'
      exact ⟨r, hr, hrunner.trans hnamed⟩
  · refine ⟨h.clock, fun ⟨r', hr', _⟩ => ?_, fun y t _ _ ⟨r', hr', _⟩ => ?_,
      fun y _ ⟨r', hr', hnamed⟩ => ?_⟩
    · rw [hnone] at hr'
      cases hr'
    · rw [hnone] at hr'
      cases hr'
    · rw [hr] at hr'
      cases hr'
      rw [hrunner] at hnamed
      cases hnamed

/-! ### One operation -/

section Step
variable {settings : Settings} {θ θ' : ProvState} {db db' : Db} {ρ : Type} {o : ProvOp ρ}

theorem effect_held (h : ProvEffect settings θ db o θ' db') (held : Held θ) :
    Held θ' ∧ θ'.requestId = θ.requestId ∧ θ'.runnerId = θ.runnerId := by
  have same {θ₁ : ProvState} (hl : θ₁.loaded.request = θ.loaded.request)
      (hc : θ₁.current.request = θ.current.request) (hid : θ₁.requestId = θ.requestId) : Held θ₁ := by
    cases held with
    | nothing loaded current => exact .nothing (hl.trans loaded) (hc.trans current)
    | row loaded current id drift => exact .row (hl.trans loaded) (hc.trans current) (id.trans hid.symm) drift
  cases h with
  | @assigned e edits => exact ⟨held.assign settings e, rfl, rfl⟩
  | @failed e edits =>
    refine ⟨?_, rfl, rfl⟩
    cases held.assign settings e with
    | nothing loaded current => exact .nothing loaded current
    | row loaded current id drift => exact .row loaded current id drift
  | @committed e _ edits commits live writes => exact ⟨(held.assign settings e).saved, rfl, rfl⟩
  | claimed claims found claimable => exact ⟨same rfl rfl rfl, rfl, rfl⟩
  | loaded loads => exact ⟨.load θ db, rfl, rfl⟩
  | stepsLoaded => exact ⟨same rfl rfl rfl, rfl, rfl⟩
  | released => exact ⟨same rfl rfl rfl, rfl, rfl⟩

/-- The runs of other requests leave the row. -/
theorem effect_elsewhere (h : ProvEffect settings θ db o θ' db') (held : Held θ)
    (hk : θ.requestId ≠ k) : db'.requests.get? k = db.requests.get? k := by
  cases h with
  | @committed e db₁ edits commits live writes =>
    rw [flush_request, writes.requests]
    cases held.assign settings e with
    | nothing loaded current => rw [loaded]
    | @row l c loaded current id drift =>
      have hne : l.id ≠ k := fun he => hk (id.symm.trans he)
      rw [loaded, current]
      simp only [if_neg hne]
  | claimed claims found claimable => exact Table.get?_update_of_ne _ (Ne.symm hk)
  | released => exact Table.get?_update_of_ne _ (Ne.symm hk)
  | _ => rfl

theorem not_opening (h : o.opClass ≠ .opening) : o.claims = none ∧ o.loads = false := by
  cases o with
  | claim time => exact absurd rfl h
  | load => exact absurd rfl h
  | _ => exact ⟨rfl, rfl⟩

theorem edits_not_revoked (h : o.opClass ≠ .revoking) {e : ProvEdit} (he : o.edits e) :
    e ≠ .revoked := by
  rintro rfl
  cases o with
  | assign e =>
    cases he
    exact h rfl
  | commit e audit =>
    cases he
    exact h rfl
  | selectTarget memory disk => rcases he with he | ⟨_, he⟩ <;> cases he
  | assignOrganization actor => rcases he with he | ⟨_, he⟩ <;> cases he
  | recordPartialWorkload => rcases he with he | ⟨_, he⟩ <;> cases he
  | releaseNodeCapacity => rcases he with he | he <;> cases he
  | _ => cases he

theorem edits_revoked (h : Revoking o) {e : ProvEdit} (he : o.edits e) : e = .revoked := by
  have opClass_eq {e : ProvEdit} (h : e.opClass = .revoking) : e = .revoked := by
    cases e with
    | revoked => rfl
    | _ => cases h
  cases o with
  | assign e' =>
    cases he
    exact opClass_eq h
  | commit e' audit =>
    cases he
    exact opClass_eq h
  | call r =>
    have hr : r.opClass = .revoking := h
    cases r with
    | configureQemu node vmid values =>
      cases hv : values.any (fun v => v.1 == "ipconfig0") <;>
        simp [Request.opClass, hv] at hr
    | _ => cases hr
  | _ => cases h

/-- An assignment that renews no lease. -/
theorem onRequest_lease {e : ProvEdit} (h : e.opClass ≠ .renewing) {c : ProvisioningRequest}
    (hc : c.leaseExpiresAt = none) : (e.onRequest settings c).leaseExpiresAt = none := by
  cases e with
  | stepStarted | stepSucceeded | leaseTouched => exact absurd rfl h
  | passwordCleared now => exact (clearInitialPassword_keeps now c).2.2.2.trans hc
  | settled review error finished cleared => exact (clearInitialPassword_keeps cleared _).2.2.2
  | completed finished => rfl
  | revoked => rfl
  | _ => exact hc

theorem edits_plain (h : Plain o) {e : ProvEdit} (he : o.edits e) : e.opClass ≠ .renewing := by
  cases o with
  | assign e' =>
    cases he
    rw [show e.opClass = .plain from h]
    nofun
  | commit e' audit =>
    cases he
    rw [show e.opClass = .plain from h]
    nofun
  | selectTarget memory disk => rcases he with he | ⟨_, he⟩ <;> rw [he] <;> nofun
  | assignOrganization actor => rcases he with he | ⟨_, he⟩ <;> rw [he] <;> nofun
  | recordPartialWorkload => rcases he with he | ⟨_, he⟩ <;> rw [he] <;> nofun
  | releaseNodeCapacity => rcases he with he | he <;> rw [he] <;> nofun
  | _ => cases he; nofun

theorem Faithful.assign (h : Faithful θ) {e : ProvEdit} (he : e ≠ .revoked) :
    Faithful (θ.assign settings e) := by
  intro l c hl hc
  obtain ⟨c₀, hc₀, rfl⟩ := Option.map_eq_some_iff.mp hc
  rcases h l c₀ hl hc₀ with hsame | hterminal
  · cases e with
    | revoked => exact absurd rfl he
    | passwordCleared now => exact Or.inl ((clearInitialPassword_keeps now c₀).2.2.1.trans hsame)
    | settled review error finished cleared =>
      right
      show (clearInitialPassword cleared _).status.terminal = true
      rw [(clearInitialPassword_keeps cleared _).2.1]
      cases review <;> rfl
    | completed finished => exact Or.inr rfl
    | _ => exact Or.inl hsame
  · rcases onRequest_status settings e c₀ with hs | hs
    · rw [hs]
      exact Or.inr hterminal
    · exact Or.inr hs

theorem Spent.assign (h : Spent θ) {e : ProvEdit} (he : e.opClass ≠ .renewing) :
    Spent (θ.assign settings e) := by
  intro c hc
  obtain ⟨c₀, hc₀, rfl⟩ := Option.map_eq_some_iff.mp hc
  exact onRequest_lease he (h c₀ hc₀)

theorem spent_revoked : Spent (θ.assign settings .revoked) := by
  intro c hc
  obtain ⟨c₀, -, rfl⟩ := Option.map_eq_some_iff.mp hc
  rfl

/-- What the next operation of a working run may be, and what comes after it. -/
theorem Shape.next (settings : Settings) {k : ρ → ProvProg Unit} (h : Shape θ (.node o k)) :
    o.claims = none ∧ o.loads = false ∧
      ∀ e, o.edits e → ∀ r, Shape (θ.assign settings e) (k r) := by
  rcases h with ⟨⟨ho, hk⟩ | ⟨ho, hk⟩, hmode⟩ | ⟨⟨ho, hk⟩, hmode⟩
  · obtain ⟨hclaims, hloads⟩ := not_opening ho.1
    exact ⟨hclaims, hloads, fun e he r => Or.inl ⟨hk r, hmode.assign (edits_not_revoked ho.2 he)⟩⟩
  · obtain ⟨hclaims, hloads⟩ := not_opening (o := o) (by rw [show o.opClass = .revoking from ho]; nofun)
    refine ⟨hclaims, hloads, fun e he r => Or.inr ⟨hk r, ?_⟩⟩
    rw [edits_revoked ho he]
    exact spent_revoked
  · obtain ⟨hclaims, hloads⟩ := not_opening (o := o) (by rw [show o.opClass = .plain from ho]; nofun)
    exact ⟨hclaims, hloads, fun e he r => Or.inr ⟨hk r, hmode.assign (edits_plain ho he)⟩⟩

theorem Shape.saved {p : ProvProg Unit} (h : Shape θ p) : Shape θ.saved p := by
  rcases h with ⟨hp, -⟩ | ⟨hp, hspent⟩
  · refine Or.inl ⟨hp, fun l c hl hc => ?_⟩
    have hl' : θ.current.request = some l := hl
    rw [show θ.current.request = some c from hc] at hl'
    cases hl'
    exact Or.inl rfl
  · exact Or.inr ⟨hp, hspent⟩

end Step

/-! ### The team of all runs -/

/-- Whether an operation changes something for the request: a commit, or a call that asks
Proxmox to change something. -/
def acts {ρ : Type} : ProvOp ρ → Bool
  | .call r => r.mutating
  | o => o.commits

theorem acts_commits {ρ : Type} {o : ProvOp ρ} (h : o.commits = true) : acts o = true := by
  cases o with
  | call r => cases h
  | _ => exact h

/-- Whether the next operation of a process acts on the request: it writes a row of it, or changes
something at Proxmox for it. -/
def acting (k : Uuid) (θ : ProvState) : ProvProg Unit → Bool
  | .node o _ => decide (θ.requestId = k) && acts o
  | .done _ => false

/-- **Every run acts in time**: no commit and no mutating call for the request comes after
the run's own lease has passed. -/
def inLease (k : Uuid) : Conditions Exn ProvOp ProvState World Input ProvMessage where
  step θ p _ w := acting k θ p = true → inTime θ w = true
  env w w' := Outside k w w'

section Team
variable {rt : Runtime} {θ θ' : ProvState} {w w' : World} {ρ : Type} {o : ProvOp ρ}
  {rest : ρ → ProvProg Unit} {i : Input} {r : ρ}

/-- What a claim comes to. -/
theorem claim_exec {settings : Settings} {time : Instant} {r : Except Exn Bool}
    (h : (ProvOp.claim time).exec settings i θ w = some (θ', w', r)) :
    (θ' = θ ∧ w' = w ∧ r ≠ .ok true) ∨
    ∃ row, w.db.requests.get? θ.requestId = some row ∧ row.claimable time = true ∧ r = .ok true ∧
      i.reject = none ∧ θ' = { θ with lease := some (settings.leaseDeadline time) } ∧
      w' = w.setDb { w.db with
        requests := w.db.requests.update θ.requestId (claimed settings time θ.runnerId) } := by
  have hclaim : claim settings time i θ w = (θ', w', r) := Option.some.inj h
  unfold claim at hclaim
  split at hclaim
  · cases hclaim
    exact Or.inl ⟨rfl, rfl, nofun⟩
  · next row hrow =>
    split at hclaim
    · next hclaimable =>
      split at hclaim
      · cases hclaim
        exact Or.inl ⟨rfl, rfl, nofun⟩
      · next hreject =>
        cases hclaim
        exact Or.inr ⟨row, hrow, hclaimable, rfl, hreject, rfl, rfl⟩
    · cases hclaim
      exact Or.inl ⟨rfl, rfl, nofun⟩

/-- The claim of a run: nobody else held the request, and the run holds it now. -/
theorem claim_step {settings : Settings} {time : Instant} {row : ProvisioningRequest}
    (past : time ≤ w.clock) (hrow : w.db.requests.get? k = some row)
    (hclaimable : row.claimable time = true)
    (hw : w' = w.setDb { w.db with
      requests := w.db.requests.update k (claimed settings time θ.runnerId) }) :
    Allows k θ.runnerId w w' ∧ Own k θ.runnerId (settings.leaseDeadline time) w'.db := by
  have hopen := claimable_open hrow hclaimable
  have hrow' : w'.db.requests.get? k = some (claimed settings time θ.runnerId row) := by
    rw [hw]
    exact Table.get?_update_same hrow rfl
  have hclock : w'.clock = w.clock := by rw [hw]; rfl
  refine ⟨⟨hclock.ge, fun h => absurd h hopen, fun y t _ hlive h => ?_, fun y hy ⟨r, hr, hnamed⟩ => ?_⟩,
    ⟨_, hrow', rfl, rfl, rfl⟩⟩
  · have hpassed := claimable_passed hrow hclaimable h
    exact absurd (lt_of_lt_of_le hlive (hpassed.trans past)) (lt_irrefl _)
  · rw [hrow'] at hr
    cases hr
    exact absurd (Option.some.inj hnamed).symm hy

theorem released_allows (hclock : w'.clock = w.clock)
    (hdb : w'.db = { w.db with requests := w.db.requests.update k (released θ.runnerId) }) :
    Allows k θ.runnerId w w' := by
  have hid (r : ProvisioningRequest) : (released θ.runnerId r).id = r.id := by
    unfold released
    split <;> rfl
  have hrow : w'.db.requests.get? k = (w.db.requests.get? k).map (released θ.runnerId) := by
    rw [hdb]
    exact Table.get?_update_self _ _ hid
  refine ⟨hclock.ge, fun ⟨r, hr, hterminal⟩ => ⟨r, ?_, hterminal⟩,
    fun y t hy _ ⟨r, hr, hstatus, hrunner, hlease⟩ => ⟨r, ?_, hstatus, hrunner, hlease⟩,
    fun y _ ⟨r', hr', hnamed⟩ => ?_⟩
  · rw [hrow, hr, Option.map_some]
    unfold released
    rw [if_neg]
    intro h
    simp only [Bool.and_eq_true, beq_iff_eq] at h
    rw [h.2] at hterminal
    cases hterminal
  · rw [hrow, hr, Option.map_some]
    unfold released
    rw [if_neg]
    intro h
    simp only [Bool.and_eq_true, beq_iff_eq] at h
    exact hy (Option.some.inj (hrunner.symm.trans h.1))
  · rw [hrow] at hr'
    obtain ⟨r, hr, rfl⟩ := Option.map_eq_some_iff.mp hr'
    refine ⟨r, hr, ?_⟩
    unfold released at hnamed
    split at hnamed
    · cases hnamed
    · exact hnamed

/-- One operation of a working run. -/
theorem working_step (hk : θ.requestId = k) (held : Held θ) (shape : Shape θ (.node o rest))
    (knows : Knows k θ w) (htime : acting k θ (.node o rest) = true → inTime θ w = true)
    (hstep : ProvStep rt.settings o i θ w θ' w') :
    Allows k θ.runnerId w w' ∧ Stage rt k θ' (rest r) w' := by
  obtain ⟨hclaims, hloads, hafter⟩ := shape.next rt.settings
  have hsame {θ₁ : ProvState} (hdb : w'.db = w.db) (hl : θ₁.loaded.request = θ.loaded.request)
      (hlease : θ₁.lease = θ.lease) (hrunner : θ₁.runnerId = θ.runnerId)
      (hended : θ₁.ended = θ.ended) : Knows k θ₁ w' := by
    refine ⟨fun h => ?_, fun t ht hlive => ?_⟩
    · rw [hended] at h
      rw [hdb]
      exact knows.ended h
    · rw [hlease] at ht
      rw [hstep.clock] at hlive
      rw [hdb, hl, hrunner]
      exact knows.own t ht hlive
  have hidle (idle : o.edits .nothing) : Shape θ (rest r) := by
    have := hafter .nothing idle r
    rwa [ProvState.assign_nothing] at this
  have heffect := hstep.effect
  generalize hdb : w'.db = db at heffect
  cases heffect with
  | @assigned e edits =>
    exact ⟨allows_same hstep.clock.ge (by rw [hdb]),
      .working (hafter e edits r) (hsame hdb rfl rfl rfl rfl)⟩
  | @failed e edits =>
    exact ⟨allows_same hstep.clock.ge (by rw [hdb]),
      .working (hafter e edits r) (hsame hdb rfl rfl rfl rfl)⟩
  | @committed e db₁ edits commits live writes =>
    have hnext := hafter e edits r
    have hmode : Faithful (θ.assign rt.settings e) ∨ Spent (θ.assign rt.settings e) :=
      hnext.imp And.right And.right
    have hact : acting k θ (.node o rest) = true := by
      show (decide (θ.requestId = k) && acts o) = true
      simp [hk, acts_commits commits]
    have own : Knows k (θ.assign rt.settings e) w := ⟨knows.ended, knows.own⟩
    obtain ⟨hallows, hknows⟩ := commit_allows (held.assign rt.settings e) hk own hmode (htime hact) writes.requests hdb
      hstep.clock
    exact ⟨hallows, .working hnext.saved hknows⟩
  | claimed claims found claimable =>
    rw [hclaims] at claims
    cases claims
  | loaded loads =>
    rw [hloads] at loads
    cases loads
  | stepsLoaded idle =>
    exact ⟨allows_same hstep.clock.ge (by rw [hdb]),
      .working (hidle idle) (hsame hdb rfl rfl rfl rfl)⟩
  | released idle =>
    rw [hk] at hdb
    have hallows := released_allows hstep.clock hdb
    refine ⟨hallows, .working (hidle idle) ⟨fun hended => ?_, nofun⟩⟩
    exact hallows.ended (knows.ended hended)

/-- **One operation** of any run. -/
theorem local_step (h : Local rt k θ (.node o rest) w)
    (htime : acting k θ (.node o rest) = true → inTime θ w = true)
    (hexec : (provMachine rt).exec o i θ w = some (θ', w', r)) :
    θ'.runnerId = θ.runnerId ∧ Allows k θ.runnerId w w' ∧ Local rt k θ' (rest r) w' := by
  have hstep := prov_step hexec
  obtain ⟨hheld, hid, hrunner⟩ := effect_held hstep.effect h.held
  by_cases hk : θ.requestId = k
  · suffices hgoal : Allows k θ.runnerId w w' ∧ Stage rt k θ' (rest r) w' from
      ⟨hrunner, hgoal.1, hheld, fun _ => hgoal.2⟩
    cases h.stage hk with
    | waiting blank at_run =>
      rw [run_eq] at at_run
      cases at_run
      cases hexec
      exact ⟨allows_same le_rfl rfl, .claiming blank le_rfl rfl⟩
    | @claiming time blank past at_claim =>
      cases at_claim
      have hclaim : (ProvOp.claim time).exec rt.settings i θ w = some (θ', w', r) := hexec
      rcases claim_exec hclaim with ⟨rfl, rfl, hr⟩ | ⟨row, hrow, hclaimable, rfl, -, rfl, hw⟩
      · refine ⟨allows_same le_rfl rfl, ?_⟩
        rcases r with e | b
        · exact .refused blank rfl
        · cases b with
          | false => exact .refused blank rfl
          | true => exact absurd rfl hr
      · rw [hk] at hrow hw
        obtain ⟨hallows, hown⟩ := claim_step past hrow hclaimable hw
        exact ⟨hallows, .loading blank.ended rfl (fun _ => hown) rfl⟩
    | refused blank at_end => cases at_end
    | @loading t fresh lease own at_load =>
      cases at_load
      cases hexec
      refine ⟨allows_same le_rfl rfl, .working (Or.inl ⟨onlyUntil_runLoaded, fun l c hl hc => ?_⟩)
        ⟨fun hended => ?_, fun t' ht' hlive => ?_⟩⟩
      · have hl' : w.db.requests.get? θ.requestId = some l := hl
        rw [show w.db.requests.get? θ.requestId = some c from hc] at hl'
        cases hl'
        exact Or.inl rfl
      · have hended' : θ.ended = true := hended
        rw [fresh] at hended'
        cases hended'
      · have : t = t' := Option.some.inj (lease.symm.trans ht')
        subst this
        have hown := own hlive
        obtain ⟨row, hrow, hfacts⟩ := own hlive
        refine Or.inr ⟨hown, row, ?_, hfacts⟩
        show w.db.requests.get? θ.requestId = some row
        rw [hk, hrow]
    | working shape knows => exact working_step hk h.held shape knows htime hstep
  · have hrow := effect_elsewhere hstep.effect h.held hk
    exact ⟨hrunner, allows_same hstep.clock.ge hrow, hheld, fun heq => absurd (hid.symm.trans heq) hk⟩

theorem team (rt : Runtime) (k : Uuid) :
    Team (provMachine rt) (inLease k) ProvState.runnerId (Local rt k) (Allows k) where
  start _ _ _ := ⟨.nothing rfl rfl, fun _ => .waiting ⟨rfl, rfl, rfl, rfl⟩ rfl⟩
  step _ _ _ _ _ _ _ _ hL hc hexec := local_step hL hc hexec
  drop _ _ := allows_same le_rfl rfl
  outside θ _ _ _ he hL := hL.stable (Nat.ne_of_lt (Nat.lt_succ_self _))
    (he.allows (θ.runnerId + 1))
  stable _ _ _ _ _ hne hG hL := hL.stable hne hG

end Team

/-! ### A run that has been replaced -/

/-- The program of a run that has claimed: it loads its request, works on it, or has been refused.
-/
inductive Begun (rt : Runtime) (p : ProvProg Unit) : Prop
  | loading (at_load : p = runLoaded rt)
  | working (ops : p.OnlyUntil Ordinary Revoking Plain)
  | refused (ops : p.Only Plain)

/-- A run whose lease has passed and whose request names another: from here on it should do
nothing. -/
structure Retired (k : Uuid) (θ : ProvState) (w : World) : Prop where
  late : inTime θ w = false
  unnamed : ¬ Named k θ.runnerId w.db

section Replaced
variable {rt : Runtime} {θ θ' : ProvState} {w w' : World} {ρ : Type} {o : ProvOp ρ}
  {rest : ρ → ProvProg Unit} {i : Input} {r : ρ}

theorem late_iff : inTime θ w = false ↔
    θ.ended = false ∧ ∀ t, θ.lease = some t → t ≤ w.clock := by
  unfold inTime
  cases hl : θ.lease with
  | none => simp
  | some t => simp

theorem Begun.next (h : Begun rt (.node o rest)) :
    o.claims = none ∧ ∀ r, Begun rt (rest r) := by
  cases h with
  | loading at_load =>
    cases at_load
    exact ⟨rfl, fun _ => .working onlyUntil_runLoaded⟩
  | working ops =>
    rcases ops with ⟨ho, hk⟩ | ⟨ho, hk⟩
    · exact ⟨(not_opening ho.1).1, fun r => .working (hk r)⟩
    · refine ⟨(not_opening (o := o) ?_).1, fun r => .refused (hk r)⟩
      rw [show o.opClass = .revoking from ho]
      nofun
  | refused ops =>
    refine ⟨(not_opening (o := o) ?_).1, fun r => .refused (ops.2 r)⟩
    rw [show o.opClass = .plain from ops.1]
    nofun

/-- A run that acts in time only, and is late, changes nothing that lasts. -/
theorem retired_step (hk : θ.requestId = k) (begun : Begun rt (.node o rest))
    (h : Retired k θ w) (htime : acting k θ (.node o rest) = true → inTime θ w = true)
    (hstep : ProvStep rt.settings o i θ w θ' w') :
    Retired k θ' w' ∧ (w'.db = w.db ∨
      w'.db = { w.db with requests := w.db.requests.update k (released θ.runnerId) }) := by
  have hidle : acts o = false := by
    cases ha : acts o with
    | false => rfl
    | true =>
      have := htime (by show (decide (θ.requestId = k) && acts o) = true; simp [hk, ha])
      rw [h.late] at this
      cases this
  have hsame {θ₁ : ProvState} (hdb : w'.db = w.db) (hended : θ₁.ended = θ.ended)
      (hlease : θ₁.lease = θ.lease) (hrunner : θ₁.runnerId = θ.runnerId) : Retired k θ₁ w' := by
    refine ⟨?_, ?_⟩
    · rw [late_iff, hended, hlease, hstep.clock]
      exact late_iff.mp h.late
    · rw [hdb, hrunner]
      exact h.unnamed
  have heffect := hstep.effect
  generalize hdb : w'.db = db at heffect
  cases heffect with
  | assigned edits => exact ⟨hsame hdb rfl rfl rfl, Or.inl rfl⟩
  | failed edits => exact ⟨hsame hdb rfl rfl rfl, Or.inl rfl⟩
  | committed edits commits live writes =>
    rw [acts_commits commits] at hidle
    cases hidle
  | claimed claims found claimable =>
    rw [begun.next.1] at claims
    cases claims
  | loaded loads => exact ⟨hsame hdb rfl rfl rfl, Or.inl rfl⟩
  | stepsLoaded idle => exact ⟨hsame hdb rfl rfl rfl, Or.inl rfl⟩
  | released idle =>
    rw [hk] at hdb
    refine ⟨⟨late_iff.mpr ⟨(late_iff.mp h.late).1, nofun⟩, fun ⟨r', hr', hnamed⟩ => h.unnamed ?_⟩,
      Or.inr (by rw [hk])⟩
    have hid (r : ProvisioningRequest) : (released θ.runnerId r).id = r.id := by
      unfold released
      split <;> rfl
    rw [hdb] at hr'
    have hrow : (w.db.requests.get? k).map (released θ.runnerId) = some r' :=
      (Table.get?_update_self _ _ hid).symm.trans hr'
    obtain ⟨r, hr, rfl⟩ := Option.map_eq_some_iff.mp hrow
    refine ⟨r, hr, ?_⟩
    unfold released at hnamed
    split at hnamed
    · cases hnamed
    · exact hnamed

/-- What a release of a run writes, if its request names another. -/
theorem released_unnamed {db : Db} (h : ¬ Named k θ.runnerId db) :
    (db.requests.update k (released θ.runnerId)).rows = db.requests.rows := by
  have hrow (r : ProvisioningRequest) (hr : r ∈ db.requests.rows) :
      Table.amend k (released θ.runnerId) r = r := by
    unfold Table.amend
    split
    · next hkey =>
      unfold released
      split
      · next hmatch =>
        simp only [Bool.and_eq_true, beq_iff_eq] at hmatch
        exact absurd ⟨r, Table.get?_eq_some.mpr ⟨hr, hkey.1⟩, hmatch.1⟩ h
      · rfl
    · rfl
  show db.requests.rows.map _ = _
  rw [List.map_congr_left hrow, List.map_id']

theorem Retired.stable {x : Uuid} (h : Retired k θ w) (hx : θ.runnerId ≠ x)
    (ha : Allows k x w w') : Retired k θ w' := by
  have hlate := late_iff.mp h.late
  exact ⟨late_iff.mpr ⟨hlate.1, fun t ht => (hlate.2 t ht).trans ha.clock⟩,
    fun hnamed => h.unnamed (ha.named _ hx hnamed)⟩

end Replaced

/-! ### Runs -/

section Runs
variable (rt : Runtime)

/-- The system after a run of deliveries. -/
def reached (w : World) (actions : List ProvAction) : ProvSys :=
  runFrom (Sys.next (provMachine rt)) (Sys.idle w) actions

/-- The action commits the `_claim` of the execution with runner id `x`. -/
def Claims (k x : Uuid) (s : ProvSys) : ProvAction → Prop
  | .step pid i =>
    match s.procs pid with
    | some (θ, .node o _) => θ.requestId = k ∧ θ.runnerId = x ∧ i.reject = none ∧
        (o.claims.any fun time => (s.shared.db.requests.get? k).any (·.claimable time)) = true
    | _ => False
  | _ => False

/-- The calls that have changed something at Proxmox, in their order. -/
def mutations (w : World) : List Called := w.calls.filter (·.request.mutating)

/-- No change to the request, the steps, the allocations or the capacity of the nodes, and
no call that asks Proxmox to change something. -/
def Unchanged (w w' : World) : Prop :=
  w'.db.requests.rows = w.db.requests.rows ∧ w'.db.steps.rows = w.db.steps.rows ∧
    w'.db.ipam.addresses.rows = w.db.ipam.addresses.rows ∧
    w'.db.ipam.allocations.rows = w.db.ipam.allocations.rows ∧
    w'.db.nodes.rows = w.db.nodes.rows ∧ (mutations w').length = (mutations w).length

/-- If the action is one of the execution `x` of the request, it changes nothing. -/
def Quiet (k x : Uuid) (s : ProvSys) (action : ProvAction) : Prop :=
  match action with
  | .step pid _ =>
    match s.procs pid with
    | some (θ, _) => θ.requestId = k → θ.runnerId = x →
        Unchanged s.shared (s.next (provMachine rt) action).shared
    | none => True
  | _ => True

/-- The execution `x` of the request makes no progress in the actions `after`. -/
def Fenced (k x : Uuid) (w : World) (before after : List ProvAction) : Prop :=
  Along (Sys.next (provMachine rt)) (Quiet rt k x) (reached rt w before) after

variable {rt}

/-- The state at a claim, and after it. -/
theorem claims_at {x : Uuid} {s : ProvSys} {action : ProvAction} (h : Claims k x s action)
    (known : ∀ pid θ p, s.procs pid = some (θ, p) → Local rt k θ p s.shared) :
    ∃ pid θ time row, s.procs pid = some (θ, claimAt rt time) ∧ θ.requestId = k ∧ θ.runnerId = x ∧
      time ≤ s.shared.clock ∧ s.shared.db.requests.get? k = some row ∧ row.claimable time = true ∧
      s.next (provMachine rt) action = { s with shared := s.shared.setDb { s.shared.db with
        requests := s.shared.db.requests.update k (claimed rt.settings time x) } }.setProc pid
          (some ({ θ with lease := some (rt.settings.leaseDeadline time) }, runLoaded rt)) := by
  cases action with
  | step pid i =>
    cases hp : s.procs pid with
    | none =>
      simp only [Claims, hp] at h
    | some proc =>
      obtain ⟨θ, p⟩ := proc
      cases p with
      | done r => simp only [Claims, hp] at h
      | @node ρ o rest =>
        simp only [Claims, hp] at h
        obtain ⟨hk, hx, hreject, hclaims⟩ := h
        obtain ⟨time, ho, hrow⟩ := (Option.any_eq_true _ _).mp hclaims
        obtain ⟨row, hget, hclaimable⟩ := (Option.any_eq_true _ _).mp hrow
        cases (known pid θ _ hp).stage hk with
        | @claiming time' blank past at_claim =>
          cases at_claim
          cases ho
          refine ⟨pid, θ, time, row, hp, hk, hx, past, hget, hclaimable, ?_⟩
          have hexec : (provMachine rt).exec (ProvOp.claim time) i θ s.shared =
              some ({ θ with lease := some (rt.settings.leaseDeadline time) },
                s.shared.setDb { s.shared.db with
                  requests := s.shared.db.requests.update k (claimed rt.settings time x) },
                .ok true) := by
            show some (claim rt.settings time i θ s.shared) = _
            unfold claim
            rw [hk, hget]
            simp only [hclaimable, if_true, hreject, hx]
          simp only [Sys.next, hp, hexec]
          rfl
        | waiting blank at_run =>
          rw [run_eq] at at_run
          cases at_run
          cases ho
        | refused blank at_end => cases at_end
        | loading fresh lease own at_load =>
          cases at_load
          cases ho
        | working shape knows =>
          rw [(shape.next rt.settings).1] at ho
          cases ho
  | spawn pid m => cases h
  | crash pid => cases h
  | env f => cases h

/-- The runs that know their claim is behind them. -/
theorem team_begun (a : Uuid) :
    Team (provMachine rt) (Team.sparing (provMachine rt) (inLease k) ProvState.runnerId a)
      ProvState.runnerId
      (fun θ p w => Local rt k θ p w ∧ (θ.runnerId = a → Begun rt p)) (Allows k) :=
  (team rt k).strengthen (R := fun _ p _ => Begun rt p)
    (fun _ _ _ _ _ _ _ r _ _ hR _ _ => hR.next.2 r) (fun _ _ _ _ _ _ _ hR => hR)
    (fun _ _ _ _ _ hR => hR)

/-- The runs that have been replaced. -/
theorem team_retired (a : Uuid) :
    Team (provMachine rt) (Team.sparing (provMachine rt) (inLease k) ProvState.runnerId a)
      ProvState.runnerId
      (fun θ p w => Local rt k θ p w ∧ (θ.runnerId = a →
        θ.runnerId = a ∧ Begun rt p ∧ (θ.requestId = k → Retired k θ w))) (Allows k) := by
  refine (team rt k).strengthen
    (R := fun θ p w => θ.runnerId = a ∧ Begun rt p ∧ (θ.requestId = k → Retired k θ w)) ?_ ?_ ?_
  · intro ρ o rest i θ θ' w w' r hname hL hR hc hexec
    have hstep := prov_step hexec
    obtain ⟨-, hid, hrunner⟩ := effect_held hstep.effect hL.held
    refine ⟨hrunner.trans hname, hR.2.1.next.2 r, fun hk => ?_⟩
    have hk' : θ.requestId = k := hid.symm.trans hk
    exact (retired_step hk' hR.2.1 (hR.2.2 hk') hc hstep).1
  · intro y θ p w w' hy hG hR
    exact ⟨hR.1, hR.2.1, fun hk => (hR.2.2 hk).stable (fun he => hy (he.symm.trans hR.1)) hG⟩
  · intro θ p w w' he hR
    exact ⟨hR.1, hR.2.1, fun hk => (hR.2.2 hk).stable (Nat.ne_of_lt (Nat.lt_succ_self _))
      (he.allows (θ.runnerId + 1))⟩

/-- A run is replaced by another's claim. -/
theorem retired_by_claim {θ : ProvState} {p : ProvProg Unit} {w : World} {b : Uuid}
    {row : ProvisioningRequest} {time : Instant} (hL : Local rt k θ p w) (hk : θ.requestId = k)
    (hne : θ.runnerId ≠ b) (past : time ≤ w.clock) (hrow : w.db.requests.get? k = some row)
    (hclaimable : row.claimable time = true) :
    Retired k θ (w.setDb { w.db with
      requests := w.db.requests.update k (claimed rt.settings time b) }) := by
  have hpassed {t : Instant} (hown : Own k θ.runnerId t w.db) : t ≤ w.clock :=
    (claimable_passed hrow hclaimable hown).trans past
  refine ⟨late_iff.mpr ?_, fun ⟨r, hr, hnamed⟩ => ?_⟩
  · cases hL.stage hk with
    | waiting blank => exact ⟨blank.ended, fun t ht => by rw [blank.lease] at ht; cases ht⟩
    | claiming blank => exact ⟨blank.ended, fun t ht => by rw [blank.lease] at ht; cases ht⟩
    | refused blank => exact ⟨blank.ended, fun t ht => by rw [blank.lease] at ht; cases ht⟩
    | @loading t fresh lease own =>
      refine ⟨fresh, fun t' ht' => ?_⟩
      have : t = t' := Option.some.inj (lease.symm.trans ht')
      subst this
      by_contra hlive
      exact hlive (hpassed (own (not_le.mp hlive)))
    | working shape knows =>
      refine ⟨?_, fun t ht => ?_⟩
      · cases he : θ.ended with
        | false => rfl
        | true => exact absurd (knows.ended he) (claimable_open hrow hclaimable)
      · by_contra hlive
        rcases knows.own t ht (not_le.mp hlive) with hended | ⟨hown, -⟩
        · exact claimable_open hrow hclaimable hended
        · exact hlive (hpassed hown)
  · have hupdated : (w.db.requests.update k (claimed rt.settings time b)).get? k =
        some (claimed rt.settings time b row) := Table.get?_update_same hrow rfl
    have hr' : (w.db.requests.update k (claimed rt.settings time b)).get? k = some r := hr
    rw [hupdated] at hr'
    cases hr'
    exact hne (Option.some.inj hnamed).symm

/-- The action of a run that has been replaced. -/
theorem quiet_of_retired {a : Uuid} {s : ProvSys} {action : ProvAction}
    (known : ∀ pid θ p, s.procs pid = some (θ, p) → Local rt k θ p s.shared ∧ (θ.runnerId = a →
      θ.runnerId = a ∧ Begun rt p ∧ (θ.requestId = k → Retired k θ s.shared)))
    (hmet : (inLease k).Met s action) : Quiet rt k a s action := by
  have hrefl (w : World) : Unchanged w w := ⟨rfl, rfl, rfl, rfl, rfl, rfl⟩
  cases action with
  | step pid i =>
    cases hp : s.procs pid with
    | none => simp only [Quiet, hp]
    | some proc =>
      obtain ⟨θ, p⟩ := proc
      simp only [Quiet, hp]
      intro hk ha
      obtain ⟨-, hR⟩ := known pid θ p hp
      obtain ⟨-, begun, hretired⟩ := hR ha
      cases p with
      | done r =>
        simp only [Sys.next, hp]
        exact hrefl s.shared
      | @node ρ o rest =>
        cases hexec : (provMachine rt).exec o i θ s.shared with
        | none =>
          simp only [Sys.next, hp, hexec]
          exact hrefl s.shared
        | some out =>
          obtain ⟨θ', w', r⟩ := out
          simp only [Sys.next, hp, hexec]
          simp only [Conditions.Met, hp] at hmet
          have hstep := prov_step hexec
          obtain ⟨-, hdb⟩ := retired_step hk begun (hretired hk) hmet hstep
          -- a call it makes is one that only reads
          have hcalls : (mutations w').length = (mutations s.shared).length := by
            unfold mutations
            rw [hstep.calls, List.filter_append]
            have hreads : (o.called i θ).filter (·.request.mutating) = [] := by
              cases o with
              | call request =>
                cases hm : request.mutating with
                | false => simp [ProvOp.called, hm]
                | true =>
                  have := hmet (by
                    show (decide (θ.requestId = k) && request.mutating) = true
                    simp [hk, hm])
                  rw [(hretired hk).late] at this
                  cases this
              | _ => rfl
            rw [hreads, List.append_nil]
          show Unchanged s.shared w'
          unfold Unchanged
          rcases hdb with hdb | hdb
          · rw [hdb]
            exact ⟨rfl, rfl, rfl, rfl, rfl, hcalls⟩
          · rw [hdb]
            exact ⟨released_unnamed (hretired hk).unnamed, rfl, rfl, rfl, rfl, hcalls⟩
  | _ => trivial

/-- **Runner fencing** in every run whose executions act in time and whose runner ids are
distinct: an execution that has claimed makes no more progress once another has. Waits may be of
any length and executions may be lost anywhere. -/
theorem fenced_run {a b : Uuid} (hab : a ≠ b) (w : World) {first middle last : List ProvAction}
    {x y : ProvAction}
    (hids : (spawned (provMachine rt) ProvState.runnerId
      (first ++ x :: (middle ++ y :: last))).Nodup)
    (hrun : Along (Sys.next (provMachine rt)) (inLease k).Met (Sys.idle w)
      (first ++ x :: (middle ++ y :: last)))
    (hx : Claims k a (reached rt w first) x)
    (hy : Claims k b (reached rt w (first ++ x :: middle)) y) :
    Fenced rt k a w (first ++ x :: (middle ++ [y])) last := by
  have hsplit : reached rt w (first ++ x :: middle) =
      runFrom (Sys.next (provMachine rt)) ((reached rt w first).next (provMachine rt) x) middle := by
    unfold reached
    rw [runFrom_append]
    rfl
  have hsplit' : reached rt w (first ++ x :: (middle ++ [y])) =
      (reached rt w (first ++ x :: middle)).next (provMachine rt) y := by
    unfold reached
    rw [← List.cons_append, ← List.append_assoc, runFrom_append]
    rfl
  rw [along_append] at hrun
  obtain ⟨hfirst, hmetx, hrest⟩ := hrun
  replace hrest : Along (Sys.next (provMachine rt)) (inLease k).Met
      ((reached rt w first).next (provMachine rt) x) (middle ++ y :: last) := hrest
  rw [along_append] at hrest
  obtain ⟨hmiddle, hmety, hlast⟩ := hrest
  -- up to the first claim
  have hteam := (team rt k).teamed_run (Team.teamed_idle hids) hfirst
  obtain ⟨pa, θa, ta, ra, hpa, hka, hna, -, -, -, hnexta⟩ := claims_at hx hteam.each
  have hteam' := (team rt k).teamed_next hteam hmetx
  have hproc : ((reached rt w first).next (provMachine rt) x).procs pa =
      some ({ θa with lease := some (rt.settings.leaseDeadline ta) }, runLoaded rt) := by
    rw [hnexta, Sys.setProc_same]
  have hgone : a ∉ spawned (provMachine rt) ProvState.runnerId (middle ++ y :: last) := by
    have := hteam'.unspawned pa _ _ hproc
    rwa [show ({ θa with lease := some (rt.settings.leaseDeadline ta) } : ProvState).runnerId = a
      from hna] at this
  have hbegun : ((reached rt w first).next (provMachine rt) x).Teamed (provMachine rt)
      ProvState.runnerId (fun θ p w => Local rt k θ p w ∧ (θ.runnerId = a → Begun rt p))
      (middle ++ y :: last) := by
    refine ⟨fun pid θ p hp => ⟨hteam'.each pid θ p hp, fun hname => ?_⟩, hteam'.distinct,
      hteam'.unspawned, hteam'.fresh⟩
    have : pid = pa := hteam'.distinct pid pa _ _ _ _ hp hproc (hname.trans hna.symm)
    rw [this, hproc] at hp
    cases hp
    exact .loading rfl
  -- up to the second
  have hmiddle' := Team.along_sparing (x := a)
    (fun hmem => hgone (by
      unfold spawned
      rw [List.filterMap_append]
      exact List.mem_append_left _ hmem)) hmiddle
  have hbegun' := (team_begun a).teamed_run hbegun hmiddle'
  rw [← hsplit] at hbegun' hmety hlast
  obtain ⟨pb, θb, tb, rb, hpb, hkb, hnb, past, hrow, hclaimable, hnextb⟩ :=
    claims_at hy fun pid θ p hp => (hbegun'.each pid θ p hp).1
  have hgone' : a ∉ spawned (provMachine rt) ProvState.runnerId (y :: last) := fun hmem => hgone (by
    unfold spawned
    rw [List.filterMap_append]
    exact List.mem_append_right _ hmem)
  have hlast' := Team.along_sparing hgone'
    (show Along (Sys.next (provMachine rt)) (inLease k).Met _ (y :: last) from ⟨hmety, hlast⟩)
  have hteamb := (team_begun a).teamed_next hbegun' hlast'.1
  have hretired : ((reached rt w (first ++ x :: middle)).next (provMachine rt) y).Teamed
      (provMachine rt) ProvState.runnerId (fun θ p w => Local rt k θ p w ∧ (θ.runnerId = a →
        θ.runnerId = a ∧ Begun rt p ∧ (θ.requestId = k → Retired k θ w))) last := by
    refine ⟨fun pid θ p hp => ⟨(hteamb.each pid θ p hp).1, fun hname =>
      ⟨hname, (hteamb.each pid θ p hp).2 hname, fun hk => ?_⟩⟩, hteamb.distinct, hteamb.unspawned,
      hteamb.fresh⟩
    rw [hnextb] at hp ⊢
    by_cases hpid : pid = pb
    · rw [hpid, Sys.setProc_same] at hp
      cases hp
      exact absurd (hname.symm.trans hnb) hab
    · rw [Sys.setProc_of_ne _ _ hpid] at hp
      exact retired_by_claim (hbegun'.each pid θ p hp).1 hk (by rw [hname]; exact hab) past hrow
        hclaimable
  unfold Fenced
  rw [hsplit']
  exact (team_retired a).along_run (fun s action hknown hmet => quiet_of_retired hknown (by
    cases action with
    | spawn pid m => exact hmet.1
    | step pid i => exact hmet
    | crash pid => exact hmet
    | env f => exact hmet)) hretired hlast'.2

end Runs

section Samples

instance (k : Uuid) (m : ProvMessage) (w : World) : Decidable ((inLease k).spawn m w) :=
  .isTrue trivial

instance (k : Uuid) (θ : ProvState) (p : ProvProg Unit) (i : Input) (w : World) :
    Decidable ((inLease k).step θ p i w) :=
  inferInstanceAs (Decidable (acting k θ p = true → inTime θ w = true))

instance (k : Uuid) (θ : ProvState) (p : ProvProg Unit) (w : World) :
    Decidable ((inLease k).crash θ p w) := .isTrue trivial

instance (k : Uuid) (w w' : World) : Decidable ((inLease k).env w w') :=
  inferInstanceAs (Decidable (Outside k w w'))

instance (k x : Uuid) (s : ProvSys) : (action : ProvAction) → Decidable (Claims k x s action)
  | .step pid i =>
    show Decidable (match s.procs pid with
      | some (θ, .node o _) => θ.requestId = k ∧ θ.runnerId = x ∧ i.reject = none ∧
          (o.claims.any fun time => (s.shared.db.requests.get? k).any (·.claimable time)) = true
      | _ => False) from
    match s.procs pid with
    | none => .isFalse id
    | some (_, .done _) => .isFalse id
    | some (θ, .node _ _) => inferInstanceAs (Decidable (θ.requestId = k ∧ _))
  | .spawn .. | .crash _ | .env _ => .isFalse id

instance (w w' : World) : Decidable (Unchanged w w') := by
  unfold Unchanged
  infer_instance

instance (rt : Runtime) (k x : Uuid) (s : ProvSys) :
    (action : ProvAction) → Decidable (Quiet rt k x s action)
  | .step pid i =>
    show Decidable (match s.procs pid with
      | some (θ, _) => θ.requestId = k → θ.runnerId = x →
          Unchanged s.shared (s.next (provMachine rt) (.step pid i)).shared
      | none => True) from
    match s.procs pid with
    | none => .isTrue trivial
    | some (θ, _) => inferInstanceAs (Decidable (θ.requestId = k → θ.runnerId = x → Unchanged _ _))
  | .spawn .. | .crash _ | .env _ => .isTrue trivial

instance (rt : Runtime) (k x : Uuid) (w : World) (before after : List ProvAction) :
    Decidable (Fenced rt k x w before after) := by
  unfold Fenced
  infer_instance

def sampleWorld : World := provisioningWorld (sampleRequest 1 .linux)

/-- Two deliveries of one message, the first about to claim. -/
def twoDeliveries : List ProvAction :=
  [.spawn 0 ⟨1, 50⟩, .spawn 1 ⟨1, 51⟩, .step 0 (provisioningInput [])]

/-- More than a lease passes, and the second is about to claim. -/
def leasePasses : List ProvAction :=
  [.env fun w => { w with clock := w.clock + 61 * second }, .step 1 (provisioningInput [])]

theorem fenced_crash : Fenced asciiRuntime 1 50 sampleWorld
    (twoDeliveries ++ .step 0 (provisioningInput []) ::
      ((runs 0 10 [] ++ leasePasses) ++ [.step 1 (provisioningInput [])]))
    (runs 1 12 [] ++ [.crash 0]) :=
  fenced_run (b := 51) (by decide) sampleWorld (by decide +kernel) (by decide +kernel)
    (by decide +kernel) (by decide +kernel)

/-- **A stalled runner goes on**: the first delivery starts its first step after the second
has claimed the request. -/
theorem stalled_runner :
    (spawned (provMachine asciiRuntime) ProvState.runnerId (twoDeliveries ++
      .step 0 (provisioningInput []) :: ((runs 0 10 [] ++ leasePasses) ++
        .step 1 (provisioningInput []) :: runs 0 1 []))).Nodup ∧
    Claims 1 50 (reached asciiRuntime sampleWorld twoDeliveries) (.step 0 (provisioningInput [])) ∧
    Claims 1 51 (reached asciiRuntime sampleWorld (twoDeliveries ++
      .step 0 (provisioningInput []) :: (runs 0 10 [] ++ leasePasses)))
      (.step 1 (provisioningInput [])) ∧
    ¬ Fenced asciiRuntime 1 50 sampleWorld
      (twoDeliveries ++ .step 0 (provisioningInput []) ::
        ((runs 0 10 [] ++ leasePasses) ++ [.step 1 (provisioningInput [])])) (runs 0 1 []) := by
  decide +kernel

end Samples

end PveMaster.Fencing
