import PveMaster.Console.Invariant
import PveMaster.Operations.System

/-! What a connection knows on its way, and that no other takes it from it.

It knows that it has consumed its session; then that its slot is kept while its time lasts;
then what its queries have found. -/
namespace PveMaster.Console
open Prog

variable (rt : Runtime) (settings : ConsoleSettings) (hash : String → String)

/-! ### The contract -/

/-- `uuid4` gives no session an identifier that was given before. -/
def ConsoleOp.Fresh {ρ : Type} (o : ConsoleOp ρ) (s : Site) : Prop :=
  match o with
  | .hset g _ => ∀ c ∈ s.created, c.grant.sessionId ≠ g.sessionId
  | _ => True

/-- What the process of a number may do, and what it may rely on: others leave alone what it
holds. -/
def contract (n : Nat) : Contract ConsoleOp ConsoleProcess Site ConsoleInput where
  may o _ θ s := Sound rt hash settings.maxDuration s ∧ θ.number = n ∧ o.Fresh s
  rely := Others n
  guar s s' := Does n s s' ∧ (Sound rt hash settings.maxDuration s → Sound rt hash settings.maxDuration s')

/-- A connection has been opened, or relays. -/
def Traced (n : Nat) (s : Site) : Prop :=
  (∃ d ∈ s.dialed, d.connection = n) ∨ ∃ r ∈ s.relays, r.connection = n

/-! ### What a connection knows -/

/-- It has consumed its session. -/
structure Holding (n : Nat) (g : ConsoleGrant) (s : Site) : Prop where
  granted : ∃ x ∈ s.consumed, x.connection = n ∧ x.sessionId = g.sessionId ∧
    ∃ c ∈ s.created, c.grant = g ∧ hash c.token = hash x.token
  unrelayed : ∀ r ∈ s.relays, r.connection ≠ n

/-- It has its slot besides. -/
structure Seated (n : Nat) (g : ConsoleGrant) (θ : ConsoleProcess) (s : Site) : Prop extends Holding hash n g s where
  slot : s.Keeps g.slot ⟨g.sessionId, θ.acquired + settings.maxDuration, n⟩

/-- It has opened nothing. -/
def Undialed (n : Nat) (s : Site) : Prop := ∀ d ∈ s.dialed, d.connection ≠ n

/-- It waits with its slot. -/
def Waiting (n : Nat) (g : ConsoleGrant) (θ : ConsoleProcess) (s : Site) : Prop :=
  Seated settings hash n g θ s ∧ Undialed n s

/-- What the query of the user has found. -/
structure UserFound (n : Nat) (g : ConsoleGrant) (user : Snapshot) (u : User) : Prop where
  consumed : ∃ x ∈ user.consumed, x.connection = n ∧ x.sessionId = g.sessionId
  found : user.db.users.get? g.userId = some u
  active : u.isActive = true
  epoch : u.sessionEpoch = g.sessionEpoch
  role : u.role = g.role

/-- The connection has found its user. -/
def UserKnown (n : Nat) (g : ConsoleGrant) (u : User) (θ : ConsoleProcess) : Prop :=
  ∃ user, θ.userState = some user ∧ UserFound n g user u

/-- What both queries have found. -/
def Loaded (n : Nat) (g : ConsoleGrant) (θ : ConsoleProcess) : Prop :=
  ∃ user workload u w, θ.userState = some user ∧ θ.workloadState = some workload ∧
    Admitted rt n g user workload u w

variable {rt settings hash}

theorem contract_closed (n : Nat) : (contract rt settings hash n).Closed :=
  ⟨Others.refl n, fun _ _ _ => Others.trans⟩

/-- What is held stays held. -/
theorem Holding.others {n : Nat} {g : ConsoleGrant} {s s' : Site} (h : Holding hash n g s) (hs : Others n s s') :
    Holding hash n g s' where
  granted := by
    obtain ⟨x, hx, hn, hid, c, hc, hgrant⟩ := h.granted
    exact ⟨x, hs.consumed x hx, hn, hid, c, hs.created c hc, hgrant⟩
  unrelayed r hr hn := h.unrelayed r (hs.relays r hr hn) hn

/-- Who holds a session has consumed it. -/
theorem Holding.holds {n : Nat} {g : ConsoleGrant} {s : Site} (h : Holding hash n g s) : s.Holds n g.sessionId := by
  obtain ⟨x, hx, hn, hid, -⟩ := h.granted
  exact ⟨x, hx, hn, hid⟩

/-- A connection that has its slot keeps what it knows about it. -/
theorem Seated.others {n : Nat} {g : ConsoleGrant} {θ : ConsoleProcess} {s s' : Site}
    (h : Seated settings hash n g θ s) (hs : Others n s s') : Seated settings hash n g θ s' where
  toHolding := h.toHolding.others hs
  slot := hs.slots _ _ rfl h.slot

theorem Undialed.others {n : Nat} {s s' : Site} (h : Undialed n s) (hs : Others n s s') : Undialed n s' :=
  fun d hd hn => h d (hs.dialed d hd hn) hn

theorem Waiting.others {n : Nat} {g : ConsoleGrant} {θ : ConsoleProcess} {s s' : Site}
    (h : Waiting settings hash n g θ s) (hs : Others n s s') : Waiting settings hash n g θ s' :=
  ⟨h.1.others hs, h.2.others hs⟩

/-- What a query reads changes nothing of it. -/
theorem Waiting.of_acquired {n : Nat} {g : ConsoleGrant} {θ θ' : ConsoleProcess} {s : Site}
    (h : Waiting settings hash n g θ s) (hθ : θ'.acquired = θ.acquired) : Waiting settings hash n g θ' s := by
  obtain ⟨⟨hholding, hslot⟩, hundialed⟩ := h
  refine ⟨⟨hholding, ?_⟩, hundialed⟩
  rw [hθ]
  exact hslot

/-- With the workload found as well, the connection is admitted. -/
theorem UserFound.admitted {n : Nat} {g : ConsoleGrant} {user workload : Snapshot} {u : User} {w : Workload}
    (h : UserFound n g user u) (hconsumed : ∃ x ∈ workload.consumed, x.connection = n ∧ x.sessionId = g.sessionId)
    (hw : authorizedConsoleWorkload u.principal g.workloadId workload.db = .ok w)
    (hrunning : rt.upper w.powerState = "RUNNING") (hkind : w.kind = g.pveKind) :
    Admitted rt n g user workload u w :=
  ⟨h.consumed, h.found, h.active, h.epoch, h.role, hconsumed, hw, hrunning, hkind⟩

/-! ### Operations that tell a connection nothing -/

/-- Operations besides those on the sessions, the slots and the upstream connection. -/
def ConsoleOp.Quiet {ρ : Type} : ConsoleOp ρ → Prop
  | .hset .. | .consume .. | .acquire .. | .user .. | .workload .. | .dial .. | .relay .. | .relayed | .release .. =>
    False
  | _ => True

/-- What leaves the site as it is, others may do. -/
theorem still_others {s s' : Site} (h : Still s s') (n : Nat) : Others n s s' where
  created c hc := by rw [h.created]; exact hc
  consumed x hx := by rw [h.consumed]; exact hx
  dialed d hd _ := by rw [h.dialed] at hd; exact hd
  relays r hr _ := by rw [h.relays] at hr; exact hr
  slots key slot _ hkeeps hle := by
    rw [h.slots]
    exact hkeeps (le_trans h.clock hle)

/-- A record that gets its time to live is still the record. -/
theorem expire_others (n : Nat) (s : Site) (id : Uuid) (ttl : Nat) : Others n s (s.expire id ttl) := by
  rcases expire_cases s id ttl with h | ⟨r, r', -, -, h⟩
  · rw [h]
    exact .refl n s
  · rw [h]
    exact ⟨fun _ h => h, fun _ h => h, fun _ h _ => h, fun _ h _ => h, fun _ _ _ h => h⟩

/-- A call of Redis has taken effect or not. -/
theorem RedisOutcome.call_fst {α : Type} (o : RedisOutcome) (s : Site) (out : Site × α) (failed : α) :
    (o.call s out failed).1 = s ∨ (o.call s out failed).1 = out.1 := by
  cases o with
  | done => exact Or.inr rfl
  | lost => exact Or.inr rfl
  | refused => exact Or.inl rfl

/-- A quiet operation leaves the site as it is, or sets the time of a record. -/
theorem quiet_cases {ρ : Type} {o : ConsoleOp ρ} {i : ConsoleInput} {θ θ' : ConsoleProcess} {s s' : Site} {r : ρ}
    (hq : o.Quiet) (h : (consoleMachine rt settings hash).exec o i θ s = some (θ', s', r)) :
    θ' = θ ∧ (Still s s' ∨ ∃ id ttl, s' = s.expire id ttl) := by
  have hexec : o.exec rt hash i θ s = (θ', s', r) := Option.some.inj h
  have same : Still s s := ⟨rfl, rfl, rfl, rfl, rfl, rfl, le_rfl⟩
  cases o with
  | hset g token => cases hq
  | consume id token => cases hq
  | acquire g ttl => cases hq
  | user id => cases hq
  | workload principal workloadId => cases hq
  | dial g => cases hq
  | relay g => cases hq
  | relayed => cases hq
  | release g => cases hq
  | expire id ttl =>
    have hstate : (i.redis.call s (s.expire id ttl, Except.ok ()) (.error sessionUnavailable)).1 = s' :=
      congrArg (fun out => out.2.1) hexec
    refine ⟨(congrArg Prod.fst hexec).symm, ?_⟩
    rw [← hstate]
    rcases RedisOutcome.call_fst i.redis s (s.expire id ttl, Except.ok ()) (.error sessionUnavailable) with hc | hc
    · rw [hc]
      exact Or.inl same
    · rw [hc]
      exact Or.inr ⟨id, ttl, rfl⟩
  | commit audit =>
    unfold ConsoleOp.exec at hexec
    dsimp only at hexec
    split at hexec
    · cases hexec
      exact ⟨rfl, Or.inl same⟩
    · cases hexec
      exact ⟨rfl, Or.inl ⟨rfl, rfl, rfl, rfl, rfl, rfl, le_rfl⟩⟩
  | elapse seconds =>
    cases hexec
    exact ⟨rfl, Or.inl ⟨rfl, rfl, rfl, rfl, rfl, rfl, Nat.le_add_right ..⟩⟩
  | target principal workloadId => cases hexec; exact ⟨rfl, Or.inl same⟩
  | createProxy w => cases hexec; exact ⟨rfl, Or.inl same⟩
  | draw => cases hexec; exact ⟨rfl, Or.inl same⟩
  | client w => cases hexec; exact ⟨rfl, Or.inl same⟩
  | accept => cases hexec; exact ⟨rfl, Or.inl same⟩
  | answered => cases hexec; exact ⟨rfl, Or.inl ⟨rfl, rfl, rfl, rfl, rfl, rfl, le_rfl⟩⟩
  | sendAuth frame => cases hexec; exact ⟨rfl, Or.inl same⟩
  | closeClient => cases hexec; exact ⟨rfl, Or.inl same⟩

/-- **A quiet operation** leaves what its connection knows. -/
theorem quiet_step {ρ : Type} {o : ConsoleOp ρ} {i : ConsoleInput} {θ θ' : ConsoleProcess} {s s' : Site} {r : ρ}
    (hq : o.Quiet) (n : Nat) (h : (consoleMachine rt settings hash).exec o i θ s = some (θ', s', r)) :
    θ' = θ ∧ Others n s s' ∧ (contract rt settings hash n).guar s s' := by
  obtain ⟨hθ, hstill | ⟨id, ttl, rfl⟩⟩ := quiet_cases hq h
  · exact ⟨hθ, still_others hstill n, hstill.does n, hstill.sound⟩
  · exact ⟨hθ, expire_others n s id ttl, expire_does n s id ttl, fun hs => expire_sound hs id ttl⟩

section Rules
variable {n : Nat} {θ : ConsoleProcess} {s : Site} {α ρ : Type}

/-- What a process knows that no other takes from it, and no quiet operation. -/
theorem wp_quiet {o : ConsoleOp ρ} (hq : o.Quiet) {J : Site → Prop} (stable : ∀ s s', Others n s s' → J s → J s')
    (hJ : J s) {Q : Except Exn ρ → ConsoleProcess → Site → Prop} (h : ∀ r s', J s' → Q (.ok r) θ s') :
    wp (consoleMachine rt settings hash) (contract rt settings hash n) (op o) Q θ s := by
  refine wp_op fun s₁ hrely i θ' s₂ r _ hexec => ?_
  obtain ⟨rfl, hothers, hguar⟩ := quiet_step hq n hexec
  exact ⟨hguar, h r s₂ (stable _ _ hothers (stable _ _ hrely hJ))⟩

/-- What is stable under others survives a quiet operation. -/
theorem wp_quiet_perform {o : ConsoleOp (Except Exn ρ)} (hq : o.Quiet) {J : Site → Prop}
    (stable : ∀ s s', Others n s s' → J s → J s') (hJ : J s)
    {Q : Except Exn ρ → ConsoleProcess → Site → Prop} (h : ∀ r s', J s' → Q r θ s') :
    wp (consoleMachine rt settings hash) (contract rt settings hash n) (perform o) Q θ s := by
  refine wp_perform fun s₁ hrely i θ' s₂ r _ hexec => ?_
  obtain ⟨rfl, hothers, hguar⟩ := quiet_step hq n hexec
  exact ⟨hguar, h r s₂ (stable _ _ hothers (stable _ _ hrely hJ))⟩

end Rules

/-! ### Creation -/

section Programs
variable {n : Nat} {θ : ConsoleProcess} {s : Site} {g : ConsoleGrant}

theorem filter_ne_empty (user : Option String) : user.filter (· != "") ≠ some "" := by
  intro h
  have := (Option.filter_eq_some_iff.mp h).2
  simp at this

/-- `HSET` of a new session. -/
theorem wp_hset {token : String} (huser : g.pveUser ≠ some "") :
    wp (consoleMachine rt settings hash) (contract rt settings hash n) (perform (.hset g token))
      (fun _ _ _ => True) θ s := by
  refine wp_perform fun s₁ _ i θ' s₂ r hmay hexec => ?_
  refine ⟨?_, trivial⟩
  have hexec : (ConsoleOp.hset g token).exec rt hash i θ s₁ = (θ', s₂, r) := Option.some.inj hexec
  have hstate : (i.redis.call s₁ (s₁.hset hash g token, Except.ok ()) (.error sessionUnavailable)).1 = s₂ :=
    congrArg (fun out => out.2.1) hexec
  rw [← hstate]
  rcases RedisOutcome.call_fst i.redis s₁ (s₁.hset hash g token, Except.ok ()) (.error sessionUnavailable) with hc | hc
  · rw [hc]
    exact ⟨does_of (fun _ hc => hc) (fun _ hx => hx) rfl rfl rfl le_rfl, fun hs => hs⟩
  · rw [hc]
    exact ⟨hset_does n s₁ g token, fun hs => hset_sound hs huser hmay.2.2⟩

/-- A quiet operation of a process that knows nothing. -/
theorem wp_idle_op {ρ : Type} {o : ConsoleOp ρ} (hq : o.Quiet) :
    wp (consoleMachine rt settings hash) (contract rt settings hash n) (op o) (fun _ _ _ => True) θ s :=
  wp_quiet hq (fun _ _ _ _ => trivial) trivial fun _ _ _ => trivial

theorem wp_idle {ρ : Type} {o : ConsoleOp (Except Exn ρ)} (hq : o.Quiet) :
    wp (consoleMachine rt settings hash) (contract rt settings hash n) (perform o) (fun _ _ _ => True) θ s :=
  wp_quiet_perform hq (fun _ _ _ _ => trivial) trivial fun _ _ _ => trivial

/-- What follows a step of a process that knows nothing. -/
theorem wp_then {α β : Type} {p : ConsoleProg α} {f : α → ConsoleProg β}
    (hp : wp (consoleMachine rt settings hash) (contract rt settings hash n) p (fun _ _ _ => True) θ s)
    (hf : ∀ a θ s, wp (consoleMachine rt settings hash) (contract rt settings hash n) (f a) (fun _ _ _ => True) θ s) :
    wp (consoleMachine rt settings hash) (contract rt settings hash n) (p >>= f) (fun _ _ _ => True) θ s := by
  refine wp_bind (wp_mono (fun r θ s _ => ?_) hp)
  cases r with
  | ok a => exact hf a θ s
  | error e => trivial

/-- **The creation of a session** writes one record. -/
theorem wp_createSession (principal : Principal) (workloadId : Uuid) :
    wp (consoleMachine rt settings hash) (contract rt settings hash n) (createSession settings principal workloadId)
      (fun _ _ _ => True) θ s := by
  unfold createSession
  refine wp_then (wp_idle trivial) fun workload _ _ => ?_
  refine wp_then (wp_idle trivial) fun proxy _ _ => ?_
  refine wp_then (wp_idle_op trivial) fun drawn _ _ => ?_
  refine wp_then (wp_hset (filter_ne_empty proxy.user)) fun _ _ _ => ?_
  refine wp_then (wp_idle trivial) fun _ _ _ => ?_
  exact wp_then (wp_idle trivial) fun _ _ _ => trivial

/-! ### Connections -/

/-- **A session is consumed** by whoever has its token. -/
theorem wp_consume {id : Uuid} {token : String} (hquiet : ∀ r ∈ s.relays, r.connection ≠ n)
    (hdials : Undialed n s) :
    wp (consoleMachine rt settings hash) (contract rt settings hash n) (op (.consume id token))
      (fun values _ s => Undialed n s ∧
        ∀ l g, values = .ok l → parseGrant id l = some g → Holding hash n g s) θ s := by
  refine wp_op fun s₁ hrely i θ' s₂ r ⟨hsound, hnumber, _⟩ hexec => ?_
  have hexec : (ConsoleOp.consume id token).exec rt hash i θ s₁ = (θ', s₂, r) := Option.some.inj hexec
  obtain ⟨hstate, hvalues⟩ : (i.redis.call s₁ (s₁.consume hash n id token) []).1 = s₂ ∧
      (i.redis.call s₁ (s₁.consume hash n id token) []).2 = r := by
    rw [← hnumber]
    exact ⟨congrArg (fun out => out.2.1) hexec, congrArg (fun out => out.2.2) hexec⟩
  have hquiet₁ : ∀ r ∈ s₁.relays, r.connection ≠ n := fun r hr hn => hquiet r (hrely.relays r hr hn) hn
  have hdials₁ : Undialed n s₁ := hdials.others hrely
  have nothing : (contract rt settings hash n).guar s₁ s₁ :=
    ⟨does_of (fun _ hc => hc) (fun _ hx => hx) rfl rfl rfl le_rfl, fun hs => hs⟩
  have unread {l : List String} (hl : l = []) {g : ConsoleGrant} (hg : parseGrant id l = some g) : False := by
    rw [hl, parseGrant_nil] at hg
    cases hg
  rcases consume_cases hsound.granted n id token with hc | ⟨c, s', values, hc, hdone, hgrant⟩
  · -- nothing was consumed
    rw [hc] at hstate hvalues
    have hs₂ : s₁ = s₂ := by cases hr : i.redis <;> rw [hr] at hstate <;> exact hstate
    have hr : r = [] := by cases hr : i.redis <;> rw [hr] at hvalues <;> exact hvalues.symm
    rw [← hs₂]
    exact ⟨nothing, hdials₁, fun l g hl hg => (unread ((Except.ok.inj hl).symm.trans hr) hg).elim⟩
  · rw [hc] at hstate hvalues
    have hdialed : Undialed n s' := by
      rw [hdone.after]
      exact hdials₁
    cases hr : i.redis with
    | refused =>
      rw [hr] at hstate hvalues
      have hs₂ : s₁ = s₂ := hstate
      rw [← hs₂]
      exact ⟨nothing, hdials₁, fun l g hl hg => (unread ((Except.ok.inj hl).symm.trans hvalues.symm) hg).elim⟩
    | lost =>
      rw [hr] at hstate hvalues
      have hs₂ : s' = s₂ := hstate
      rw [← hs₂]
      exact ⟨⟨hdone.does, hdone.sound⟩, hdialed,
        fun l g hl hg => (unread ((Except.ok.inj hl).symm.trans hvalues.symm) hg).elim⟩
    | done =>
      rw [hr] at hstate hvalues
      have hs₂ : s' = s₂ := hstate
      rw [← hs₂]
      refine ⟨⟨hdone.does, hdone.sound⟩, hdialed, fun l g hl hg => ?_⟩
      have hl : l = values := (Except.ok.inj hl).symm.trans hvalues.symm
      rw [hl] at hg
      have hg : g = c.grant := hgrant g hg
      obtain ⟨x, hx, hn, hid, htoken⟩ := hdone.mine
      have hcreated : c ∈ s'.created := by
        rw [hdone.after]
        exact hdone.created
      refine ⟨⟨x, hx, hn, ?_, c, hcreated, hg.symm, htoken⟩, ?_⟩
      · rw [hg, hdone.session]
        exact hid
      · rw [hdone.after]
        exact hquiet₁

/-- **A slot is taken** for a session that is held. -/
theorem wp_acquire (h : Holding hash n g s) (hdials : Undialed n s) :
    wp (consoleMachine rt settings hash) (contract rt settings hash n) (op (.acquire g settings.maxDuration))
      (fun taken θ s => Undialed n s ∧ (taken = .ok true → Seated settings hash n g θ s)) θ s := by
  refine wp_op fun s₁ hrely i θ' s₂ r ⟨hsound, hnumber, _⟩ hexec => ?_
  have hexec : (ConsoleOp.acquire g settings.maxDuration).exec rt hash i θ s₁ = (θ', s₂, r) := Option.some.inj hexec
  obtain ⟨hθ, hstate, htaken⟩ : { θ with acquired := s₁.clock } = θ' ∧
      (i.redis.call s₁ (s₁.acquire n g settings.maxDuration) false).1 = s₂ ∧
      (i.redis.call s₁ (s₁.acquire n g settings.maxDuration) false).2 = r := by
    rw [← hnumber]
    exact ⟨congrArg Prod.fst hexec, congrArg (fun out => out.2.1) hexec, congrArg (fun out => out.2.2) hexec⟩
  have h₁ : Holding hash n g s₁ := h.others hrely
  have hdials₁ : Undialed n s₁ := hdials.others hrely
  have hsame : (s₁.acquire n g settings.maxDuration).1.consumed = s₁.consumed ∧
      (s₁.acquire n g settings.maxDuration).1.created = s₁.created ∧
      (s₁.acquire n g settings.maxDuration).1.relays = s₁.relays ∧
      (s₁.acquire n g settings.maxDuration).1.dialed = s₁.dialed := by
    rcases acquire_cases n s₁ g settings.maxDuration with hc | ⟨-, hc⟩ <;> rw [hc] <;> exact ⟨rfl, rfl, rfl, rfl⟩
  obtain ⟨hconsumed, hcreated, hrelays, hdialed⟩ := hsame
  have hdialed₂ : Undialed n s₂ := by
    rw [← hstate]
    intro d hd
    rcases RedisOutcome.call_fst i.redis s₁ (s₁.acquire n g settings.maxDuration) false with hc | hc
    · rw [hc] at hd
      exact hdials₁ d hd
    · rw [hc, hdialed] at hd
      exact hdials₁ d hd
  refine ⟨?_, hdialed₂, fun htrue => ?_⟩
  · rw [← hstate]
    rcases RedisOutcome.call_fst i.redis s₁ (s₁.acquire n g settings.maxDuration) false with hc | hc
    · rw [hc]
      exact ⟨does_of (fun _ hc => hc) (fun _ hx => hx) rfl rfl rfl le_rfl, fun hs => hs⟩
    · rw [hc]
      exact ⟨acquire_does n s₁ g settings.maxDuration, fun hs => acquire_sound hs h₁.holds settings.maxDuration⟩
  · have htrue : r = true := Except.ok.inj htrue
    -- the answer is that of the call, which has taken effect
    have hdone : (s₁.acquire n g settings.maxDuration).1 = s₂ ∧ (s₁.acquire n g settings.maxDuration).2 = true := by
      cases hr : i.redis with
      | done =>
        rw [hr] at hstate htaken
        exact ⟨hstate, htaken.trans htrue⟩
      | lost =>
        rw [hr] at htaken
        cases htaken.trans htrue
      | refused =>
        rw [hr] at htaken
        cases htaken.trans htrue
    obtain ⟨hs₂, htaken⟩ := hdone
    have hkeeps := acquire_keeps htaken
    rw [hs₂] at hconsumed hcreated hrelays hkeeps
    refine ⟨⟨?_, ?_⟩, ?_⟩
    · rw [hconsumed, hcreated]
      exact h₁.granted
    · rw [hrelays]
      exact h₁.unrelayed
    · rw [← hθ]
      exact hkeeps

/-! ### Loading -/

theorem outcome_ok {α : Type} {i : ConsoleInput} {a b : α} (h : i.outcome a = .ok b) : a = b := by
  unfold ConsoleInput.outcome at h
  split at h
  · cases h
  · exact Except.ok.inj h

/-- What has been consumed is in every state that is read later. -/
theorem Holding.snapshot {hash : String → String} (h : Holding hash n g s) :
    ∃ x ∈ s.snapshot.consumed, x.connection = n ∧ x.sessionId = g.sessionId := h.holds

/-- The query of the user. -/
theorem wp_user (h : Waiting settings hash n g θ s) :
    wp (consoleMachine rt settings hash) (contract rt settings hash n) (perform (.user g.userId))
      (fun r θ s => Waiting settings hash n g θ s ∧ ∀ u, r = .ok (some u) → u.isActive = true →
        u.sessionEpoch = g.sessionEpoch → u.role = g.role → UserKnown n g u θ) θ s := by
  refine wp_perform fun s₁ hrely i θ' s₂ r ⟨hsound, _, _⟩ hexec => ?_
  have hexec : (ConsoleOp.user g.userId).exec rt hash i θ s₁ = (θ', s₂, r) := Option.some.inj hexec
  have h₁ := h.others hrely
  cases hexec
  refine ⟨⟨does_of (fun _ hc => hc) (fun _ hx => hx) rfl rfl rfl le_rfl, fun hs => hs⟩, h₁.of_acquired rfl, ?_⟩
  intro u hu hactive hepoch hrole
  exact ⟨s₁.snapshot, rfl, h₁.1.toHolding.snapshot, outcome_ok hu, hactive, hepoch, hrole⟩

/-- The query of the workload. -/
theorem wp_workload (h : Waiting settings hash n g θ s) {u : User} (hu : UserKnown n g u θ) :
    wp (consoleMachine rt settings hash) (contract rt settings hash n) (perform (.workload u.principal g.workloadId))
      (fun r θ s => Waiting settings hash n g θ s ∧ ∀ w, r = .ok (some w) → rt.upper w.powerState = "RUNNING" →
        w.kind = g.pveKind → Loaded rt n g θ) θ s := by
  refine wp_perform fun s₁ hrely i θ' s₂ r ⟨hsound, _, _⟩ hexec => ?_
  have hexec : (ConsoleOp.workload u.principal g.workloadId).exec rt hash i θ s₁ = (θ', s₂, r) :=
    Option.some.inj hexec
  have h₁ := h.others hrely
  cases hexec
  refine ⟨⟨does_of (fun _ hc => hc) (fun _ hx => hx) rfl rfl rfl le_rfl, fun hs => hs⟩, h₁.of_acquired rfl, ?_⟩
  intro w hw hrunning hkind
  obtain ⟨user, hstate, hfound⟩ := hu
  have hauthorized : authorizedConsoleWorkload u.principal g.workloadId s₁.db = .ok w := by
    have hw : (authorizedConsoleWorkload u.principal g.workloadId s₁.db).toOption = some w := outcome_ok hw
    revert hw
    cases authorizedConsoleWorkload u.principal g.workloadId s₁.db with
    | error e => exact fun hw => by cases hw
    | ok w' => exact fun hw => by cases hw; rfl
  exact ⟨user, s₁.snapshot, u, w, hstate, rfl,
    hfound.admitted h₁.1.toHolding.snapshot hauthorized hrunning hkind⟩

/-- **What is loaded is admitted**: each check stands between its query and the answer. -/
theorem wp_loadConnection (h : Waiting settings hash n g θ s) :
    wp (consoleMachine rt settings hash) (contract rt settings hash n) (loadConnection rt g)
      (fun r θ s => Waiting settings hash n g θ s ∧ ∀ c, r = .ok (some c) → Loaded rt n g θ) θ s := by
  unfold loadConnection
  refine wp_bind (wp_mono (fun found θ s hpost => ?_) (wp_user h))
  obtain ⟨hwait, hfound⟩ := hpost
  cases found with
  | error e => exact ⟨hwait, fun c hc => by cases hc⟩
  | ok found =>
    cases hfilter : found.filter fun u => u.isActive && u.sessionEpoch == g.sessionEpoch && u.role == g.role with
    | none =>
      simp only [hfilter]
      exact ⟨hwait, fun c hc => by cases hc⟩
    | some u =>
      simp only [hfilter]
      obtain ⟨hsome, hchecked⟩ := Option.filter_eq_some_iff.mp hfilter
      simp only [Bool.and_eq_true, beq_iff_eq] at hchecked
      obtain ⟨⟨hactive, hepoch⟩, hrole⟩ := hchecked
      have hknown : UserKnown n g u θ := hfound u (congrArg Except.ok hsome) hactive hepoch hrole
      refine wp_bind (wp_mono (fun workload θ s hpost => ?_) (wp_workload hwait hknown))
      obtain ⟨hwait, hloaded⟩ := hpost
      cases workload with
      | error e => exact ⟨hwait, fun c hc => by cases hc⟩
      | ok workload =>
        cases workload with
        | none => exact ⟨hwait, fun c hc => by cases hc⟩
        | some w =>
          dsimp only
          split
          · exact ⟨hwait, fun c hc => by cases hc⟩
          next hrunning =>
          split
          · exact ⟨hwait, fun c hc => by cases hc⟩
          next hkind =>
          split
          · exact ⟨hwait, fun c hc => by cases hc⟩
          have hloaded : Loaded rt n g θ := hloaded w rfl (not_not.mp hrunning) (not_not.mp hkind).symm
          have hquiet : (ConsoleOp.client w).Quiet := trivial
          refine wp_bind (wp_quiet_perform hquiet (fun _ _ hs hw => Waiting.others hw hs) hwait fun client s hwait => ?_)
          cases client with
          | error e => exact ⟨hwait, fun c hc => by cases hc⟩
          | ok client =>
            cases client
            · exact ⟨hwait, fun c hc => by cases hc⟩
            · exact ⟨hwait, fun c _ => hloaded⟩

/-! ### The upstream connection -/

/-- **An upstream connection** is opened by a connection that is admitted. -/
theorem wp_dial (h : Waiting settings hash n g θ s) (hloaded : Loaded rt n g θ) :
    wp (consoleMachine rt settings hash) (contract rt settings hash n) (op (.dial g))
      (fun _ θ s => Seated settings hash n g θ s) θ s := by
  refine wp_op fun s₁ hrely i θ' s₂ r ⟨hsound, hnumber, _⟩ hexec => ?_
  have hexec : (ConsoleOp.dial g).exec rt hash i θ s₁ = (θ', s₂, r) := Option.some.inj hexec
  obtain ⟨hseated, hundialed⟩ := h.others hrely
  cases hexec
  obtain ⟨user, workload, u, w, huser, hworkload, hadmitted⟩ := hloaded
  have hopened : Opened rt hash s₁ ⟨θ.number, g, θ.userState, θ.workloadState⟩ := by
    obtain ⟨x, hx, hn, hgranted⟩ := hseated.granted
    refine ⟨⟨x, hx, hn.trans hnumber.symm, hgranted⟩, user, workload, u, w, huser, hworkload, ?_⟩
    rw [hnumber]
    exact hadmitted
  refine ⟨⟨dial_does hnumber, fun hs => dial_sound hs hopened ?_⟩, ⟨hseated.granted, hseated.unrelayed⟩, hseated.slot⟩
  rw [hnumber]
  exact hundialed

/-- **A relay** runs in its slot, while the time of the slot lasts. -/
theorem wp_relay (h : Seated settings hash n g θ s) :
    wp (consoleMachine rt settings hash) (contract rt settings hash n)
      (do op (.relay g); perform .relayed : ConsoleProg Unit) (fun _ _ s => Holding hash n g s) θ s := by
  refine wp_bind (wp_op fun s₁ hrely i θ' s₂ r ⟨hsound, hnumber, _⟩ hexec => ?_)
  have hexec : (ConsoleOp.relay g).exec rt hash i θ s₁ = (θ', s₂, r) := Option.some.inj hexec
  have hseated := h.others hrely
  cases hexec
  refine ⟨⟨relay_does hnumber, fun hs => relay_sound hs ?_ ?_ ?_⟩, ?_⟩
  · rw [hnumber]
    exact hseated.holds
  · have hlease : Relay.lease settings.maxDuration ⟨θ.number, g.sessionId, g.userId, g.workloadId, θ.acquired, s₁.clock⟩
        = ⟨g.sessionId, θ.acquired + settings.maxDuration, n⟩ := by rw [hnumber]; rfl
    rw [hlease]
    exact hseated.slot
  · rw [hnumber]
    exact hseated.unrelayed
  · -- the relay that has begun ends
    have hgranted := hseated.granted
    refine wp_perform fun s₃ hrely i θ' s₄ r ⟨hsound, hnumber, _⟩ hexec => ?_
    have hexec : ConsoleOp.relayed.exec rt hash i θ s₃ = (θ', s₄, r) := Option.some.inj hexec
    cases hexec
    refine ⟨⟨hangUp_does n θ.number s₃ s₃.handshakes, fun hs => hangUp_sound hs θ.number s₃.handshakes⟩, ?_, ?_⟩
    · obtain ⟨x, hx, hn, hid, c, hc, hgrant⟩ := hgranted
      exact ⟨x, hrely.consumed x hx, hn, hid, c, hrely.created c hc, hgrant⟩
    · intro q hq
      rw [← hnumber]
      simpa using (List.mem_filter.mp hq).2

/-- The frame for the terminal changes nothing at the site. -/
theorem wp_sendTerminalAuth (frame : Option String) (h : Seated settings hash n g θ s) :
    wp (consoleMachine rt settings hash) (contract rt settings hash n) (sendTerminalAuth frame)
      (fun _ θ s => Seated settings hash n g θ s) θ s := by
  cases frame with
  | none => exact h
  | some frame =>
    have hquiet : (ConsoleOp.sendAuth frame).Quiet := trivial
    exact wp_quiet_perform hquiet (fun _ _ hs hk => Seated.others hk hs) h fun _ _ hk => hk

/-- What is loaded is served, up to the end of its relay. -/
theorem wp_serveConnection (connection : ConsoleConnection) (h : Waiting settings hash n g θ s)
    (hloaded : Loaded rt n g θ) :
    wp (consoleMachine rt settings hash) (contract rt settings hash n) (serveConnection g connection)
      (fun _ _ s => Holding hash n g s) θ s := by
  have haccept : ConsoleOp.accept.Quiet := trivial
  have hanswered : ConsoleOp.answered.Quiet := trivial
  unfold serveConnection
  refine wp_bind (wp_quiet_perform haccept (fun _ _ hs hw => Waiting.others hw hs) h fun accepted s hwait => ?_)
  cases accepted with
  | error e => exact hwait.1.toHolding
  | ok _ =>
    refine wp_bind (wp_mono (fun opened θ s hseated => ?_) (wp_dial hwait hloaded))
    cases opened with
    | error e => exact hseated.toHolding
    | ok _ =>
      refine wp_bind (wp_quiet_perform hanswered (fun _ _ hs hk => Seated.others hk hs) hseated fun answered s hseated => ?_)
      cases answered with
      | error e => exact hseated.toHolding
      | ok _ =>
        refine wp_bind (wp_ofExcept.mpr ?_)
        cases terminalProxyAuthFrame connection.proxy with
        | error e => exact hseated.toHolding
        | ok frame =>
          refine wp_bind (wp_mono (fun sent θ s hseated => ?_) (wp_sendTerminalAuth frame hseated))
          cases sent with
          | error e => exact hseated.toHolding
          | ok _ => exact wp_relay hseated

/-! ### The end -/

/-- **The slot of a session is given back** by the connection that holds it. -/
theorem wp_release (h : Holding hash n g s) :
    wp (consoleMachine rt settings hash) (contract rt settings hash n) (op (.release g)) (fun _ _ _ => True) θ s := by
  refine wp_op fun s₁ hrely i θ' s₂ r ⟨hsound, _, _⟩ hexec => ?_
  have hexec : (ConsoleOp.release g).exec rt hash i θ s₁ = (θ', s₂, r) := Option.some.inj hexec
  have hstate : (i.redis.call s₁ (s₁.release g, ()) ()).1 = s₂ := congrArg (fun out => out.2.1) hexec
  have h₁ := h.others hrely
  refine ⟨?_, trivial⟩
  rw [← hstate]
  rcases RedisOutcome.call_fst i.redis s₁ (s₁.release g, ()) () with hc | hc
  · rw [hc]
    exact ⟨does_of (fun _ hc => hc) (fun _ hx => hx) rfl rfl rfl le_rfl, fun hs => hs⟩
  · rw [hc]
    exact ⟨release_does hsound h₁.holds, fun hs => release_sound hs h₁.holds h₁.unrelayed⟩

/-- The end of a connection, however it came. -/
theorem wp_endConnection (client : Bool) (ended : Except Exn Unit) (h : Holding hash n g s) :
    wp (consoleMachine rt settings hash) (contract rt settings hash n) (endConnection g client ended)
      (fun _ _ _ => True) θ s := by
  have hclosed : wp (consoleMachine rt settings hash) (contract rt settings hash n) (closeClient client)
      (fun _ _ s => Holding hash n g s) θ s := by
    cases client with
    | false => exact h
    | true =>
      have hquiet : ConsoleOp.closeClient.Quiet := trivial
      exact wp_quiet_perform hquiet (fun _ _ hs hh => Holding.others hh hs) h fun _ _ hh => hh
  unfold endConnection
  refine wp_bind (wp_mono (fun closed θ s h => ?_) hclosed)
  cases closed with
  | error e => trivial
  | ok _ =>
    refine wp_then (wp_release h) fun _ _ _ => ?_
    cases ended with
    | ok _ => trivial
    | error e =>
      dsimp only
      split <;> trivial

theorem wp_holdConnection (h : Waiting settings hash n g θ s) :
    wp (consoleMachine rt settings hash) (contract rt settings hash n) (holdConnection rt g) (fun _ _ _ => True) θ s := by
  unfold holdConnection
  refine wp_bind (wp_attempt (wp_mono (fun loaded θ s ⟨hwait, hloaded⟩ => ?_) (wp_loadConnection h)))
  cases loaded with
  | error e => exact wp_endConnection false (.error e) hwait.1.toHolding
  | ok loaded =>
    cases loaded with
    | none => exact wp_endConnection false (.ok ()) hwait.1.toHolding
    | some connection =>
      have hserved := wp_serveConnection connection hwait (hloaded connection rfl)
      exact wp_bind (wp_attempt (wp_mono (fun ended θ s hh => wp_endConnection true ended hh) hserved))

/-- **A connection** that begins. -/
theorem wp_consoleWebsocket (m : WebsocketMessage) (hrelays : ∀ r ∈ s.relays, r.connection ≠ n)
    (hdials : Undialed n s) :
    wp (consoleMachine rt settings hash) (contract rt settings hash n) (consoleWebsocket rt settings m)
      (fun _ _ _ => True) θ s := by
  unfold consoleWebsocket
  cases m.token? settings with
  | none => trivial
  | some token =>
    refine wp_bind (wp_mono (fun values θ s ⟨hdials, hgranted⟩ => ?_) (wp_consume hrelays hdials))
    cases values with
    | error e => trivial
    | ok values =>
      dsimp only
      cases hg : parseGrant m.sessionId values with
      | none => trivial
      | some g =>
        refine wp_bind (wp_mono (fun taken θ s ⟨hdials, hseated⟩ => ?_) (wp_acquire (hgranted values g rfl hg) hdials))
        cases taken with
        | error e => trivial
        | ok taken =>
          cases taken with
          | false => trivial
          | true => exact wp_holdConnection ⟨hseated rfl, hdials⟩

/-- Every message, from its beginning. -/
theorem wp_message (m : ConsoleMessage) (hnew : ¬ Traced n s) :
    wp (consoleMachine rt settings hash) (contract rt settings hash n) (m.program rt settings) (fun _ _ _ => True) θ s := by
  cases m with
  | create principal workloadId => exact wp_then (wp_createSession principal workloadId) fun _ _ _ => trivial
  | connect m =>
    refine wp_consoleWebsocket m (fun r hr hn => hnew (Or.inr ⟨r, hr, hn⟩)) fun d hd hn => hnew (Or.inl ⟨d, hd, hn⟩)
  | wait seconds =>
    have hquiet : (ConsoleOp.elapse seconds).Quiet := trivial
    exact wp_idle_op hquiet

end Programs

/-! ### Runs -/

/-- What is assumed of runs of the console: a session gets an identifier that was never given
before. Everything else changes the database as it likes. -/
def consoleRuns : Conditions Exn ConsoleOp ConsoleProcess Site ConsoleInput ConsoleCall where
  step _ p _ s :=
    match p with
    | .node o _ => o.Fresh s
    | .done _ => True
  env s s' := s' = { s with db := s'.db }

/-- A process keeps its number. -/
theorem exec_number {ρ : Type} {o : ConsoleOp ρ} {i : ConsoleInput} {θ θ' : ConsoleProcess} {s s' : Site} {r : ρ}
    (h : (consoleMachine rt settings hash).exec o i θ s = some (θ', s', r)) : θ'.number = θ.number := by
  have hexec : o.exec rt hash i θ s = (θ', s', r) := Option.some.inj h
  have hθ : (o.exec rt hash i θ s).1 = θ' := congrArg Prod.fst hexec
  rw [← hθ]
  cases o with
  | commit audit =>
    unfold ConsoleOp.exec
    dsimp only
    split <;> rfl
  | _ => rfl

/-- **Console calls of different numbers** leave each other what they know. -/
theorem console_crew : Crew (consoleMachine rt settings hash)
    (Team.untraced (consoleMachine rt settings hash) consoleRuns ConsoleProcess.number Traced)
    ConsoleProcess.number (Sound rt hash settings.maxDuration)
    (fun θ p s => wp (consoleMachine rt settings hash) (contract rt settings hash θ.number) p (fun _ _ _ => True) θ s)
    (fun n => (contract rt settings hash n).guar) := by
  refine Crew.of_wp contract_closed (fun n m s s' hne h => h.1.others hne) (fun n s s' h => h.2)
    (fun _ _ _ _ _ _ => trivial) ?_ ?_ (fun o i θ θ' s s' r h => exec_number h) ?_ ?_
  · intro m s _ hspawn
    exact wp_message m.message hspawn.2
  · intro ρ o k i θ s hsound hfresh
    exact ⟨hsound, rfl, hfresh⟩
  · intro s s' hsound henv
    have henv : s' = { s with db := s'.db } := henv
    have hstill : Still s s' := by
      rw [henv]
      exact ⟨rfl, rfl, rfl, rfl, rfl, rfl, le_rfl⟩
    exact ⟨hstill.sound hsound, still_others hstill⟩
  · intro θ s
    exact ⟨hangUp_does θ.number θ.number s _, fun hs => hangUp_sound hs θ.number _⟩

/-- Nor does a quiet operation dial or relay. -/
theorem quiet_same {ρ : Type} {o : ConsoleOp ρ} {i : ConsoleInput} {θ θ' : ConsoleProcess} {s s' : Site} {r : ρ}
    (h : (consoleMachine rt settings hash).exec o i θ s = some (θ', s', r)) (hq : o.Quiet) :
    s'.dialed = s.dialed ∧ s'.relays = s.relays := by
  obtain ⟨-, hstill | ⟨id, ttl, rfl⟩⟩ := quiet_cases hq h
  · exact ⟨hstill.dialed, hstill.relays⟩
  · rcases expire_cases s id ttl with h | ⟨_, _, -, -, h⟩ <;> rw [h] <;> exact ⟨rfl, rfl⟩

/-- A call that leaves the upstream connections, whether it takes effect or not. -/
theorem RedisOutcome.call_same {α : Type} {o : RedisOutcome} {s : Site} {out : Site × α} {failed : α}
    (h : out.1.dialed = s.dialed ∧ out.1.relays = s.relays) :
    (o.call s out failed).1.dialed = s.dialed ∧ (o.call s out failed).1.relays = s.relays := by
  rcases RedisOutcome.call_fst o s out failed with hc | hc <;> rw [hc]
  · exact ⟨rfl, rfl⟩
  · exact h

/-- **Only a connection itself** leaves its trace. -/
theorem exec_traced {ρ : Type} {o : ConsoleOp ρ} {i : ConsoleInput} {θ θ' : ConsoleProcess} {s s' : Site} {r : ρ}
    (h : (consoleMachine rt settings hash).exec o i θ s = some (θ', s', r)) {n : Nat} (hn : Traced n s') :
    Traced n s ∨ n = θ.number := by
  have hexec : o.exec rt hash i θ s = (θ', s', r) := Option.some.inj h
  have hstate : (o.exec rt hash i θ s).2.1 = s' := congrArg (fun out => out.2.1) hexec
  have same (h : s'.dialed = s.dialed ∧ s'.relays = s.relays) : Traced n s ∨ n = θ.number := by
    unfold Traced at hn
    rw [h.1, h.2] at hn
    exact Or.inl hn
  cases o with
  | dial g =>
    rw [← hstate] at hn
    rcases hn with ⟨d, hd, rfl⟩ | hr
    · rcases List.mem_append.mp hd with hd | hd
      · exact Or.inl (Or.inl ⟨d, hd, rfl⟩)
      · rw [List.mem_singleton.mp hd]
        exact Or.inr rfl
    · exact Or.inl (Or.inr hr)
  | relay g =>
    rw [← hstate] at hn
    rcases hn with hd | ⟨q, hq, rfl⟩
    · exact Or.inl (Or.inl hd)
    · rcases List.mem_append.mp hq with hq | hq
      · exact Or.inl (Or.inr ⟨q, hq, rfl⟩)
      · rw [List.mem_singleton.mp hq]
        exact Or.inr rfl
  | relayed =>
    rw [← hstate] at hn
    rcases hn with hd | ⟨q, hq, rfl⟩
    · exact Or.inl (Or.inl hd)
    · exact Or.inl (Or.inr ⟨q, (List.mem_filter.mp hq).1, rfl⟩)
  | hset g token =>
    rw [← hstate] at same
    exact same (RedisOutcome.call_same ⟨rfl, rfl⟩)
  | consume id token =>
    rw [← hstate] at same
    refine same (RedisOutcome.call_same ?_)
    unfold Site.consume
    split
    · split <;> exact ⟨rfl, rfl⟩
    · exact ⟨rfl, rfl⟩
  | acquire g ttl =>
    rw [← hstate] at same
    refine same (RedisOutcome.call_same ?_)
    rcases acquire_cases θ.number s g ttl with hc | ⟨-, hc⟩ <;> rw [hc] <;> exact ⟨rfl, rfl⟩
  | release g =>
    rw [← hstate] at same
    refine same (RedisOutcome.call_same ?_)
    rcases release_cases s g with hc | ⟨_, -, -, hc⟩ <;> rw [hc] <;> exact ⟨rfl, rfl⟩
  | user id => rw [← hstate] at same; exact same ⟨rfl, rfl⟩
  | workload principal workloadId => rw [← hstate] at same; exact same ⟨rfl, rfl⟩
  | _ => exact same (quiet_same h trivial)

/-- The numbers of the calls of a run. -/
abbrev numbers (rt : Runtime) (settings : ConsoleSettings) (hash : String → String)
    (run : List (Action Site ConsoleInput ConsoleCall)) : List Nat :=
  spawned (consoleMachine rt settings hash) ConsoleProcess.number run

/-- A site without sessions is sound. -/
theorem idle_sound (db : Db) : Sound rt hash settings.maxDuration (Site.idle db) := by
  refine ⟨⟨List.nodup_nil, fun _ h => ?_, fun _ _ h => ?_, fun _ h => ?_, List.nodup_nil, fun _ h => ?_,
    fun _ h => ?_, List.nodup_nil⟩, fun _ _ h => ?_, fun _ h => ?_, List.nodup_nil⟩ <;> cases h

/-- Calls of different numbers are untraced when they begin. -/
theorem untraced_run {db : Db} {run : List (Action Site ConsoleInput ConsoleCall)}
    (hnumbers : (numbers rt settings hash run).Nodup)
    (hrun : Along (Sys.next (consoleMachine rt settings hash)) consoleRuns.Met (Sys.idle (Site.idle db)) run) :
    Along (Sys.next (consoleMachine rt settings hash))
      (Team.untraced (consoleMachine rt settings hash) consoleRuns ConsoleProcess.number Traced).Met
      (Sys.idle (Site.idle db)) run := by
  refine Team.along_untraced (fun o i θ θ' s s' r n h => ⟨exec_number h, exec_traced h⟩) ?_ ?_
    (fun _ _ _ h => by cases h) hnumbers ?_ hrun
  · intro θ s n hn
    refine Or.inl (hn.imp_right fun ⟨r, hr, hrn⟩ => ?_)
    exact ⟨r, (List.mem_filter.mp hr).1, hrn⟩
  · intro s s' n henv hn
    have henv : s' = { s with db := s'.db } := henv
    rw [henv] at hn
    exact hn
  · intro n _ hn
    rcases hn with ⟨d, hd, -⟩ | ⟨r, hr, -⟩
    · cases hd
    · cases hr

/-- **In every run** the grants and the slots are sound. -/
theorem sound_run {db : Db} {run : List (Action Site ConsoleInput ConsoleCall)}
    (hnumbers : (numbers rt settings hash run).Nodup)
    (hrun : Along (Sys.next (consoleMachine rt settings hash)) consoleRuns.Met (Sys.idle (Site.idle db)) run) :
    Sound rt hash settings.maxDuration
      (runFrom (Sys.next (consoleMachine rt settings hash)) (Sys.idle (Site.idle db)) run).shared := by
  have hteam : (Sys.idle (Site.idle db) : Sys Exn ConsoleOp ConsoleProcess Site).Teamed
      (consoleMachine rt settings hash) ConsoleProcess.number
      (fun θ p s => wp (consoleMachine rt settings hash) (contract rt settings hash θ.number) p (fun _ _ _ => True) θ s)
      (run ++ []) := by
    rw [List.append_nil]
    exact Team.teamed_idle hnumbers
  exact (console_crew.crew_run hteam (idle_sound db) (untraced_run hnumbers hrun)).2

/-! ### A site -/

instance {ρ : Type} (o : ConsoleOp ρ) (s : Site) : Decidable (o.Fresh s) := by
  induction o using ConsoleOp.casesOn with
  | hset g token => exact List.decidableBAll _ _
  | _ => exact .isTrue trivial

instance (θ : ConsoleProcess) (p : Prog Exn ConsoleOp Unit) (i : ConsoleInput) (s : Site) :
    Decidable (consoleRuns.step θ p i s) :=
  match p with
  | .node o _ => inferInstanceAs (Decidable (o.Fresh s))
  | .done _ => .isTrue trivial

instance (m : ConsoleCall) (s : Site) : Decidable (consoleRuns.spawn m s) := .isTrue trivial

instance (θ : ConsoleProcess) (p : Prog Exn ConsoleOp Unit) (s : Site) : Decidable (consoleRuns.crash θ p s) :=
  .isTrue trivial

def sampleSettings : ConsoleSettings := ⟨30, 3600, 15, ["https://portal.example"]⟩

/-- One administrator and one running VM. -/
def sampleDb : Db := { (sampleWorld .workloadBackup).db with
  workloads := .single { sampleWorkload 1 with powerState := "RUNNING" } }

/-- Everything succeeds; a session gets an identifier. -/
def sampleInput (sessionId : Uuid) : ConsoleInput where
  redis := .done
  surroundings := ⟨some 1, true, .ok ⟨.qemu, "pve1", 100, 5900, "PVEVNC:1", none⟩, true, sessionId, 10⟩
  token := "token"
  fails := none

abbrev ConsoleAction := Action Site ConsoleInput ConsoleCall

def acts (pid : Nat) (sessionId : Uuid) (count : Nat) : List ConsoleAction :=
  List.replicate count (.step pid (sampleInput sessionId))

/-- A session is created. -/
def sampleCreation (pid : Nat) (sessionId : Uuid) : List ConsoleAction :=
  .spawn pid ⟨pid, .create ⟨1, "admin", .superAdmin, 1⟩ 1⟩ :: acts pid sessionId 7

/-- A browser that presents a token. -/
def sampleConnection (sessionId : Uuid) (token : String) : WebsocketMessage where
  sessionId := sessionId
  origin := some "https://portal.example"
  protocols := some ("binary, pvemaster.console." ++ token)

def sampleConnect (pid : Nat) (sessionId : Uuid) (token : String) : ConsoleAction :=
  .spawn pid ⟨pid, .connect (sampleConnection sessionId token)⟩

/-- The SHA-256 hash of the token. -/
def sampleHash (token : String) : String :=
  if token = "token" then "3c469e9d6c5875d37a43f353d4f88e61fcf812c66eee3457465a40b0da4153e0" else token

/-- The state a run leads to. -/
def sampleRun (run : List ConsoleAction) : Site :=
  (runFrom (Sys.next (consoleMachine asciiRuntime sampleSettings sampleHash)) (Sys.idle (Site.idle sampleDb)) run).shared

end PveMaster.Console
