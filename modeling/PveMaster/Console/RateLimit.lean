import PveMaster.Console.Websocket
import PveMaster.Foundation.Limiting

/-! How many console sessions a user is let through to.

`_check_rate_limit` counts a call and, if it is the first, has the counter expire in a minute: two commands, and
others come between them. In whatever order they come, no more than twice the limit of a user's calls pass in
a minute (`passed_within`). A first call that ends between the two leaves a counter that does not expire: its
user passes at most as often as the limit was not reached, and never again (`passed_after`). -/
namespace PveMaster.Console
open Limiting

/-! ### Calls -/

inductive Stage where
  /-- It has counted to 1, and is about to send `EXPIRE`. -/
  | waiting
  | passed
  /-- `CONSOLE_RATE_LIMITED`. -/
  | refused
  /-- Redis has failed, or the process. -/
  | failed
  deriving DecidableEq

/-- A call that was counted, with the answer of its `INCR`. -/
structure RateCall where
  user : Uuid
  answer : Answer
  stage : Stage

structure RateState where
  clock : Instant
  meters : List Char → Meter
  calls : List RateCall

def RateState.fresh (clock : Instant) : RateState := ⟨clock, fun _ => .fresh, []⟩

/-- `f"console:rate:{user_id}"`. -/
def rateKey (user : Uuid) : List Char := "console:rate:".toList ++ Text.uuid user

def minute : Int := 60 * second

/-- What happens to a call, or to the clock. -/
inductive RateEvent where
  | incr (user : Uuid) (outcome : RedisOutcome)
  | expire (call : Nat) (outcome : RedisOutcome)
  | die (call : Nat)
  | elapse (microseconds : Nat)

def concluded (limit count : Nat) : Stage := if count > limit then .refused else .passed

/-- The stage of a call, once it has been counted. -/
def counted (limit count : Nat) (outcome : RedisOutcome) : Stage :=
  if outcome = .lost then .failed else if count = 1 then .waiting else concluded limit count

def RateState.meter (s : RateState) (user : Uuid) : Meter := s.meters (rateKey user)

def RateState.setMeter (s : RateState) (user : Uuid) (m : Meter) : RateState :=
  { s with meters := Function.update s.meters (rateKey user) m }

def RateState.add (s : RateState) (c : RateCall) : RateState := { s with calls := s.calls ++ [c] }

def RateState.setStage (s : RateState) (i : Nat) (c : RateCall) (stage : Stage) : RateState :=
  { s with calls := s.calls.set i { c with stage := stage } }

/-- The call that waits under a number. -/
def RateState.waiting? (s : RateState) (i : Nat) : Option RateCall := s.calls[i]?.filter fun c => c.stage = .waiting

/-- `_check_rate_limit`, one command after the other. -/
def RateState.next (limit : Nat) (s : RateState) : RateEvent → RateState
  | .incr _ .refused => s
  | .incr user outcome =>
    let (m, count) := (s.meter user).incr s.clock
    (s.setMeter user m).add ⟨user, ⟨s.clock, m.generation, count⟩, counted limit count outcome⟩
  | .expire i outcome =>
    match s.waiting? i with
    | none => s
    | some c =>
      let expiring := if outcome = .refused then s else s.setMeter c.user ((s.meter c.user).expire s.clock minute)
      expiring.setStage i c (if outcome = .done then concluded limit 1 else .failed)
  | .die i =>
    match s.waiting? i with
    | none => s
    | some c => s.setStage i c .failed
  | .elapse microseconds => { s with clock := s.clock + microseconds }

def RateState.run (limit : Nat) (s : RateState) (events : List RateEvent) : RateState := events.foldl (RateState.next limit) s

/-- A call passes as `_check_rate_limit` returns. -/
theorem concluded_passed (limit count : Nat) (s : Surroundings) (hrate : s.rate = some count) (hlimit : s.sessionsPerMinute = limit) :
    concluded limit count = .passed ↔ checkRateLimit s = .ok () := by
  unfold concluded checkRateLimit
  rw [hrate, hlimit]
  split
  · next h => simp [orRaise, raiseIf, h, bind, Except.bind]
  · next h => simp [orRaise, raiseIf, h, bind, Except.bind]

/-! ### What a step does -/

theorem rateKey_inj {u v : Uuid} (h : rateKey u = rateKey v) : u = v := Text.uuid_inj (List.append_cancel_left h)

@[simp] theorem setMeter_self (s : RateState) (user : Uuid) (m : Meter) : (s.setMeter user m).meter user = m :=
  Function.update_self _ _ _

theorem setMeter_of_ne (s : RateState) {user v : Uuid} (m : Meter) (h : v ≠ user) : (s.setMeter user m).meter v = s.meter v :=
  Function.update_of_ne (fun heq => h (rateKey_inj heq)) _ _

@[simp] theorem setMeter_clock (s : RateState) (user : Uuid) (m : Meter) : (s.setMeter user m).clock = s.clock := rfl

@[simp] theorem setMeter_calls (s : RateState) (user : Uuid) (m : Meter) : (s.setMeter user m).calls = s.calls := rfl

@[simp] theorem add_clock (s : RateState) (c : RateCall) : (s.add c).clock = s.clock := rfl

@[simp] theorem add_calls (s : RateState) (c : RateCall) : (s.add c).calls = s.calls ++ [c] := rfl

@[simp] theorem add_meter (s : RateState) (c : RateCall) (user : Uuid) : (s.add c).meter user = s.meter user := rfl

@[simp] theorem setStage_meter (s : RateState) (i : Nat) (c : RateCall) (stage : Stage) (user : Uuid) :
    (s.setStage i c stage).meter user = s.meter user := rfl

/-- The calls of a user. -/
def RateState.of (s : RateState) (user : Uuid) : List RateCall := s.calls.filter fun c => c.user = user

theorem waiting?_eq {s : RateState} {i : Nat} {c : RateCall} (h : s.waiting? i = some c) :
    s.calls[i]? = some c ∧ c.stage = .waiting := by
  obtain ⟨hc, hstage⟩ := Option.filter_eq_some_iff.mp h
  exact ⟨hc, by simpa using hstage⟩

/-- What a step comes to: a call that is counted, a call that waits no more, its counter expiring or as it was, or time. -/
inductive RateStep (limit : Nat) (s : RateState) : RateState → Prop
  | idle : RateStep limit s s
  | count (user : Uuid) (outcome : RedisOutcome) : RateStep limit s ((s.setMeter user ((s.meter user).incr s.clock).1).add
      ⟨user, ⟨s.clock, ((s.meter user).incr s.clock).1.generation, ((s.meter user).incr s.clock).2⟩,
        counted limit ((s.meter user).incr s.clock).2 outcome⟩)
  | expire {i : Nat} {c : RateCall} (hc : s.waiting? i = some c) {stage : Stage} (hstage : stage = .failed ∨ stage = concluded limit 1) :
      RateStep limit s ((s.setMeter c.user ((s.meter c.user).expire s.clock minute)).setStage i c stage)
  | fail {i : Nat} {c : RateCall} (hc : s.waiting? i = some c) : RateStep limit s (s.setStage i c .failed)
  | elapse (microseconds : Nat) : RateStep limit s { s with clock := s.clock + microseconds }

theorem step_next (limit : Nat) (s : RateState) (e : RateEvent) : RateStep limit s (s.next limit e) := by
  cases e with
  | incr user outcome =>
    cases outcome with
    | refused => exact .idle
    | done => exact .count user .done
    | lost => exact .count user .lost
  | expire i outcome =>
    cases hc : s.waiting? i with
    | none =>
      simp only [RateState.next, hc]
      exact .idle
    | some c =>
      simp only [RateState.next, hc]
      cases outcome with
      | refused => exact .fail hc
      | done => exact .expire hc (Or.inr rfl)
      | lost => exact .expire hc (Or.inl rfl)
  | die i =>
    cases hc : s.waiting? i with
    | none =>
      simp only [RateState.next, hc]
      exact .idle
    | some c =>
      simp only [RateState.next, hc]
      exact .fail hc
  | elapse microseconds => exact .elapse microseconds

/-! ### Passing within a minute -/

/-- A user's calls are the answers of the user's counter, and what passes is within the limit. -/
structure Limited (limit : Nat) (s : RateState) : Prop where
  metered : ∀ user, Metered minute s.clock (s.meter user)
  answered : ∀ user, (s.of user).map RateCall.answer = (s.meter user).answers
  within : ∀ c ∈ s.calls, c.stage = .passed → c.answer.count ≤ limit
  first : ∀ c ∈ s.calls, c.stage = .waiting → c.answer.count = 1

variable {limit : Nat} {s s' : RateState}

theorem limited_fresh (limit : Nat) (clock : Instant) : Limited limit (.fresh clock) where
  metered _ := metered_fresh _ _
  answered _ := rfl
  within _ hc := absurd hc List.not_mem_nil
  first _ hc := absurd hc List.not_mem_nil

theorem concluded_within {count : Nat} (h : concluded limit count = .passed) : count ≤ limit := by
  unfold concluded at h
  split at h
  · cases h
  · omega

theorem concluded_ne_waiting (limit count : Nat) : concluded limit count ≠ .waiting := by
  unfold concluded
  split <;> simp

/-- An element in the place of one that is alike. -/
theorem map_filter_set {α β : Type} {p : α → Bool} {f : α → β} {l : List α} {i : Nat} {a b : α} (ha : l[i]? = some a)
    (hp : p b = p a) (hf : f b = f a) : ((l.set i b).filter p).map f = (l.filter p).map f := by
  induction l generalizing i with
  | nil => simp at ha
  | cons c l ih =>
    cases i with
    | zero =>
      cases ha
      rw [List.set_cons_zero, List.filter_cons, List.filter_cons, hp]
      split
      · rw [List.map_cons, List.map_cons, hf]
      · rfl
    | succ i =>
      rw [List.set_cons_succ, List.filter_cons, List.filter_cons]
      split
      · rw [List.map_cons, List.map_cons, ih ha]
      · exact ih ha

/-- Stages do not change whose calls they are, nor their answers. -/
theorem of_setStage {i : Nat} {c : RateCall} (hc : s.waiting? i = some c) (stage : Stage) (user : Uuid) :
    ((s.setStage i c stage).of user).map RateCall.answer = (s.of user).map RateCall.answer :=
  map_filter_set (waiting?_eq hc).1 rfl rfl

theorem Limited.setStage (h : Limited limit s) {i : Nat} {c : RateCall} (hc : s.waiting? i = some c) {stage : Stage}
    (hstage : stage = .failed ∨ stage = concluded limit 1) : Limited limit (s.setStage i c stage) where
  metered := h.metered
  answered user := (of_setStage hc stage user).trans (h.answered user)
  within d hd hpassed := by
    have hmem := List.mem_of_getElem? (waiting?_eq hc).1
    rcases List.mem_or_eq_of_mem_set hd with hd | rfl
    · exact h.within d hd hpassed
    · have hone := h.first c hmem (waiting?_eq hc).2
      rcases hstage with rfl | rfl
      · cases hpassed
      · show c.answer.count ≤ limit
        rw [hone]
        exact concluded_within hpassed
  first d hd hwaiting := by
    rcases List.mem_or_eq_of_mem_set hd with hd | rfl
    · exact h.first d hd hwaiting
    · rcases hstage with rfl | rfl
      · cases hwaiting
      · exact absurd hwaiting (concluded_ne_waiting limit 1)

theorem Limited.count (h : Limited limit s) (user : Uuid) (outcome : RedisOutcome) :
    Limited limit ((s.setMeter user ((s.meter user).incr s.clock).1).add
      ⟨user, ⟨s.clock, ((s.meter user).incr s.clock).1.generation, ((s.meter user).incr s.clock).2⟩,
        counted limit ((s.meter user).incr s.clock).2 outcome⟩) where
  metered v := by
    rw [add_clock, add_meter, setMeter_clock]
    by_cases hv : v = user
    · subst hv
      rw [setMeter_self]
      exact (h.metered v).incr
    · rw [setMeter_of_ne s _ hv]
      exact h.metered v
  answered v := by
    unfold RateState.of
    rw [add_calls, add_meter, setMeter_calls, List.filter_append, List.map_append]
    by_cases hv : v = user
    · subst hv
      rw [setMeter_self, incr_answers, ← h.answered v]
      simp [RateState.of]
    · rw [setMeter_of_ne s _ hv, ← h.answered v]
      simp [RateState.of, Ne.symm hv]
  within d hd hpassed := by
    rcases List.mem_append.mp hd with hd | hd
    · exact h.within d hd hpassed
    · cases List.mem_singleton.mp hd
      dsimp only [counted] at hpassed
      split at hpassed
      · cases hpassed
      · split at hpassed
        · cases hpassed
        · exact concluded_within hpassed
  first d hd hwaiting := by
    rcases List.mem_append.mp hd with hd | hd
    · exact h.first d hd hwaiting
    · cases List.mem_singleton.mp hd
      dsimp only [counted] at hwaiting
      split at hwaiting
      · cases hwaiting
      · split at hwaiting
        · assumption
        · exact absurd hwaiting (concluded_ne_waiting limit _)

theorem Limited.setMeter (h : Limited limit s) {user : Uuid} {m : Meter} (hm : Metered minute s.clock m)
    (hanswers : m.answers = (s.meter user).answers) : Limited limit (s.setMeter user m) where
  metered v := by
    by_cases hv : v = user
    · subst hv
      rw [setMeter_self]
      exact hm
    · rw [setMeter_of_ne s _ hv]
      exact h.metered v
  answered v := by
    show (s.of v).map RateCall.answer = _
    by_cases hv : v = user
    · subst hv
      rw [setMeter_self, hanswers]
      exact h.answered v
    · rw [setMeter_of_ne s _ hv]
      exact h.answered v
  within := h.within
  first := h.first

theorem Limited.step (h : Limited limit s) (hs : RateStep limit s s') : Limited limit s' := by
  cases hs with
  | idle => exact h
  | count user outcome => exact h.count user outcome
  | expire hc hstage =>
    exact (h.setMeter (h.metered _).expire (expire_answers _ _ _)).setStage hc hstage
  | fail hc => exact h.setStage hc (Or.inl rfl)
  | elapse microseconds =>
    exact { h with metered := fun user => (h.metered user).elapse (by show s.clock ≤ s.clock + microseconds; grind) }

theorem Limited.run (h : Limited limit s) (events : List RateEvent) : Limited limit (s.run limit events) := by
  induction events generalizing s with
  | nil => exact h
  | cons e events ih => exact ih (h.step (step_next limit s e))

/-- **No more than twice the limit** of a user's calls pass in less than a minute. -/
theorem passed_within (limit : Nat) (clock : Instant) (events : List RateEvent) (user : Uuid) (start : Instant) :
    (((RateState.fresh clock).run limit events).calls.filter fun c =>
      c.user = user ∧ c.stage = .passed ∧ during start minute c.answer = true).length ≤ 2 * limit := by
  have h := (limited_fresh limit clock).run events
  let s := (RateState.fresh clock).run limit events
  let within (a : Answer) : Bool := during start minute a && decide (a.count ≤ limit)
  have hanswers : (s.meter user).answers.filter within =
      ((s.calls.filter fun c => decide (c.user = user)).filter fun c => within c.answer).map RateCall.answer := by
    rw [← h.answered user, List.filter_map]
    rfl
  have hpassed : (s.calls.filter fun c => c.user = user ∧ c.stage = .passed ∧ during start minute c.answer = true) =
      ((s.calls.filter fun c => decide (c.user = user)).filter fun c => within c.answer).filter fun c => c.stage = .passed := by
    rw [List.filter_filter, List.filter_filter]
    refine List.filter_congr fun c hc => ?_
    have hcount := h.within c hc
    by_cases hstage : c.stage = .passed
    · simp [hstage, within, hcount hstage, Bool.and_comm]
    · simp [hstage]
  calc _ = _ := congrArg List.length hpassed
    _ ≤ ((s.calls.filter fun c => decide (c.user = user)).filter fun c => within c.answer).length := List.length_filter_le _ _
    _ = ((s.meter user).answers.filter within).length := by rw [hanswers, List.length_map]
    _ ≤ 2 * limit := (h.metered user).within_le start limit

/-! ### Never passing again -/

/-- A call that waits is of the generation its counter is in, and the counter does not expire yet. -/
def Pending (s : RateState) : Prop :=
  ∀ i c, s.waiting? i = some c → c.answer.generation = (s.meter c.user).generation ∧
    ∃ n, (s.meter c.user).counter = some ⟨n, none⟩

theorem getElem?_append_singleton {α : Type} {l : List α} {a b : α} {i : Nat} (h : (l ++ [a])[i]? = some b) :
    l[i]? = some b ∨ i = l.length ∧ a = b := by
  rw [List.getElem?_append] at h
  split at h
  · exact Or.inl h
  · next hle =>
    have hi : i - l.length = 0 := by
      have := (List.getElem?_eq_some_iff.mp h).1
      rw [List.length_singleton] at this
      omega
    rw [hi] at h
    exact Or.inr ⟨by omega, Option.some.inj h⟩

theorem waiting?_some {i : Nat} {c : RateCall} (hc : s.calls[i]? = some c) (hstage : c.stage = .waiting) :
    s.waiting? i = some c := by
  simp [RateState.waiting?, hc, hstage]

/-- No two calls of a user got one answer. -/
theorem Limited.alone (h : Limited limit s) {i j : Nat} {c d : RateCall} (hc : s.calls[i]? = some c) (hd : s.calls[j]? = some d)
    (huser : d.user = c.user) (hgen : d.answer.generation = c.answer.generation) (hcount : d.answer.count = c.answer.count) :
    i = j := by
  have hnodup := (h.metered c.user).distinct
  rw [← h.answered, List.map_map, List.Nodup, List.pairwise_map, RateState.of, List.pairwise_filter] at hnodup
  obtain ⟨hi, hci⟩ := List.getElem?_eq_some_iff.mp hc
  obtain ⟨hj, hdj⟩ := List.getElem?_eq_some_iff.mp hd
  have hpairs := List.pairwise_iff_getElem.mp hnodup
  have heq : (c.answer.generation, c.answer.count) = (d.answer.generation, d.answer.count) := by rw [hgen, hcount]
  by_contra hne
  rcases Nat.lt_or_gt_of_ne hne with hlt | hlt
  · have := hpairs i j hi hj hlt
    rw [hci, hdj] at this
    exact this (by simp) (by simp [huser]) heq
  · have := hpairs j i hj hi hlt
    rw [hci, hdj] at this
    exact this (by simp [huser]) (by simp) heq.symm

/-- What waits after a stage has been set waited before, under another number. -/
theorem waiting?_setStage {i j : Nat} {c d : RateCall} {stage : Stage} (hstage : stage ≠ .waiting)
    (hd : (s.setStage i c stage).waiting? j = some d) : i ≠ j ∧ s.waiting? j = some d := by
  obtain ⟨hd, hwaiting⟩ := waiting?_eq hd
  rw [RateState.setStage, List.getElem?_set] at hd
  split at hd
  · split at hd
    · cases hd
      exact absurd hwaiting hstage
    · cases hd
  · next hne => exact ⟨hne, waiting?_some hd hwaiting⟩

theorem counted_waiting {count : Nat} {outcome : RedisOutcome} (h : counted limit count outcome = .waiting) : count = 1 := by
  unfold counted at h
  split at h
  · cases h
  · split at h
    · assumption
    · exact absurd h (concluded_ne_waiting limit count)

theorem Pending.step (h : Pending s) (hlimited : Limited limit s) (hs : RateStep limit s s') : Pending s' := by
  cases hs with
  | idle => exact h
  | count user outcome =>
    intro j d hd
    obtain ⟨hd, hwaiting⟩ := waiting?_eq hd
    rw [add_meter]
    rcases getElem?_append_singleton hd with hold | ⟨-, rfl⟩
    · have hpending := h j d (waiting?_some hold hwaiting)
      by_cases huser : d.user = user
      · subst huser
        obtain ⟨hgen, n, hn⟩ := hpending
        obtain ⟨hcounter, hkept⟩ := incr_unexpiring s.clock hn
        rw [setMeter_self, hkept]
        exact ⟨hgen, n + 1, hcounter⟩
      · rw [setMeter_of_ne s _ huser]
        exact hpending
    · rw [setMeter_self]
      exact ⟨rfl, 1, (hlimited.metered user).incr_one (counted_waiting hwaiting)⟩
  | @expire i c hc stage hstage =>
    intro j d hd
    have hstage : stage ≠ .waiting := by
      rcases hstage with rfl | rfl
      · decide
      · exact concluded_ne_waiting limit 1
    obtain ⟨hne, hd⟩ := waiting?_setStage hstage hd
    have hd : s.waiting? j = some d := hd
    have hother : d.user ≠ c.user := by
      intro huser
      obtain ⟨hc, hcwaiting⟩ := waiting?_eq hc
      obtain ⟨hdj, hdwaiting⟩ := waiting?_eq hd
      have hfirst := hlimited.first c (List.mem_of_getElem? hc) hcwaiting
      have hsecond := hlimited.first d (List.mem_of_getElem? hdj) hdwaiting
      exact hne (hlimited.alone hc hdj huser (by rw [(h j d hd).1, (h i c (waiting?_some hc hcwaiting)).1, huser])
        (hsecond.trans hfirst.symm))
    rw [setStage_meter, setMeter_of_ne s _ hother]
    exact h j d hd
  | @fail i c hc =>
    intro j d hd
    exact h j d (waiting?_setStage (by decide) hd).2
  | elapse microseconds => exact h

theorem pending_run (limit : Nat) (clock : Instant) (events : List RateEvent) :
    Pending ((RateState.fresh clock).run limit events) := by
  have hrun (events : List RateEvent) : ∀ {s : RateState}, Limited limit s → Pending s → Pending (s.run limit events) := by
    induction events with
    | nil => exact fun _ h => h
    | cons e events ih => exact fun hl h => ih (hl.step (step_next limit _ e)) (h.step hl (step_next limit _ e))
  refine hrun events (limited_fresh limit clock) fun i c hc => ?_
  simp [RateState.waiting?, RateState.fresh] at hc

/-- A user's counter does not expire and no call waits to have it expire; the calls from a number on are its answers
from then on. -/
structure Locked (user : Uuid) (value : Nat) (before : List Answer) (number : Nat) (s : RateState) : Prop where
  stuck : Stuck value before (s.meter user)
  unwaited : ∀ i c, s.waiting? i = some c → c.user ≠ user
  known : number ≤ s.calls.length
  later : ((s.calls.drop number).filter fun c => c.user = user).map RateCall.answer =
    (s.meter user).answers.drop before.length

section Locked
variable {user : Uuid} {value number : Nat} {before : List Answer}

theorem Locked.setStage (h : Locked user value before number s) {i : Nat} {c : RateCall} (hc : s.waiting? i = some c) {stage : Stage}
    (hstage : stage ≠ .waiting) : Locked user value before number (s.setStage i c stage) where
  stuck := h.stuck
  unwaited j d hd := h.unwaited j d (waiting?_setStage hstage hd).2
  known := by
    rw [RateState.setStage, List.length_set]
    exact h.known
  later := by
    have hlater := h.later
    rw [RateState.setStage, List.drop_set]
    split
    · exact hlater
    · next hi =>
      have hget : (s.calls.drop number)[i - number]? = some c := by
        rw [List.getElem?_drop, Nat.add_sub_cancel' (by omega)]
        exact (waiting?_eq hc).1
      exact (map_filter_set (b := { c with stage := stage }) hget rfl rfl).trans hlater

theorem Locked.setMeter (h : Locked user value before number s) {v : Uuid} (hv : v ≠ user) (m : Meter) :
    Locked user value before number (s.setMeter v m) where
  stuck := (setMeter_of_ne s m hv.symm).symm ▸ h.stuck
  unwaited := h.unwaited
  known := h.known
  later := (setMeter_of_ne s m hv.symm).symm ▸ h.later

theorem Locked.count (h : Locked user value before number s) (hvalue : 1 ≤ value) (v : Uuid) (outcome : RedisOutcome) :
    Locked user value before number ((s.setMeter v ((s.meter v).incr s.clock).1).add
      ⟨v, ⟨s.clock, ((s.meter v).incr s.clock).1.generation, ((s.meter v).incr s.clock).2⟩,
        counted limit ((s.meter v).incr s.clock).2 outcome⟩) where
  stuck := by
    rw [add_meter]
    by_cases hv : user = v
    · subst hv
      rw [setMeter_self]
      exact (h.stuck.incr s.clock).1
    · rw [setMeter_of_ne s _ hv]
      exact h.stuck
  unwaited i c hc := by
    obtain ⟨hc, hwaiting⟩ := waiting?_eq hc
    rcases getElem?_append_singleton hc with hold | ⟨-, rfl⟩
    · exact h.unwaited i c (waiting?_some hold hwaiting)
    · -- The counter is past 1, so a call that counted to 1 is another user's.
      intro huser
      cases (huser : v = user)
      have hpast : value < ((s.meter v).incr s.clock).2 := (h.stuck.incr s.clock).2
      have hone : ((s.meter v).incr s.clock).2 = 1 := counted_waiting hwaiting
      omega
  known := by
    have := h.known
    simp only [RateState.add, RateState.setMeter, List.length_append]
    omega
  later := by
    rw [add_calls, add_meter, setMeter_calls, List.drop_append_of_le_length h.known, List.filter_append,
      List.map_append, h.later]
    by_cases hv : user = v
    · subst hv
      obtain ⟨more, hmore, -⟩ := h.stuck
      have hlong : before.length ≤ (s.meter user).answers.length := by
        rw [hmore, List.length_append]
        exact Nat.le_add_right _ _
      rw [setMeter_self, incr_answers, List.drop_append_of_le_length hlong]
      simp
    · rw [setMeter_of_ne s _ hv]
      simp [Ne.symm hv]

theorem Locked.step (h : Locked user value before number s) (hvalue : 1 ≤ value) (hs : RateStep limit s s') :
    Locked user value before number s' := by
  cases hs with
  | idle => exact h
  | count v outcome => exact h.count hvalue v outcome
  | @expire i c hc stage hstage =>
    have hstage : stage ≠ .waiting := by
      rcases hstage with rfl | rfl
      · decide
      · exact concluded_ne_waiting limit 1
    exact (h.setMeter (h.unwaited i c hc) _).setStage hc hstage
  | fail hc => exact h.setStage hc (by decide)
  | elapse microseconds => exact { h with }

end Locked

/-- **A first call that ends** before its `EXPIRE` leaves its user, for ever, fewer calls that pass than the limit. -/
theorem passed_after {limit : Nat} {clock : Instant} {events : List RateEvent} {s : RateState}
    (hs : s = (RateState.fresh clock).run limit events) {i : Nat} {c : RateCall} (hc : s.waiting? i = some c)
    {e : RateEvent} (he : e = .die i ∨ e = .expire i .refused) (later : List RateEvent) :
    ((((s.next limit e).run limit later).calls.drop s.calls.length).filter fun d =>
      d.user = c.user ∧ d.stage = .passed).length ≤ limit - 1 := by
  have hlimited : Limited limit s := hs ▸ (limited_fresh limit clock).run events
  have hpending : Pending s := hs ▸ pending_run limit clock events
  have hnext : s.next limit e = s.setStage i c .failed := by
    rcases he with rfl | rfl <;> simp [RateState.next, hc]
  obtain ⟨hgen, n, hcounter⟩ := hpending i c hc
  have hpositive : 1 ≤ n := (hlimited.metered c.user).positive _ hcounter
  have hlocked : Locked c.user n (s.meter c.user).answers s.calls.length (s.setStage i c .failed) :=
    { stuck := stuck_now hcounter
      unwaited := fun j d hd huser => by
        obtain ⟨hne, hd⟩ := waiting?_setStage (by decide) hd
        obtain ⟨hci, hcwaiting⟩ := waiting?_eq hc
        obtain ⟨hdj, hdwaiting⟩ := waiting?_eq hd
        have hfirst := hlimited.first c (List.mem_of_getElem? hci) hcwaiting
        have hsecond := hlimited.first d (List.mem_of_getElem? hdj) hdwaiting
        exact hne (hlimited.alone hci hdj huser (by rw [(hpending j d hd).1, hgen, huser]) (hsecond.trans hfirst.symm))
      known := by simp [RateState.setStage]
      later := by
        have hlength : (s.setStage i c .failed).calls.length ≤ s.calls.length := by simp [RateState.setStage]
        rw [List.drop_eq_nil_of_le hlength]
        exact List.drop_length.symm }
  have hrun (later : List RateEvent) : ∀ {s₀ : RateState}, Limited limit s₀ →
      Locked c.user n (s.meter c.user).answers s.calls.length s₀ →
      Limited limit (s₀.run limit later) ∧ Locked c.user n (s.meter c.user).answers s.calls.length (s₀.run limit later) := by
    induction later with
    | nil => exact fun hl h => ⟨hl, h⟩
    | cons e later ih => exact fun hl h => ih (hl.step (step_next limit _ e)) (h.step hpositive (step_next limit _ e))
  rw [hnext]
  obtain ⟨hlast, hlocked⟩ := hrun later (hlimited.setStage hc (Or.inl rfl)) hlocked
  let t := (s.setStage i c .failed).run limit later
  have hpassed : ((t.calls.drop s.calls.length).filter fun d => d.user = c.user ∧ d.stage = .passed) =
      (((t.calls.drop s.calls.length).filter fun d => decide (d.user = c.user)).filter fun d =>
        decide (d.answer.count ≤ limit)).filter fun d => d.stage = .passed := by
    rw [List.filter_filter, List.filter_filter]
    refine List.filter_congr fun d hd => ?_
    have hcount := hlast.within d (List.mem_of_mem_drop hd)
    by_cases hstage : d.stage = .passed
    · simp [hstage, hcount hstage]
    · simp [hstage]
  calc _ = _ := congrArg List.length hpassed
    _ ≤ (((t.calls.drop s.calls.length).filter fun d => decide (d.user = c.user)).filter fun d =>
        decide (d.answer.count ≤ limit)).length := List.length_filter_le _ _
    _ = (((t.meter c.user).answers.drop (s.meter c.user).answers.length).filter fun a => decide (a.count ≤ limit)).length := by
        rw [← hlocked.later, List.filter_map, List.length_map]
        rfl
    _ ≤ limit - n := hlocked.stuck.within_le limit
    _ ≤ limit - 1 := Nat.sub_le_sub_left hpositive limit

/-- The process of a first call ends, and its user calls twice an hour later. -/
theorem passed_after_ended : ∃ s, s = (RateState.fresh 0).run 1 [.incr 7 .done] ∧
    ((((s.next 1 (.die 0)).run 1 [.elapse 3600000000, .incr 7 .done, .incr 7 .done]).calls.drop s.calls.length).filter fun d =>
      d.user = 7 ∧ d.stage = .passed).length ≤ 0 :=
  ⟨_, rfl, passed_after (c := ⟨7, ⟨0, 1, 1⟩, .waiting⟩) rfl rfl (Or.inl rfl) _⟩

end PveMaster.Console
