import PveMaster.Console.Runs

/-! One live console for a user and a workload.

The time of a slot begins when it is acquired, that of a relay when the relay begins. What
passes between the two is what a relay may outlive its slot by. -/
namespace PveMaster.Console
open Prog

variable {rt : Runtime} {settings : ConsoleSettings} {hash : String → String}

/-! ### Time -/

/-- A process waits no longer than a relay and a handshake may last, by their own timeouts. -/
def ConsoleOp.Timed (settings : ConsoleSettings) {ρ : Type} (o : ConsoleOp ρ) (s : Site) : Prop :=
  match o with
  | .elapse seconds => (∀ r ∈ s.relays, s.clock + seconds ≤ r.started + settings.maxDuration) ∧
      ∀ h ∈ s.handshakes, s.clock + seconds ≤ h.started + settings.connectTimeout
  | _ => True

/-- What the timeouts of the code leave. -/
def timedRuns (settings : ConsoleSettings) : Conditions Exn ConsoleOp ConsoleProcess Site ConsoleInput ConsoleCall where
  step _ p _ s :=
    match p with
    | .node o _ => o.Fresh s ∧ o.Timed settings s
    | .done _ => True
  env := consoleRuns.env

/-- A relay begins, and goes on, while the time of its slot lasts. -/
def ConsoleOp.Timely (settings : ConsoleSettings) {ρ : Type} (o : ConsoleOp ρ) (θ : ConsoleProcess) (s : Site) : Prop :=
  match o with
  | .elapse seconds => ∀ r ∈ s.relays, s.clock + seconds ≤ r.acquired + settings.maxDuration
  | .relay _ => s.clock ≤ θ.acquired + settings.maxDuration
  | _ => True

/-- Every relay ends before its slot does. -/
def timelyRuns (settings : ConsoleSettings) : Conditions Exn ConsoleOp ConsoleProcess Site ConsoleInput ConsoleCall where
  step θ p _ s :=
    match p with
    | .node o _ => o.Timely settings θ s
    | .done _ => True
  env := consoleRuns.env

/-- The slots of the relays have not expired. -/
def InTime (settings : ConsoleSettings) (s : Site) : Prop :=
  ∀ r ∈ s.relays, s.clock ≤ r.acquired + settings.maxDuration

theorem InTime.of_less {s s' : Site} (h : InTime settings s) (hclock : s'.clock = s.clock)
    (hrelays : ∀ r ∈ s'.relays, r ∈ s.relays) : InTime settings s' := by
  intro r hr
  rw [hclock]
  exact h r (hrelays r hr)

/-- A call of Redis that leaves the time and the relays. -/
theorem InTime.call {α : Type} {s s' : Site} {o : RedisOutcome} {out : Site × α} {failed : α}
    (h : InTime settings s) (hs : (o.call s out failed).1 = s') (hclock : out.1.clock = s.clock)
    (hrelays : out.1.relays = s.relays) : InTime settings s' := by
  rw [← hs]
  rcases RedisOutcome.call_fst o s out failed with hc | hc <;> rw [hc]
  · exact h
  · exact h.of_less hclock fun r hr => by rw [hrelays] at hr; exact hr

/-- **A timely operation** leaves the slots of the relays their time. -/
theorem exec_inTime {ρ : Type} {o : ConsoleOp ρ} {i : ConsoleInput} {θ θ' : ConsoleProcess} {s s' : Site} {r : ρ}
    (hs : InTime settings s) (ho : o.Timely settings θ s)
    (h : (consoleMachine rt settings hash).exec o i θ s = some (θ', s', r)) : InTime settings s' := by
  have hexec : o.exec rt hash i θ s = (θ', s', r) := Option.some.inj h
  have hstate : (o.exec rt hash i θ s).2.1 = s' := congrArg (fun out => out.2.1) hexec
  cases o with
  | elapse seconds =>
    rw [← hstate]
    exact ho
  | relay g =>
    rw [← hstate]
    intro q hq
    rcases List.mem_append.mp hq with hq | hq
    · exact hs q hq
    · rw [List.mem_singleton.mp hq]
      exact ho
  | relayed =>
    rw [← hstate]
    exact hs.of_less rfl fun q hq => (List.mem_filter.mp hq).1
  | commit audit =>
    rw [← hstate]
    unfold ConsoleOp.exec
    dsimp only
    split <;> exact hs
  | hset g token => exact hs.call hstate rfl rfl
  | expire id ttl =>
    refine hs.call hstate ?_ ?_ <;>
      rcases expire_cases s id ttl with hc | ⟨_, _, -, -, hc⟩ <;> rw [hc]
  | consume id token =>
    have hsame : (s.consume hash θ.number id token).1.clock = s.clock ∧
        (s.consume hash θ.number id token).1.relays = s.relays := by
      unfold Site.consume
      split
      · split <;> exact ⟨rfl, rfl⟩
      · exact ⟨rfl, rfl⟩
    exact hs.call hstate hsame.1 hsame.2
  | acquire g ttl =>
    refine hs.call hstate ?_ ?_ <;>
      rcases acquire_cases θ.number s g ttl with hc | ⟨-, hc⟩ <;> rw [hc]
  | release g =>
    refine hs.call hstate ?_ ?_ <;>
      rcases release_cases s g with hc | ⟨_, -, -, hc⟩ <;> rw [hc]
  | _ => rw [← hstate]; exact hs

theorem inTime_next {s : Sys Exn ConsoleOp ConsoleProcess Site} {a : ConsoleAction}
    (hs : InTime settings s.shared) (ha : (timelyRuns settings).Met s a) :
    InTime settings (s.next (consoleMachine rt settings hash) a).shared := by
  have hdid := Sys.next_did (consoleMachine rt settings hash) s a
  generalize Sys.next (consoleMachine rt settings hash) s a = after at hdid ⊢
  cases hdid with
  | nothing => exact hs
  | spawned m hfree => exact hs
  | changed f =>
    have henv : f s.shared = { s.shared with db := (f s.shared).db } := ha
    show InTime settings (f s.shared)
    rw [henv]
    exact hs
  | ended hp hends => exact hs.of_less rfl fun q hq => (List.mem_filter.mp hq).1
  | performed hp hexec =>
    simp only [Conditions.Met, hp] at ha
    exact exec_inTime hs ha hexec

/-! ### Slots -/

/-- **Relays in time** run in slots of their own. -/
theorem slots_nodup {s : Site} (hs : Sound rt hash settings.maxDuration s) (htime : InTime settings s) :
    (s.relays.map Relay.slot).Nodup := by
  refine List.Nodup.map_on ?_ hs.leased.relays.of_map
  intro q hq r hr hslot
  have hq' : s.slots q.slot = some (q.lease settings.maxDuration) := (hs.leased.relaying q hq).2 (htime q hq)
  have hr' : s.slots r.slot = some (r.lease settings.maxDuration) := (hs.leased.relaying r hr).2 (htime r hr)
  rw [hslot, hr'] at hq'
  have hlease : r.lease settings.maxDuration = q.lease settings.maxDuration := Option.some.inj hq'
  have hn : q.connection = r.connection := (congrArg Slot.owner hlease).symm
  exact List.inj_on_of_nodup_map hs.leased.relays hq hr hn

/-- The slot that an action of a connection deletes is its own. -/
def DeletesOwn (rt : Runtime) (settings : ConsoleSettings) (hash : String → String)
    (s : Sys Exn ConsoleOp ConsoleProcess Site) (a : ConsoleAction) : Prop :=
  ∀ key slot, s.shared.slot? key = some slot →
    (s.next (consoleMachine rt settings hash) a).shared.slots key ≠ some slot →
      ∃ pid θ p, s.procs pid = some (θ, p) ∧ (a = .crash pid ∨ ∃ i, a = .step pid i) ∧ slot.owner = θ.number

/-- **In every run** a connection deletes no slot but its own. -/
theorem deletesOwn_run {db : Db} {run : List ConsoleAction} (hnumbers : (numbers rt settings hash run).Nodup)
    (hrun : Along (Sys.next (consoleMachine rt settings hash)) consoleRuns.Met (Sys.idle (Site.idle db)) run) :
    Along (Sys.next (consoleMachine rt settings hash)) (DeletesOwn rt settings hash) (Sys.idle (Site.idle db)) run := by
  refine console_crew.along_run ?_ (Team.teamed_idle hnumbers) (idle_sound db) (untraced_run hnumbers hrun)
  intro s a hL hsound ha key slot hslot hgone
  have hkey := (slot?_some.mp hslot).1
  have hdid := Sys.next_did (consoleMachine rt settings hash) s a
  generalize Sys.next (consoleMachine rt settings hash) s a = after at hdid hgone
  cases hdid with
  | nothing => exact absurd hkey hgone
  | spawned m hfree => exact absurd hkey hgone
  | changed f =>
    have henv : f s.shared = { s.shared with db := (f s.shared).db } := ha
    have hsame : (f s.shared).slots = s.shared.slots := by rw [henv]
    refine absurd ?_ hgone
    show (f s.shared).slots key = some slot
    rw [hsame]
    exact hkey
  | @ended pid θ p _ hp hends =>
    refine absurd ?_ hgone
    exact hkey
  | @performed pid i θ θ' ρ o k s' r hp hexec =>
    simp only [Conditions.Met, hp] at ha
    obtain ⟨⟨hdoes, -⟩, -⟩ := hL pid θ _ hp _ (Others.refl θ.number s.shared) i θ' s' r ⟨hsound, rfl, ha⟩ hexec
    refine ⟨pid, θ, _, hp, Or.inr ⟨i, rfl⟩, ?_⟩
    exact (hdoes.slots key slot hslot).resolve_left hgone

/-- **A slot is deleted by its connection only**, and while relays end before their slots do,
no two run for one user and one workload. -/
theorem one_live_console (rt : Runtime) (settings : ConsoleSettings) (hash : String → String) (db : Db)
    (run : List ConsoleAction) (hnumbers : (numbers rt settings hash run).Nodup)
    (hrun : Along (Sys.next (consoleMachine rt settings hash)) (timedRuns settings).Met
      (Sys.idle (Site.idle db)) run) :
    Along (Sys.next (consoleMachine rt settings hash)) (DeletesOwn rt settings hash) (Sys.idle (Site.idle db)) run ∧
      (Along (Sys.next (consoleMachine rt settings hash)) (timelyRuns settings).Met (Sys.idle (Site.idle db)) run →
        ((runFrom (Sys.next (consoleMachine rt settings hash)) (Sys.idle (Site.idle db)) run).shared.relays.map
          Relay.slot).Nodup) := by
  have hfresh : Along (Sys.next (consoleMachine rt settings hash)) consoleRuns.Met (Sys.idle (Site.idle db)) run := by
    refine hrun.mono fun s a ha => ?_
    refine @Conditions.met_mono _ _ _ _ _ _ (timedRuns settings) consoleRuns (fun _ _ h => h) (fun θ p i s h => ?_)
      (fun _ _ _ h => h) (fun _ _ h => h) s a ha
    cases p with
    | done r => trivial
    | node o k => exact h.1
  refine ⟨deletesOwn_run hnumbers hfresh, fun htimely => ?_⟩
  refine slots_nodup (sound_run hnumbers hfresh) ?_
  have step : ∀ (s : Sys Exn ConsoleOp ConsoleProcess Site) a, InTime settings s.shared →
      (timelyRuns settings).Met s a → InTime settings (s.next (consoleMachine rt settings hash) a).shared :=
    fun _ _ hs ha => inTime_next hs ha
  have hidle : InTime settings (Site.idle db) := fun r hr => by cases hr
  exact run_invariant (I := fun s => InTime settings s.shared) step hidle htimely

/-! ### Runs of a site -/

instance {ρ : Type} (o : ConsoleOp ρ) (s : Site) : Decidable (o.Timed settings s) := by
  induction o using ConsoleOp.casesOn with
  | elapse seconds => exact instDecidableAnd
  | _ => exact .isTrue trivial

instance {ρ : Type} (o : ConsoleOp ρ) (θ : ConsoleProcess) (s : Site) : Decidable (o.Timely settings θ s) := by
  induction o using ConsoleOp.casesOn with
  | elapse seconds => exact List.decidableBAll _ _
  | relay g => exact Nat.decLe _ _
  | _ => exact .isTrue trivial

instance (m : ConsoleCall) (s : Site) : Decidable ((timedRuns settings).spawn m s) := .isTrue trivial

instance (m : ConsoleCall) (s : Site) : Decidable ((timelyRuns settings).spawn m s) := .isTrue trivial

instance (θ : ConsoleProcess) (p : Prog Exn ConsoleOp Unit) (i : ConsoleInput) (s : Site) :
    Decidable ((timedRuns settings).step θ p i s) :=
  match p with
  | .node o _ => inferInstanceAs (Decidable (o.Fresh s ∧ o.Timed settings s))
  | .done _ => .isTrue trivial

instance (θ : ConsoleProcess) (p : Prog Exn ConsoleOp Unit) (i : ConsoleInput) (s : Site) :
    Decidable ((timelyRuns settings).step θ p i s) :=
  match p with
  | .node o _ => inferInstanceAs (Decidable (o.Timely settings θ s))
  | .done _ => .isTrue trivial

instance (θ : ConsoleProcess) (p : Prog Exn ConsoleOp Unit) (s : Site) : Decidable ((timedRuns settings).crash θ p s) :=
  .isTrue trivial

instance (θ : ConsoleProcess) (p : Prog Exn ConsoleOp Unit) (s : Site) :
    Decidable ((timelyRuns settings).crash θ p s) := .isTrue trivial

def sampleWait (pid seconds : Nat) : List ConsoleAction := .spawn pid ⟨pid, .wait seconds⟩ :: acts pid 0 1

/-- A second console is refused while the first one relays. -/
def refusedRun : List ConsoleAction :=
  sampleCreation 0 7 ++ (sampleConnect 1 7 "token" :: acts 1 0 9) ++ sampleWait 2 3600 ++ sampleCreation 3 8 ++
    (sampleConnect 4 8 "token" :: acts 4 0 9)

theorem refusedRun_alone : ((sampleRun refusedRun).relays.map Relay.slot).Nodup ∧
    (sampleRun refusedRun).relays.map Relay.connection = [1] := by
  have hrun : Along (Sys.next (consoleMachine asciiRuntime sampleSettings sampleHash)) (timedRuns sampleSettings).inside.Met
      (Sys.idle (Site.idle sampleDb)) refusedRun := by decide +kernel
  have htimely : Along (Sys.next (consoleMachine asciiRuntime sampleSettings sampleHash))
      (timelyRuns sampleSettings).inside.Met (Sys.idle (Site.idle sampleDb)) refusedRun := by decide +kernel
  have h := one_live_console asciiRuntime sampleSettings sampleHash sampleDb refusedRun (by decide +kernel)
    (Conditions.along_inside hrun)
  exact ⟨h.2 (Conditions.along_inside htimely), by decide +kernel⟩

/-- The handshake of the first console takes five seconds, and a second one is opened when the
slot of the first one has expired, within the time of its relay. -/
def overlappingRun : List ConsoleAction :=
  sampleCreation 0 7 ++ (sampleConnect 1 7 "token" :: acts 1 0 7) ++ sampleWait 2 5 ++ acts 1 0 2 ++
    sampleWait 3 3599 ++ sampleCreation 4 8 ++ (sampleConnect 5 8 "token" :: acts 5 0 9)

/-- **Two consoles relay** for one user and one workload. -/
theorem two_live_consoles : ¬ ∀ (rt : Runtime) (settings : ConsoleSettings) (hash : String → String) (db : Db)
    (run : List ConsoleAction), (numbers rt settings hash run).Nodup →
      Along (Sys.next (consoleMachine rt settings hash)) (timedRuns settings).Met (Sys.idle (Site.idle db)) run →
        ((runFrom (Sys.next (consoleMachine rt settings hash)) (Sys.idle (Site.idle db)) run).shared.relays.map
          Relay.slot).Nodup := by
  intro h
  have hrun : Along (Sys.next (consoleMachine asciiRuntime sampleSettings sampleHash)) (timedRuns sampleSettings).inside.Met
      (Sys.idle (Site.idle sampleDb)) overlappingRun := by decide +kernel
  have hslots : (sampleRun overlappingRun).relays.map Relay.slot = [(1, 1), (1, 1)] := by decide +kernel
  have hnumbers : (numbers asciiRuntime sampleSettings sampleHash overlappingRun).Nodup := by decide +kernel
  have hnodup := h asciiRuntime sampleSettings sampleHash sampleDb overlappingRun hnumbers (Conditions.along_inside hrun)
  unfold sampleRun at hslots
  rw [hslots] at hnodup
  exact absurd hnodup (by decide)

end PveMaster.Console
