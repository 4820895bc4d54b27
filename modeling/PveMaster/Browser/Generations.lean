import PveMaster.Browser.AuthenticatedFetch

/-! What a reset keeps apart.

Every event of the log carries the generation it happened in, which is the number of resets before
it (`generation_eq`). The invariant `Apart` says of each event what it shows of the state, and it
ties a call to the generation of its first request and a refresh to that of its `PUT`. A call acts
in its own generation only, it never joins a refresh that an earlier one has started, and what it
stores is from a refresh of its own generation (`isolated`). -/
namespace PveMaster.AuthenticatedFetch

/-- The refresh a call waits for, or has waited for. -/
def Phase.awaited : Phase → Option Nat
  | .waiting _ p => some p
  | .refreshed _ p _ => some p
  | _ => none

namespace State
variable (s : State)

/-- A call that sent its first request in this generation. -/
def Began (c g : Nat) : Prop := ∃ call, s.calls[c]? = some call ∧ call.requestGeneration = g

/-- A refresh was started in this generation. -/
def Requested (p g : Nat) : Prop := ∃ c, (g, Event.put p c) ∈ s.log

/-- What an event of the log says about the state. -/
def Shows (g : Nat) : Event → Prop
  | .sent c _ => s.Began c g
  | .put p _ => p < s.refreshes.length
  | .joined c p => s.Requested p g ∧ ∃ g', s.Began c g' ∧ g' ≤ g
  | .stored c p _ _ => s.Began c g ∧ s.Requested p g
  | .retried c _ _ => s.Began c g
  | _ => True

/-- Calls, refreshes and events stay; generations do not go back. -/
structure Grows (s' : State) : Prop where
  began : ∀ c g, s.Began c g → s'.Began c g
  refreshes : s.refreshes.length ≤ s'.refreshes.length
  log : s.log ⊆ s'.log
  generation : s.tokenStateGeneration ≤ s'.tokenStateGeneration

end State

theorem began_steps {s s' : State} {a : Action} (h : Steps s a s') {c g : Nat} (hc : s.Began c g) : s'.Began c g := by
  obtain ⟨call, hcall, hg⟩ := hc
  rcases steps_calls h with heq | ⟨new, heq⟩ | ⟨d, old, phase, hd, heq⟩
  · exact ⟨call, by rw [heq]; exact hcall, hg⟩
  · refine ⟨call, ?_, hg⟩
    rw [heq, List.getElem?_append_left (List.getElem?_eq_some_iff.mp hcall).1]
    exact hcall
  · rw [State.Began, heq]
    simp only [State.getElem?_advance hd]
    by_cases hcd : c = d
    · subst hcd
      rw [hd] at hcall
      cases hcall
      exact ⟨_, if_pos rfl, hg⟩
    · exact ⟨call, (if_neg hcd).trans hcall, hg⟩

theorem grows_steps {s s' : State} {a : Action} (h : Steps s a s') : s.Grows s' := by
  refine ⟨fun c g => began_steps h, ?_, ?_, ?_⟩
  · cases h with
    | request => exact Nat.le_trans (Nat.le_add_right _ 1) (by simp [State.request, State.record])
    | settle => simp [State.settle, State.record]
    | _ => exact Nat.le_refl _
  · obtain ⟨news, hlog⟩ := steps_log h
    rw [hlog]
    exact List.subset_append_right _ _
  · cases h with
    | reset => exact Nat.le_succ _
    | _ => exact Nat.le_refl _

theorem shows_grows {s s' : State} (h : s.Grows s') {g : Nat} {e : Event} (he : s.Shows g e) : s'.Shows g e := by
  have hrequested {p : Nat} (hp : s.Requested p g) : s'.Requested p g := by
    obtain ⟨c, hc⟩ := hp
    exact ⟨c, h.log hc⟩
  cases e with
  | sent c token => exact h.began c g he
  | put p c => exact Nat.lt_of_lt_of_le he h.refreshes
  | joined c p =>
    obtain ⟨hp, g', hbegan, hle⟩ := he
    exact ⟨hrequested hp, g', h.began c g' hbegan, hle⟩
  | stored c p key token => exact ⟨h.began c g he.1, hrequested he.2⟩
  | retried c p token => exact h.began c g he
  | _ => trivial

/-- **The invariant.** -/
structure Apart (s : State) : Prop where
  shows : ∀ g e, (g, e) ∈ s.log → g ≤ s.tokenStateGeneration ∧ s.Shows g e
  begun : ∀ (c : Nat) (call : Call), s.calls[c]? = some call → call.requestGeneration ≤ s.tokenStateGeneration
  flight : ∀ p, s.refreshInFlight = some p → s.Requested p s.tokenStateGeneration
  once : ∀ p g g' c c', (g, Event.put p c) ∈ s.log → (g', Event.put p c') ∈ s.log → g = g'
  awaited : ∀ (c : Nat) (call : Call) (p : Nat), s.calls[c]? = some call → call.phase.awaited = some p → ∃ g, (g, Event.joined c p) ∈ s.log

/-- An event that says nothing about generations. -/
def Event.Quiet : Event → Prop
  | .rejected _ | .obtained _ _ | .expired _ | .reset => True
  | _ => False

section Steps
variable {s s' : State} {a : Action}

theorem shows_quiet {e : Event} (h : e.Quiet) (g : Nat) : s.Shows g e := by
  cases e with
  | rejected | obtained | expired | reset => trivial
  | _ => exact h.elim

theorem quiet_settle {p : Nat} {outcome : Except RefreshError String} {e : Event} (h : e ∈ settleEvents p outcome) : e.Quiet := by
  unfold settleEvents at h
  split at h
  · cases List.mem_singleton.mp h
    trivial
  · split at h
    · cases List.mem_singleton.mp h
      trivial
    · cases h
  · cases h

/-- What a call waits for in a state, it has joined. -/
def Awaits (s s' : State) : Prop :=
  ∀ (c : Nat) (call : Call) (p : Nat), s.calls[c]? = some call → call.phase.awaited = some p → ∃ g, (g, Event.joined c p) ∈ s'.log

/-- A step adds events of the new generation, which show of the state what they should. -/
theorem apart_news {l : List Event} (hs : Apart s) (h : s.Grows s')
    (hlog : s'.log = l.map (fun e => (s'.tokenStateGeneration, e)) ++ s.log)
    (hshows : ∀ e ∈ l, s'.Shows s'.tokenStateGeneration e)
    (hputs : ∀ p c, Event.put p c ∈ l → s.refreshes.length ≤ p)
    (hbegun : ∀ (c : Nat) (call : Call), s'.calls[c]? = some call → call.requestGeneration ≤ s'.tokenStateGeneration)
    (hflight : ∀ p, s'.refreshInFlight = some p → s'.Requested p s'.tokenStateGeneration) (hawaited : Awaits s' s') : Apart s' := by
  have hmem {g : Nat} {e : Event} (hmem : (g, e) ∈ s'.log) : g = s'.tokenStateGeneration ∧ e ∈ l ∨ (g, e) ∈ s.log := by
    rw [hlog] at hmem
    refine (List.mem_append.mp hmem).imp_left fun hnew => ?_
    obtain ⟨e', he', heq⟩ := List.mem_map.mp hnew
    cases heq
    exact ⟨rfl, he'⟩
  have hearlier {g p c : Nat} (hput : (g, Event.put p c) ∈ s.log) : p < s.refreshes.length := (hs.shows g _ hput).2
  refine ⟨fun g e hge => ?_, hbegun, hflight, fun p g g' c c' hput hput' => ?_, hawaited⟩
  · rcases hmem hge with ⟨rfl, hnew⟩ | hold
    · exact ⟨Nat.le_refl _, hshows e hnew⟩
    · obtain ⟨hle, hshown⟩ := hs.shows g e hold
      exact ⟨Nat.le_trans hle h.generation, shows_grows h hshown⟩
  · rcases hmem hput with ⟨rfl, hnew⟩ | hold
    · rcases hmem hput' with ⟨rfl, -⟩ | hold'
      · rfl
      · exact absurd (hearlier hold') (Nat.not_lt_of_le (hputs p c hnew))
    · rcases hmem hput' with ⟨-, hnew'⟩ | hold'
      · exact absurd (hearlier hold) (Nat.not_lt_of_le (hputs p c' hnew'))
      · exact hs.once p g g' c c' hold hold'

/-- The refresh in flight is of the generation, as long as that is the same. -/
theorem requested_flight (hs : Apart s) (h : s.Grows s') (hgeneration : s'.tokenStateGeneration = s.tokenStateGeneration) {p : Nat}
    (hp : s.refreshInFlight = some p) : s'.Requested p s'.tokenStateGeneration := by
  obtain ⟨c, hc⟩ := hs.flight p hp
  exact ⟨c, hgeneration ▸ h.log hc⟩

theorem awaits_grows (hs : Apart s) (h : s.Grows s') : Awaits s s' := by
  intro c call p hc hp
  obtain ⟨g, hg⟩ := hs.awaited c call p hc hp
  exact ⟨g, h.log hg⟩

/-- A new phase waits for nothing, or for what its call has joined. -/
theorem awaits_advance {c : Nat} {call : Call} {phase : Phase} (hs : Apart s) (h : s.Grows s') (hcall : s.calls[c]? = some call)
    (hcalls : s'.calls = (s.advance c call phase).calls)
    (hphase : ∀ p, phase.awaited = some p → ∃ g, (g, Event.joined c p) ∈ s'.log) : Awaits s' s' := by
  intro d call' p hd hp
  rw [hcalls, State.getElem?_advance hcall] at hd
  split at hd
  · next heq =>
    cases hd
    subst heq
    exact hphase p hp
  · exact awaits_grows hs h d call' p hd hp

theorem begun_advance {c : Nat} {call : Call} {phase : Phase} (hs : Apart s) (hcall : s.calls[c]? = some call) {d : Nat}
    {call' : Call} (hd : (s.advance c call phase).calls[d]? = some call') : call'.requestGeneration ≤ s.tokenStateGeneration := by
  rw [State.getElem?_advance hcall] at hd
  split at hd
  · cases hd
    exact hs.begun c call hcall
  · exact hs.begun d call' hd

theorem apart_start (hs : Apart s) (token : String) : Apart (s.start token) := by
  have hgrows : s.Grows (s.start token) := grows_steps .start
  refine apart_news hs hgrows (l := [.sent s.calls.length (s.tokenReplacements.resolve token)]) rfl (fun e he => ?_)
    (fun p c hput => ?_) (fun c call hc => ?_) (fun p hp => requested_flight hs hgrows rfl hp) fun c call p hc hp => ?_
  · cases List.mem_singleton.mp he
    exact ⟨_, List.getElem?_concat_length, rfl⟩
  · cases List.mem_singleton.mp hput
  · rcases State.call_start hc with hc | ⟨-, rfl⟩
    · exact hs.begun c call hc
    · exact Nat.le_refl _
  · rcases State.call_start hc with hc | ⟨-, rfl⟩
    · exact awaits_grows hs hgrows c call p hc hp
    · cases hp

theorem apart_join (hs : Apart s) {c : Nat} {call : Call} {response : Response} {p : Nat} (hcall : s.calls[c]? = some call)
    (hflight : s.refreshInFlight = some p) (hsteps : Steps s a (s.join c call response p)) :
    Apart (s.join c call response p) := by
  have hgrows := grows_steps hsteps
  refine apart_news hs hgrows (l := [.joined c p]) rfl (fun e he => ?_) (fun q d hput => ?_)
    (fun d call' hd => begun_advance hs hcall hd) (fun q hq => requested_flight hs hgrows rfl hq)
    (awaits_advance hs hgrows hcall rfl fun q hq => ?_)
  · cases List.mem_singleton.mp he
    exact ⟨requested_flight hs hgrows rfl hflight, call.requestGeneration, hgrows.began c _ ⟨call, hcall, rfl⟩, hs.begun c call hcall⟩
  · cases List.mem_singleton.mp hput
  · cases hq
    exact ⟨_, List.mem_cons_self⟩

theorem apart_request (hs : Apart s) {c : Nat} {call : Call} {response : Response} (hcall : s.calls[c]? = some call)
    (hsteps : Steps s a (s.request c call response)) : Apart (s.request c call response) := by
  have hgrows := grows_steps hsteps
  have hrequested : (s.request c call response).Requested s.refreshes.length s.tokenStateGeneration :=
    ⟨c, List.mem_cons_of_mem _ List.mem_cons_self⟩
  refine apart_news hs hgrows (l := [.joined c s.refreshes.length, .put s.refreshes.length c]) rfl (fun e he => ?_)
    (fun q d hput => ?_) (fun d call' hd => begun_advance hs hcall hd) (fun q hq => ?_)
    (awaits_advance hs hgrows hcall rfl fun q hq => ?_)
  · rcases List.mem_cons.mp he with rfl | he
    · exact ⟨hrequested, call.requestGeneration, hgrows.began c _ ⟨call, hcall, rfl⟩, hs.begun c call hcall⟩
    · cases List.mem_singleton.mp he
      show s.refreshes.length < (s.refreshes ++ [none]).length
      simp
  · rcases List.mem_cons.mp hput with heq | hput
    · cases heq
    · cases List.mem_singleton.mp hput
      exact Nat.le_refl _
  · cases hq
    exact hrequested
  · cases hq
    exact ⟨_, List.mem_cons_self⟩

/-- A call stores in its own generation, from a refresh of its own generation. -/
theorem apart_replace (hs : Apart s) {c : Nat} {call : Call} {response : Response} {p : Nat} {token : String}
    (hcall : s.calls[c]? = some call) (hphase : call.phase = .refreshed response p (.ok token))
    (hcurrent : call.requestGeneration = s.tokenStateGeneration) (hsteps : Steps s a (s.replace c call response p token)) :
    Apart (s.replace c call response p token) := by
  have hgrows := grows_steps hsteps
  have hbegan : (s.replace c call response p token).Began c s.tokenStateGeneration := hgrows.began c _ ⟨call, hcall, hcurrent⟩
  have hrequested : (s.replace c call response p token).Requested p s.tokenStateGeneration := by
    obtain ⟨g, hjoined⟩ := hs.awaited c call p hcall (by rw [hphase]; rfl)
    obtain ⟨hle, ⟨d, hput⟩, g', ⟨call', hcall', hg'⟩, hge⟩ := hs.shows g _ hjoined
    rw [hcall] at hcall'
    cases hcall'
    have heq : g = s.tokenStateGeneration := by omega
    exact ⟨d, hgrows.log (heq ▸ hput)⟩
  refine apart_news hs hgrows (l := [.retried c p token, .stored c p call.attemptedToken token]) rfl (fun e he => ?_)
    (fun q d hput => ?_) (fun d call' hd => begun_advance hs hcall hd) (fun q hq => requested_flight hs hgrows rfl hq)
    (awaits_advance hs hgrows hcall rfl fun q hq => ?_)
  · rcases List.mem_cons.mp he with rfl | he
    · exact hbegan
    · cases List.mem_singleton.mp he
      exact ⟨hbegan, hrequested⟩
  · rcases List.mem_cons.mp hput with heq | hput
    · cases heq
    · cases List.mem_singleton.mp hput
  · cases hq

/-- A step of one call whose events are quiet, and which puts no refresh in flight. -/
theorem apart_quiet {l : List Event} (hs : Apart s) (h : s.Grows s') {c : Nat} {call : Call} {phase : Phase}
    (hcall : s.calls[c]? = some call) (hcalls : s'.calls = (s.advance c call phase).calls)
    (hgeneration : s'.tokenStateGeneration = s.tokenStateGeneration)
    (hlog : s'.log = l.map (fun e => (s'.tokenStateGeneration, e)) ++ s.log) (hquiet : ∀ e ∈ l, e.Quiet)
    (hflight : ∀ p, s'.refreshInFlight = some p → s.refreshInFlight = some p)
    (hphase : phase.awaited = none ∨ phase.awaited = call.phase.awaited) : Apart s' := by
  refine apart_news hs h hlog (fun e he => shows_quiet (hquiet e he) _) (fun p d hput => (hquiet _ hput).elim) (fun d call' hd => ?_)
    (fun p hp => requested_flight hs h hgeneration (hflight p hp)) (awaits_advance hs h hcall hcalls fun p hp => ?_)
  · rw [hcalls] at hd
    rw [hgeneration]
    exact begun_advance hs hcall hd
  · rcases hphase with hnone | hsame
    · rw [hnone] at hp
      cases hp
    · exact awaits_grows hs h c call p hcall (hsame ▸ hp)

/-- **Every step keeps the invariant.** -/
theorem apart_steps (h : Steps s a s') (hs : Apart s) : Apart s' := by
  have hgrows := grows_steps h
  have hnone : ∀ e ∈ ([] : List Event), e.Quiet := fun e he => absurd he List.not_mem_nil
  cases h with
  | start => exact apart_start hs _
  | join hcall hphase hexpired hflight => exact apart_join hs hcall hflight (.join hcall hphase hexpired hflight)
  | request hcall hphase hexpired hflight => exact apart_request hs hcall (.request hcall hphase hexpired hflight)
  | replace hcall hphase hcurrent => exact apart_replace hs hcall hphase hcurrent (.replace hcall hphase hcurrent)
  | lose hcall | pass hcall | abandon hcall | finish hcall =>
    exact apart_quiet hs hgrows hcall rfl rfl (l := []) rfl hnone (fun p hp => hp) (Or.inl rfl)
  | answer hcall =>
    refine apart_quiet hs hgrows hcall rfl rfl rfl (fun e he => ?_) (fun p hp => hp) (Or.inl rfl)
    split at he
    · cases List.mem_singleton.mp he
      trivial
    · cases he
  | resume hcall hphase hrefresh =>
    refine apart_quiet hs hgrows hcall rfl rfl (l := []) rfl hnone (fun p hp => ?_) (Or.inr (by rw [hphase]; rfl))
    have hp : (if s.refreshInFlight = some _ then none else s.refreshInFlight) = some p := hp
    split at hp
    · cases hp
    · exact hp
  | settle =>
    exact apart_news hs hgrows rfl (fun e he => shows_quiet (quiet_settle he) _) (fun p d hput => (quiet_settle hput).elim) hs.begun
      (fun p hp => requested_flight hs hgrows rfl hp) fun c call p => awaits_grows hs hgrows c call p
  | reset =>
    refine apart_news hs hgrows (l := [.reset]) rfl (fun e he => ?_) (fun p d hput => ?_)
      (fun c call hc => Nat.le_succ_of_le (hs.begun c call hc)) (fun p hp => by cases hp)
      fun c call p => awaits_grows hs hgrows c call p
    · cases List.mem_singleton.mp he
      trivial
    · cases List.mem_singleton.mp hput

end Steps

theorem apart_initial : Apart initial := by
  refine ⟨?_, ?_, ?_, ?_, ?_⟩
  · exact fun g e h => absurd h List.not_mem_nil
  · intro c call h
    cases h
  · intro p h
    cases h
  · exact fun p g g' c c' h => absurd h List.not_mem_nil
  · intro c call p h
    cases h

theorem apart_run {actions : List Action} {s : State} (h : run initial actions = some s) : Apart s :=
  run_induction (P := fun _ s => Apart s) apart_initial (fun _ hs hsteps => apart_steps hsteps hs) h

/-! ### The generation of an event -/

def resets (log : List (Nat × Event)) : Nat := log.countP fun entry => entry.2 = .reset

/-- Every event carries the number of resets up to it. -/
def Dated (log : List (Nat × Event)) : Prop :=
  ∀ later g e earlier, log = later ++ (g, e) :: earlier → g = resets ((g, e) :: earlier)

theorem dated_cons {g : Nat} {e : Event} {log : List (Nat × Event)} (hg : g = resets ((g, e) :: log)) (h : Dated log) :
    Dated ((g, e) :: log) := by
  intro later g' e' earlier heq
  cases later with
  | nil =>
    cases heq
    exact hg
  | cons entry later =>
    rw [List.cons_append] at heq
    injection heq with _ hrest
    exact h later g' e' earlier hrest

theorem dated_news {g : Nat} {log : List (Nat × Event)} (hg : g = resets log) (h : Dated log) (events : List Event)
    (hnews : Event.reset ∉ events) :
    Dated (events.map (fun e => (g, e)) ++ log) ∧ g = resets (events.map (fun e => (g, e)) ++ log) := by
  induction events with
  | nil => exact ⟨h, hg⟩
  | cons e rest ih =>
    obtain ⟨hne, hrest⟩ := not_or.mp (mt List.mem_cons.mpr hnews)
    obtain ⟨hdated, hcount⟩ := ih hrest
    have hadd : g = resets ((g, e) :: (rest.map (fun e => (g, e)) ++ log)) := by
      unfold resets at hcount ⊢
      rw [List.countP_cons_of_neg (by simpa using Ne.symm hne)]
      exact hcount
    exact ⟨dated_cons hadd hdated, hadd⟩

/-- What has happened is dated by the resets before it, and the generation counts them. -/
theorem dated_steps {s s' : State} {a : Action} (h : Steps s a s')
    (hs : Dated s.log ∧ s.tokenStateGeneration = resets s.log) :
    Dated s'.log ∧ s'.tokenStateGeneration = resets s'.log := by
  obtain ⟨hdated, hcount⟩ := hs
  have hnews := dated_news hcount hdated
  cases h with
  | lose | pass | resume | abandon | finish => exact ⟨hdated, hcount⟩
  | start => exact hnews [_] (by simp)
  | answer =>
    refine hnews _ ?_
    split <;> simp
  | join => exact hnews [_] (by simp)
  | request => exact hnews [_, _] (by simp)
  | replace => exact hnews [_, _] (by simp)
  | @settle p response =>
    refine hnews _ fun hmem => ?_
    unfold settleEvents at hmem
    split at hmem
    · simp at hmem
    · split at hmem <;> simp at hmem
    · simp at hmem
  | reset =>
    have hadd : s.tokenStateGeneration + 1 = resets ((s.tokenStateGeneration + 1, .reset) :: s.log) := by
      rw [hcount]
      unfold resets
      rw [List.countP_cons_of_pos (by simp)]
    exact ⟨dated_cons hadd hdated, hadd⟩

/-! ### Isolation -/

/-- A call sends and stores in the generation it began in, what is stored is from a refresh of the
same generation, and a call shares no refresh that is older than itself. -/
structure Isolated (log : List (Nat × Event)) : Prop where
  dated : Dated log
  sent : ∀ c g g' token token', (g, Event.sent c token) ∈ log → (g', Event.sent c token') ∈ log → g' = g
  retried : ∀ c p g g' token token', (g, Event.sent c token) ∈ log → (g', Event.retried c p token') ∈ log → g' = g
  stored : ∀ c p g g' token key token', (g, Event.sent c token) ∈ log → (g', Event.stored c p key token') ∈ log → g' = g
  fresh : ∀ c d p g g' key token, (g, Event.put p c) ∈ log → (g', Event.stored d p key token) ∈ log → g' = g
  shared : ∀ c d p g g' g'' token, (g, Event.put p c) ∈ log → (g', Event.sent d token) ∈ log →
    (g'', Event.joined d p) ∈ log → g' ≤ g

/-- The refresh in flight changes only with a reset, or when a call goes on that has waited for it. -/
def Released (s : State) (a : Action) (s' : State) : Prop :=
  ∀ p, s.refreshInFlight = some p → s'.refreshInFlight = some p ∨ a = .reset ∨
    ∃ c call outcome, a = .resume c ∧ s.calls[c]? = some call ∧ call.phase.awaited = some p ∧
      s.refreshes[p]? = some (some outcome)

theorem began_unique {s : State} {c g g' : Nat} (h : s.Began c g) (h' : s.Began c g') : g' = g := by
  obtain ⟨call, hcall, rfl⟩ := h
  obtain ⟨call', hcall', rfl⟩ := h'
  rw [hcall] at hcall'
  cases hcall'
  rfl

theorem isolated_run {actions : List Action} {s : State} (h : run initial actions = some s) : Isolated s.log := by
  have hs := apart_run h
  have hshows {g : Nat} {e : Event} (hmem : (g, e) ∈ s.log) : s.Shows g e := (hs.shows g e hmem).2
  refine ⟨?_, ?_, ?_, ?_, ?_, ?_⟩
  · have hempty : Dated initial.log := by
      intro later g e earlier heq
      cases later <;> cases heq
    exact (run_induction (P := fun _ s => Dated s.log ∧ s.tokenStateGeneration = resets s.log) ⟨hempty, rfl⟩
      (fun _ hs hsteps => dated_steps hsteps hs) h).1
  · exact fun c g g' token token' hsent hsent' => began_unique (hshows hsent) (hshows hsent')
  · exact fun c p g g' token token' hsent hretried => began_unique (hshows hsent) (hshows hretried)
  · exact fun c p g g' token key token' hsent hstored => began_unique (hshows hsent) (hshows hstored).1
  · intro c d p g g' key token hput hstored
    obtain ⟨c', hput'⟩ := (hshows hstored).2
    exact hs.once p g' g c' c hput' hput
  · intro c d p g g' g'' token hput hsent hjoined
    obtain ⟨⟨c', hput'⟩, g₀, hbegan, hle⟩ := hshows hjoined
    rw [hs.once p g g'' c c' hput hput', began_unique hbegan (hshows hsent)]
    exact hle

theorem released_step {s s' : State} {a : Action} (h : step s a = some s') : Released s a s' := by
  intro p hp
  cases steps_of_step h with
  | reset => exact Or.inr (Or.inl rfl)
  | request hcall hphase hexpired hflight =>
    rw [hflight] at hp
    cases hp
  | @resume c call response q outcome hcall hphase hrefresh =>
    by_cases hq : p = q
    · subst hq
      exact Or.inr (Or.inr ⟨c, call, outcome, rfl, hcall, by rw [hphase]; rfl, hrefresh⟩)
    · left
      show (if s.refreshInFlight = some q then none else s.refreshInFlight) = some p
      rw [hp, if_neg (by simpa using hq)]
  | _ => exact Or.inl hp

/-! ### Calls that are overtaken by a reset -/

/-- After a reset, no token is stored whose refresh was requested by a call from before it, be it that the call has
started the refresh or that it has asked for it while it was in flight: it has joined it either way. -/
def Unstored (log : List (Nat × Event)) : Prop :=
  ∀ c d p g g' g'' token key token', (g, Event.sent c token) ∈ log → (g', Event.joined c p) ∈ log →
    (g'', Event.stored d p key token') ∈ log → g'' ≤ g

/-- No call whose token has expired goes on to `refreshAccessToken` in a generation not its own. -/
def isCurrent (s : State) : Action → Bool
  | .proceed c =>
    match s.calls[c]? with
    | some call =>
      match call.phase with
      | .answered response => !isExpiredAccessToken response || call.requestGeneration == s.tokenStateGeneration
      | _ => true
    | none => true
  | _ => true

/-- All steps of a run are current. -/
def allCurrent : State → List Action → Bool
  | _, [] => true
  | s, a :: rest =>
    isCurrent s a &&
      match step s a with
      | some s' => allCurrent s' rest
      | none => true

theorem generation_of_isCurrent {s : State} {c : Nat} {call : Call} {response : Response} (h : isCurrent s (.proceed c) = true)
    (hcall : s.calls[c]? = some call) (hphase : call.phase = .answered response)
    (hexpired : isExpiredAccessToken response = true) : call.requestGeneration = s.tokenStateGeneration := by
  simpa [isCurrent, hcall, hphase, hexpired] using h

theorem allCurrent_concat {s₀ s : State} {actions : List Action} {a : Action} (hrun : run s₀ actions = some s)
    (h : allCurrent s₀ (actions ++ [a]) = true) : allCurrent s₀ actions = true ∧ isCurrent s a = true := by
  induction actions generalizing s₀ with
  | nil =>
    cases hrun
    rw [List.nil_append, allCurrent, Bool.and_eq_true] at h
    exact ⟨rfl, h.1⟩
  | cons b rest ih =>
    obtain ⟨m, hm, hrest⟩ := Option.bind_eq_some_iff.mp hrun
    rw [List.cons_append, allCurrent, hm, Bool.and_eq_true] at h
    obtain ⟨hall, hlast⟩ := ih hrest h.2
    rw [allCurrent, hm, Bool.and_eq_true]
    exact ⟨⟨h.1, hall⟩, hlast⟩

/-- A call joins a refresh when it goes on with an expired token. -/
theorem joined_steps {s s' : State} {a : Action} (h : Steps s a s') {g c p : Nat} (hmem : (g, Event.joined c p) ∈ s'.log) :
    (g, Event.joined c p) ∈ s.log ∨ g = s.tokenStateGeneration ∧ a = .proceed c ∧
      ∃ call response, s.calls[c]? = some call ∧ call.phase = .answered response ∧ isExpiredAccessToken response = true := by
  cases h with
  | lose | pass | resume | abandon | finish => exact Or.inl hmem
  | start | reset =>
    rcases List.mem_cons.mp hmem with heq | hold
    · cases heq
    · exact Or.inl hold
  | answer =>
    rcases List.mem_append.mp hmem with hnew | hold
    · split at hnew
      · cases List.mem_singleton.mp hnew
      · cases hnew
    · exact Or.inl hold
  | settle =>
    rcases List.mem_append.mp hmem with hnew | hold
    · obtain ⟨e, he, heq⟩ := List.mem_map.mp hnew
      cases heq
      exact (quiet_settle he).elim
    · exact Or.inl hold
  | join hcall hphase hexpired =>
    rcases List.mem_cons.mp hmem with heq | hold
    · cases heq
      exact Or.inr ⟨rfl, rfl, _, _, hcall, hphase, hexpired⟩
    · exact Or.inl hold
  | request hcall hphase hexpired =>
    rcases List.mem_cons.mp hmem with heq | hold
    · cases heq
      exact Or.inr ⟨rfl, rfl, _, _, hcall, hphase, hexpired⟩
    rcases List.mem_cons.mp hold with heq | hold
    · cases heq
    · exact Or.inl hold
  | replace =>
    rcases List.mem_cons.mp hmem with heq | hold
    · cases heq
    rcases List.mem_cons.mp hold with heq | hold
    · cases heq
    · exact Or.inl hold

/-- Where all steps are current, a call joins refreshes of its own generation. -/
theorem began_joined {actions : List Action} {s : State} (h : run initial actions = some s)
    (hcurrent : allCurrent initial actions = true) : ∀ g c p, (g, Event.joined c p) ∈ s.log → s.Began c g := by
  refine run_induction
    (P := fun actions s => allCurrent initial actions = true → ∀ g c p, (g, Event.joined c p) ∈ s.log → s.Began c g)
    (fun _ g c p hmem => absurd hmem List.not_mem_nil) (fun {actions s a s'} hrun ih hsteps hcurrent g c p hmem => ?_) h hcurrent
  obtain ⟨hall, hlast⟩ := allCurrent_concat hrun hcurrent
  refine (grows_steps hsteps).began c g ?_
  rcases joined_steps hsteps hmem with hold | ⟨rfl, rfl, call, response, hcall, hphase, hexpired⟩
  · exact ih hall g c p hold
  · exact ⟨call, hcall, generation_of_isCurrent hlast hcall hphase hexpired⟩

/-- Where all steps are current, no call stores what one from before a reset has requested. -/
theorem unstored_run {actions : List Action} {s : State} (h : run initial actions = some s)
    (hcurrent : allCurrent initial actions = true) : Unstored s.log := by
  intro c d p g g' g'' token key token' hsent hjoined hstored
  have hs := apart_run h
  have hg : g' = g := began_unique (hs.shows g _ hsent).2 (began_joined h hcurrent g' c p hjoined)
  obtain ⟨e, hput⟩ := (hs.shows g' _ hjoined).2.1
  obtain ⟨e', hput'⟩ := (hs.shows g'' _ hstored).2.2
  have hg' : g'' = g' := hs.once p g'' g' e' e hput' hput
  omega

/-- **A reset keeps the generations apart**, in every state of a run and in each further step; and no
call stores what one from before a reset has requested, where all steps are current. Following the
map stops whatever cycles are in it, and compressing a map without cycles changes no result. -/
theorem generations_isolated {actions : List Action} {s : State} (h : run initial actions = some s)
    (tokenReplacements : Forwarding String) (accessToken : String) :
    Isolated s.log ∧ (∀ a s', step s a = some s' → Released s a s') ∧ (allCurrent initial actions = true → Unstored s.log) ∧
    (tokenReplacements.follow (tokenReplacements.way accessToken) = none ∧
      ∀ turns, tokenReplacements.length ≤ turns →
        tokenReplacements.chase turns ([], accessToken) = tokenReplacements.way accessToken) ∧
    (tokenReplacements.Acyclic → ∀ token,
      (currentToken (currentToken tokenReplacements accessToken).2 token).1 = (currentToken tokenReplacements token).1) := by
  refine ⟨isolated_run h, fun a s' => released_step, unstored_run h, ⟨tokenReplacements.chase_stops accessToken, ?_⟩, ?_⟩
  · exact fun turns hle => tokenReplacements.way_eq accessToken hle
  · exact fun hacyclic token => Forwarding.resolve_compress hacyclic accessToken token

/-- A refresh from before a reset and one from after it. -/
def relogin : List Action :=
  [.start "old", .answer 0 rejection, .proceed 0, .reset, .start "new", .answer 1 rejection, .proceed 1,
    .settle 0 (some (session "stale")), .resume 0, .settle 1 (some (session "fresh")), .resume 1, .retry 1, .retry 0]

theorem relogin_isolated : ∃ s, run initial relogin = some s ∧ Isolated s.log ∧ Unstored s.log := by
  have h : run initial relogin = some _ := rfl
  obtain ⟨hisolated, -, hunstored, -⟩ := generations_isolated h [] "new"
  exact ⟨_, h, hisolated, hunstored (by decide)⟩

/-- A call from before a reset starts a refresh after it, and a later call shares that. -/
def overtaken : List Action :=
  [.start "old", .reset, .start "new", .answer 0 rejection, .answer 1 rejection, .proceed 0, .proceed 1,
    .settle 0 (some (session "fresh")), .resume 1, .retry 1]

/-- **The later call stores** what the overtaken one has requested. -/
theorem overtaken_stored : ∃ s, run initial overtaken = some s ∧ ¬Unstored s.log := by
  refine ⟨_, rfl, fun h => ?_⟩
  have hle := h 0 1 0 0 1 1 "old" "new" "fresh" (by decide) (by decide) (by decide)
  exact absurd hle (by decide)

end PveMaster.AuthenticatedFetch
