import PveMaster.Browser.AuthenticatedFetch

/-! How many refreshes a stale token causes.

The runs here have no reset, and their refreshes succeed. What has become of a call is read off its
phase (`Stage`): a rejected call is sent again once, before it returns. The refreshes are as many as
the `PUT` requests, and the module forgets the refresh in flight when the first call that has
waited for it goes on; a rejection that is handled later starts another one. So there is one refresh
exactly when all rejections are handled in time (`oneRefresh_iff`). -/
namespace PveMaster.AuthenticatedFetch

/-- The module before the calls: any map, and nothing in flight. -/
def idle (tokenReplacements : Forwarding String) (generation : Nat) : State := ⟨tokenReplacements, none, generation, [], [], []⟩

/-! ### What is counted -/

/-- Whether a token has been put in the place of the one before it. -/
def Event.isPut : Event → Bool
  | .put _ _ => true
  | _ => false

/-- Whether a call has sent its request once more. -/
def Event.isRetry (c : Nat) : Event → Bool
  | .retried d _ _ => d == c
  | _ => false

/-- The token that a refresh has brought, if it has brought one. -/
def Event.obtains : Event → Option String
  | .obtained _ token => some token
  | _ => none

/-- How often the token was replaced. -/
def puts (log : List (Nat × Event)) : Nat := log.countP fun entry => entry.2.isPut

/-- How often a call has sent its request once more. -/
def retries (c : Nat) (log : List (Nat × Event)) : Nat := log.countP fun entry => entry.2.isRetry c

/-- The token of the refresh that has settled last. -/
def newest (log : List (Nat × Event)) : Option String := log.findSome? fun entry => entry.2.obtains

/-- The API has rejected a call, whose token had expired. -/
def Rejected (c : Nat) (log : List (Nat × Event)) : Prop := ∃ g, (g, Event.rejected c) ∈ log

/-- A call has returned a response to its caller. -/
def State.Finished (s : State) (c : Nat) : Prop := ∃ call response, s.calls[c]? = some call ∧ call.phase = .returned response

/-- **One refresh**: a rejection leads to one `PUT`, and to one request more, with the token obtained last. -/
structure OneRefresh (s : State) : Prop where
  atMost : puts s.log ≤ 1
  refreshed : ∀ c, Rejected c s.log → s.Finished c → puts s.log = 1
  once : ∀ c, retries c s.log ≤ 1
  retried : ∀ c, Rejected c s.log → s.Finished c → retries c s.log = 1
  newest : ∀ later g c p token earlier, s.log = later ++ (g, Event.retried c p token) :: earlier → newest earlier = some token

/-! ### The runs -/

/-- There is no reset, and refreshes succeed. -/
def Action.Renews : Action → Prop
  | .reset => False
  | .settle _ response => ∃ token, restoreBrowserSession response = .ok token
  | _ => True

/-- A call that was rejected goes on before any call that has waited for a refresh. -/
def Timely (actions : List Action) : Prop :=
  ∀ before c after, actions = before ++ .proceed c :: after →
    (∃ response, .answer c response ∈ before ∧ isExpiredAccessToken response = true) → ∀ d, .resume d ∉ before

/-! ### One call -/

section Counting
variable {c : Nat} {news log : List (Nat × Event)}

theorem puts_append : puts (news ++ log) = puts news + puts log := List.countP_append

theorem retries_append : retries c (news ++ log) = retries c news + retries c log := List.countP_append

theorem rejected_append : Rejected c (news ++ log) ↔ Rejected c news ∨ Rejected c log := by
  simp only [Rejected, List.mem_append, exists_or]

end Counting

/-- What has become of a call. -/
def Stage (actions : List Action) (s : State) (c : Nat) : Phase → Prop
  | .sent => ¬Rejected c s.log ∧ retries c s.log = 0 ∧ ∀ response, .answer c response ∉ actions
  | .answered response => (Rejected c s.log ↔ isExpiredAccessToken response = true) ∧ retries c s.log = 0 ∧
      ∀ response', .answer c response' ∈ actions ↔ response' = response
  | .waiting _ p => Rejected c s.log ∧ retries c s.log = 0 ∧ p < s.refreshes.length
  | .refreshed _ p outcome => Rejected c s.log ∧ retries c s.log = 0 ∧ s.refreshes[p]? = some (some outcome)
  | .retrying _ => Rejected c s.log ∧ retries c s.log = 1 ∧ 1 ≤ s.refreshes.length
  | .returned _ => (Rejected c s.log → retries c s.log = 1 ∧ 1 ≤ s.refreshes.length) ∧ (¬Rejected c s.log → retries c s.log = 0)

/-- **The course of a run.** -/
structure Course (actions : List Action) (s : State) : Prop where
  generation : ∀ (c : Nat) (call : Call), s.calls[c]? = some call → call.requestGeneration = s.tokenStateGeneration
  stage : ∀ (c : Nat) (call : Call), s.calls[c]? = some call → Stage actions s c call.phase
  unborn : ∀ c, s.calls.length ≤ c → Stage actions s c .sent
  puts : puts s.log = s.refreshes.length
  flight : ∀ p, s.refreshInFlight = some p → p < s.refreshes.length
  outcome : ∀ (p : Nat) outcome, s.refreshes[p]? = some (some outcome) → ∃ token, outcome = .ok token

/-- A step that does not concern a call. -/
structure Spares (c : Nat) (s s' : State) (a : Action) : Prop where
  rejected : Rejected c s'.log ↔ Rejected c s.log
  retries : retries c s'.log = retries c s.log
  answer : ∀ response, a ≠ .answer c response
  refreshes : s.refreshes.length ≤ s'.refreshes.length
  settled : ∀ (p : Nat) outcome, s.refreshes[p]? = some (some outcome) → s'.refreshes[p]? = some (some outcome)

/-- What others do leaves a call in the stage it is in. -/
theorem stage_spared {actions : List Action} {s s' : State} {a : Action} {c : Nat} (h : Spares c s s' a) {phase : Phase}
    (hstage : Stage actions s c phase) : Stage (actions ++ [a]) s' c phase := by
  have hanswer (response : Response) : .answer c response ∈ actions ++ [a] ↔ .answer c response ∈ actions := by
    rw [List.mem_append, List.mem_singleton]
    exact or_iff_left (Ne.symm (h.answer response))
  cases phase with
  | sent => simpa only [Stage, h.rejected, h.retries, hanswer] using hstage
  | answered response => simpa only [Stage, h.rejected, h.retries, hanswer] using hstage
  | waiting response p =>
    obtain ⟨hrejected, hretries, hp⟩ := hstage
    exact ⟨h.rejected.mpr hrejected, h.retries.trans hretries, Nat.lt_of_lt_of_le hp h.refreshes⟩
  | refreshed response p outcome =>
    obtain ⟨hrejected, hretries, hp⟩ := hstage
    exact ⟨h.rejected.mpr hrejected, h.retries.trans hretries, h.settled p outcome hp⟩
  | retrying response =>
    obtain ⟨hrejected, hretries, hone⟩ := hstage
    exact ⟨h.rejected.mpr hrejected, h.retries.trans hretries, Nat.le_trans hone h.refreshes⟩
  | returned response =>
    refine ⟨fun hrejected => ?_, fun hnot => h.retries.trans (hstage.2 (mt h.rejected.mpr hnot))⟩
    obtain ⟨hretries, hone⟩ := hstage.1 (h.rejected.mp hrejected)
    exact ⟨h.retries.trans hretries, Nat.le_trans hone h.refreshes⟩

/-- An event of no call but this one. -/
def Event.Spares (c : Nat) : Event → Prop
  | .rejected d => d ≠ c
  | .retried d _ _ => d ≠ c
  | _ => True

/-- How that is seen: nothing new in the log is about the call, no answer was its own, and the
refreshes that have ended stay as they ended. -/
theorem spares_news {c : Nat} {s s' : State} {a : Action} {news : List (Nat × Event)} (hlog : s'.log = news ++ s.log)
    (hnews : ∀ entry ∈ news, entry.2.Spares c) (hanswer : ∀ response, a ≠ .answer c response)
    (hrefreshes : s.refreshes.length ≤ s'.refreshes.length)
    (hsettled : ∀ (p : Nat) outcome, s.refreshes[p]? = some (some outcome) → s'.refreshes[p]? = some (some outcome)) :
    Spares c s s' a := by
  refine ⟨?_, ?_, hanswer, hrefreshes, hsettled⟩
  · rw [hlog, rejected_append]
    refine or_iff_right ?_
    rintro ⟨g, hmem⟩
    exact hnews _ hmem rfl
  · rw [hlog, retries_append]
    have hzero : retries c news = 0 := by
      refine List.countP_eq_zero.mpr fun entry hmem => ?_
      have hspares := hnews entry hmem
      cases hevent : entry.2 with
      | retried d p token =>
        rw [hevent] at hspares
        have hne : d ≠ c := hspares
        simp [Event.isRetry, hne]
      | _ => simp [Event.isRetry]
    rw [hzero, Nat.zero_add]

/-! ### One step -/

section Steps
variable {actions : List Action} {s s' : State} {a : Action}

/-- A step of one call. -/
theorem course_advance (hs : Course actions s) {c : Nat} {call : Call} {phase : Phase} (hcall : s.calls[c]? = some call)
    (hcalls : s'.calls = (s.advance c call phase).calls) (hgeneration : s'.tokenStateGeneration = s.tokenStateGeneration)
    (hspares : ∀ d, d ≠ c → Spares d s s' a) (hstage : Stage (actions ++ [a]) s' c phase)
    (hputs : puts s'.log = s'.refreshes.length) (hflight : ∀ p, s'.refreshInFlight = some p → p < s'.refreshes.length)
    (houtcome : ∀ (p : Nat) outcome, s'.refreshes[p]? = some (some outcome) → ∃ token, outcome = .ok token) :
    Course (actions ++ [a]) s' := by
  refine ⟨fun d call' hd => ?_, fun d call' hd => ?_, fun d hd => ?_, hputs, hflight, houtcome⟩
  · rw [hcalls, State.getElem?_advance hcall] at hd
    rw [hgeneration]
    split at hd
    · cases hd
      exact hs.generation c call hcall
    · exact hs.generation d call' hd
  · rw [hcalls, State.getElem?_advance hcall] at hd
    split at hd
    · next heq =>
      cases hd
      exact heq ▸ hstage
    · next hne => exact stage_spared (hspares d hne) (hs.stage d call' hd)
  · have hlength : s'.calls.length = s.calls.length := by
      rw [hcalls]
      exact List.length_set
    obtain ⟨hlt, -⟩ := List.getElem?_eq_some_iff.mp hcall
    exact stage_spared (hspares d (by omega)) (hs.unborn d (by omega))

/-- A step of one call that leaves the log and the refreshes. -/
theorem course_silent (hs : Course actions s) {c : Nat} {call : Call} {phase : Phase} (hcall : s.calls[c]? = some call)
    (hcalls : s'.calls = (s.advance c call phase).calls) (hgeneration : s'.tokenStateGeneration = s.tokenStateGeneration)
    (hlog : s'.log = s.log) (hrefreshes : s'.refreshes = s.refreshes)
    (hflight : ∀ p, s'.refreshInFlight = some p → s.refreshInFlight = some p) (hanswer : ∀ d response, a ≠ .answer d response)
    (hstage : Stage (actions ++ [a]) s' c phase) : Course (actions ++ [a]) s' := by
  refine course_advance hs hcall hcalls hgeneration (fun d _ => ?_) hstage ?_ (fun p hp => ?_) ?_
  · have hnone : s'.log = [] ++ s.log := hlog
    refine spares_news hnone (fun _ hmem => absurd hmem List.not_mem_nil) (hanswer d) ?_ ?_
    · exact Nat.le_of_eq (congrArg List.length hrefreshes.symm)
    · rw [hrefreshes]
      exact fun _ _ h => h
  · rw [hlog, hrefreshes]
    exact hs.puts
  · rw [hrefreshes]
    exact hs.flight p (hflight p hp)
  · rw [hrefreshes]
    exact hs.outcome

/-- A new call has sent its request and nothing else. -/
theorem course_start (hs : Course actions s) (token : String) : Course (actions ++ [.start token]) (s.start token) := by
  have hlog : (s.start token).log =
      [(s.tokenStateGeneration, .sent s.calls.length (s.tokenReplacements.resolve token))] ++ s.log := rfl
  have hspares (d : Nat) : Spares d s (s.start token) (.start token) :=
    spares_news hlog (by simp [Event.Spares]) (fun _ h => by cases h) (Nat.le_refl _) fun _ _ h => h
  refine ⟨fun c call hc => ?_, fun c call hc => ?_, fun c hc => ?_, ?_, hs.flight, hs.outcome⟩
  · rcases State.call_start hc with hc | ⟨-, rfl⟩
    · exact hs.generation c call hc
    · rfl
  · rcases State.call_start hc with hc | ⟨rfl, rfl⟩
    · exact stage_spared (hspares c) (hs.stage c call hc)
    · exact stage_spared (hspares _) (hs.unborn _ (Nat.le_refl _))
  · have hlength : (s.start token).calls.length = s.calls.length + 1 := List.length_append
    exact stage_spared (hspares c) (hs.unborn c (by omega))
  · exact hs.puts

/-- The first answer of a call. -/
theorem course_answer (hs : Course actions s) {c : Nat} {call : Call} {response : Response} (hcall : s.calls[c]? = some call)
    (hphase : call.phase = .sent) : Course (actions ++ [.answer c response]) (s.answer c call response) := by
  obtain ⟨hrejected, hretries, hanswer⟩ : Stage actions s c .sent := hphase ▸ hs.stage c call hcall
  have hlog : (s.answer c call response).log =
      (if isExpiredAccessToken response then [.rejected c] else []).map (fun e => (s.tokenStateGeneration, e)) ++ s.log := rfl
  refine course_advance hs hcall rfl rfl (fun d hd => ?_) ?_ ?_ hs.flight hs.outcome
  · refine spares_news hlog ?_ (fun response' h => ?_) (Nat.le_refl _) fun _ _ h => h
    · split
      · simpa [Event.Spares] using Ne.symm hd
      · simp
    · cases h
      exact hd rfl
  · have hone : (∀ response', .answer c response' ∈ actions ++ [.answer c response] ↔ response' = response) := by
      intro response'
      simp [hanswer]
    cases hexpired : isExpiredAccessToken response with
    | true =>
      rw [hexpired] at hlog
      refine ⟨⟨fun _ => hexpired, fun _ => ⟨_, by rw [hlog]; exact List.mem_cons_self⟩⟩, ?_, hone⟩
      rw [hlog]
      exact hretries
    | false =>
      rw [hexpired] at hlog
      have hsame : (s.answer c call response).log = s.log := hlog
      refine ⟨?_, by rw [hsame]; exact hretries, hone⟩
      rw [hsame, hexpired]
      simp [hrejected]
  · rw [hlog, puts_append, hs.puts]
    have hzero : puts ((if isExpiredAccessToken response then [Event.rejected c] else []).map fun e => (s.tokenStateGeneration, e)) = 0 := by
      split <;> rfl
    rw [hzero, Nat.zero_add]
    rfl

/-- A call whose token has expired joins the refresh that is under way. -/
theorem course_join (hs : Course actions s) {c : Nat} {call : Call} {response : Response} {p : Nat} (hcall : s.calls[c]? = some call)
    (hphase : call.phase = .answered response) (hexpired : isExpiredAccessToken response = true)
    (hflight : s.refreshInFlight = some p) : Course (actions ++ [.proceed c]) (s.join c call response p) := by
  obtain ⟨hrejected, hretries, -⟩ : Stage actions s c (.answered response) := hphase ▸ hs.stage c call hcall
  have hlog : (s.join c call response p).log = [(s.tokenStateGeneration, .joined c p)] ++ s.log := rfl
  refine course_advance hs hcall rfl rfl (fun d _ => ?_) ?_ hs.puts hs.flight hs.outcome
  · exact spares_news hlog (by simp [Event.Spares]) (fun _ h => by cases h) (Nat.le_refl _) fun _ _ h => h
  · refine ⟨?_, ?_, hs.flight p hflight⟩
    · rw [hlog, rejected_append]
      exact Or.inr (hrejected.mpr hexpired)
    · rw [hlog, retries_append, hretries]
      rfl

/-- If none is under way, it begins one. -/
theorem course_request (hs : Course actions s) {c : Nat} {call : Call} {response : Response} (hcall : s.calls[c]? = some call)
    (hphase : call.phase = .answered response) (hexpired : isExpiredAccessToken response = true) :
    Course (actions ++ [.proceed c]) (s.request c call response) := by
  obtain ⟨hrejected, hretries, -⟩ : Stage actions s c (.answered response) := hphase ▸ hs.stage c call hcall
  have hlog : (s.request c call response).log = [(s.tokenStateGeneration, .joined c s.refreshes.length),
      (s.tokenStateGeneration, .put s.refreshes.length c)] ++ s.log := rfl
  have hrefreshes : (s.request c call response).refreshes = s.refreshes ++ [none] := rfl
  have hlength : (s.request c call response).refreshes.length = s.refreshes.length + 1 := List.length_append
  have hsettled (p : Nat) (outcome : Except RefreshError String) (h : s.refreshes[p]? = some (some outcome)) :
      (s.request c call response).refreshes[p]? = some (some outcome) := by
    rw [hrefreshes, List.getElem?_append_left (List.getElem?_eq_some_iff.mp h).1]
    exact h
  refine course_advance hs hcall rfl rfl (fun d _ => ?_) ?_ ?_ (fun p hp => ?_) fun p outcome hp => ?_
  · exact spares_news hlog (by simp [Event.Spares]) (fun _ h => by cases h) (by omega) hsettled
  · refine ⟨?_, ?_, by omega⟩
    · rw [hlog, rejected_append]
      exact Or.inr (hrejected.mpr hexpired)
    · rw [hlog, retries_append, hretries]
      rfl
  · rw [hlog, puts_append, hs.puts, hlength, Nat.add_comm]
    rfl
  · cases hp
    omega
  · rw [hrefreshes, List.getElem?_append] at hp
    split at hp
    · exact hs.outcome p outcome hp
    · obtain ⟨_, hnone⟩ := List.getElem?_eq_some_iff.mp hp
      rw [List.getElem_singleton] at hnone
      cases hnone

/-- A refresh ends with a token. -/
theorem course_settle (hs : Course actions s) {p : Nat} {response : Option Response} {token : String}
    (hrefresh : s.refreshes[p]? = some none) (htoken : restoreBrowserSession response = .ok token) :
    Course (actions ++ [.settle p response]) (s.settle p (restoreBrowserSession response)) := by
  rw [htoken]
  have hlog : (s.settle p (.ok token)).log = [(s.tokenStateGeneration, .obtained p token)] ++ s.log := rfl
  have hrefreshes : (s.settle p (.ok token)).refreshes = s.refreshes.set p (some (.ok token)) := rfl
  have hlength : (s.settle p (.ok token)).refreshes.length = s.refreshes.length := List.length_set
  have hspares (d : Nat) : Spares d s (s.settle p (.ok token)) (.settle p response) := by
    refine spares_news hlog (by simp [Event.Spares]) (fun _ h => by cases h) (by omega) fun q outcome hq => ?_
    have hne : p ≠ q := by
      rintro rfl
      rw [hrefresh] at hq
      cases hq
    rw [hrefreshes, List.getElem?_set_ne hne]
    exact hq
  refine ⟨hs.generation, fun c call hc => stage_spared (hspares c) (hs.stage c call hc),
    fun c hc => stage_spared (hspares c) (hs.unborn c hc), ?_, fun q hq => ?_, fun q outcome hq => ?_⟩
  · rw [hlength]
    exact hs.puts
  · rw [hlength]
    exact hs.flight q hq
  · rw [hrefreshes, List.getElem?_set] at hq
    split at hq
    · split at hq
      · cases hq
        exact ⟨token, rfl⟩
      · cases hq
    · exact hs.outcome q outcome hq

/-- The call puts the token in place and sends its request once more. -/
theorem course_replace (hs : Course actions s) {c : Nat} {call : Call} {response : Response} {p : Nat} {token : String}
    (hcall : s.calls[c]? = some call) (hphase : call.phase = .refreshed response p (.ok token)) :
    Course (actions ++ [.retry c]) (s.replace c call response p token) := by
  obtain ⟨hrejected, hretries, hp⟩ : Stage actions s c (.refreshed response p (.ok token)) := hphase ▸ hs.stage c call hcall
  have hlog : (s.replace c call response p token).log = [(s.tokenStateGeneration, .retried c p token),
      (s.tokenStateGeneration, .stored c p call.attemptedToken token)] ++ s.log := rfl
  refine course_advance hs hcall rfl rfl (fun d hd => ?_) ?_ hs.puts hs.flight hs.outcome
  · exact spares_news hlog (by simpa [Event.Spares] using Ne.symm hd) (fun _ h => by cases h) (Nat.le_refl _) fun _ _ h => h
  · refine ⟨?_, ?_, Nat.lt_of_le_of_lt (Nat.zero_le p) (List.getElem?_eq_some_iff.mp hp).1⟩
    · rw [hlog, rejected_append]
      exact Or.inr hrejected
    · rw [hlog, retries_append, hretries]
      simp [retries, Event.isRetry]

/-- **Every step keeps the course.** -/
theorem course_steps (h : Steps s a s') (hrenews : a.Renews) (hs : Course actions s) : Course (actions ++ [a]) s' := by
  cases h with
  | start => exact course_start hs _
  | answer hcall hphase => exact course_answer hs hcall hphase
  | join hcall hphase hexpired hflight => exact course_join hs hcall hphase hexpired hflight
  | request hcall hphase hexpired => exact course_request hs hcall hphase hexpired
  | settle hrefresh =>
    obtain ⟨token, htoken⟩ := hrenews
    exact course_settle hs hrefresh htoken
  | replace hcall hphase => exact course_replace hs hcall hphase
  | reset => exact hrenews.elim
  | @lose c call hcall hphase =>
    obtain ⟨hrejected, hretries, -⟩ : Stage actions s c .sent := hphase ▸ hs.stage c call hcall
    exact course_silent hs hcall rfl rfl rfl rfl (fun _ h => h) (fun _ _ h => by cases h)
      ⟨fun hmem => absurd hmem hrejected, fun _ => hretries⟩
  | @pass c call response hcall hphase hexpired =>
    obtain ⟨hrejected, hretries, -⟩ : Stage actions s c (.answered response) := hphase ▸ hs.stage c call hcall
    refine course_silent hs hcall rfl rfl rfl rfl (fun _ h => h) (fun _ _ h => by cases h) ⟨fun hmem => ?_, fun _ => hretries⟩
    rw [hrejected.mp hmem] at hexpired
    cases hexpired
  | @resume c call response p outcome hcall hphase hrefresh =>
    obtain ⟨hrejected, hretries, -⟩ : Stage actions s c (.waiting response p) := hphase ▸ hs.stage c call hcall
    refine course_silent hs hcall rfl rfl rfl rfl (fun q hq => ?_) (fun _ _ h => by cases h) ⟨hrejected, hretries, hrefresh⟩
    have hq : (if s.refreshInFlight = some p then none else s.refreshInFlight) = some q := hq
    split at hq
    · cases hq
    · exact hq
  | @abandon c call response p outcome hcall hphase hstale =>
    obtain ⟨-, -, hp⟩ : Stage actions s c (.refreshed response p outcome) := hphase ▸ hs.stage c call hcall
    obtain ⟨token, rfl⟩ := hs.outcome p outcome hp
    rcases hstale with ⟨e, he⟩ | hstale
    · cases he
    · exact absurd (hs.generation c call hcall) hstale
  | @finish c call original response hcall hphase =>
    obtain ⟨hrejected, hretries, hone⟩ : Stage actions s c (.retrying original) := hphase ▸ hs.stage c call hcall
    exact course_silent hs hcall rfl rfl rfl rfl (fun _ h => h) (fun _ _ h => by cases h)
      ⟨fun _ => ⟨hretries, hone⟩, fun hnot => absurd hrejected hnot⟩

end Steps

/-! ### Runs -/

section Runs
variable {tokenReplacements : Forwarding String} {generation : Nat} {actions : List Action} {s : State}

/-- A run whose refreshes all bring tokens keeps to the course. -/
theorem course_run (hrenews : ∀ a ∈ actions, a.Renews) (h : run (idle tokenReplacements generation) actions = some s) :
    Course actions s := by
  refine run_induction (P := fun actions s => (∀ a ∈ actions, a.Renews) → Course actions s) (fun _ => ?_)
    (fun _ ih hsteps hall => ?_) h hrenews
  · have hsent (c : Nat) : Stage [] (idle tokenReplacements generation) c .sent := by
      refine ⟨?_, rfl, fun _ hmem => absurd hmem List.not_mem_nil⟩
      rintro ⟨g, hmem⟩
      exact absurd hmem List.not_mem_nil
    refine ⟨?_, ?_, fun c _ => hsent c, rfl, ?_, ?_⟩
    · intro c call hc
      cases hc
    · intro c call hc
      cases hc
    · intro p hp
      cases hp
    · intro p outcome hp
      cases hp
  · rw [List.forall_mem_append] at hall
    exact course_steps hsteps (hall.2 _ (List.mem_singleton_self _)) (ih hall.1)

/-! ### In time -/

/-- A call has gone on after its refresh. -/
def Resumed (actions : List Action) : Prop := ∃ d, .resume d ∈ actions

/-- Only resuming makes it so. -/
theorem resumed_concat {a : Action} : Resumed (actions ++ [a]) ↔ Resumed actions ∨ ∃ d, a = .resume d := by
  simp only [Resumed, List.mem_append, List.mem_singleton, exists_or]
  exact or_congr_right (exists_congr fun d => eq_comm)

/-- A call that was rejected. -/
def AnsweredExpired (actions : List Action) (c : Nat) : Prop :=
  ∃ response, .answer c response ∈ actions ∧ isExpiredAccessToken response = true

/-- What being in time says of one more action: no rejected call goes on once a call has resumed.
-/
theorem timely_concat {a : Action} : Timely (actions ++ [a]) ↔
    Timely actions ∧ ∀ c, a = .proceed c → AnsweredExpired actions c → ¬Resumed actions := by
  constructor
  · intro h
    refine ⟨fun before c after heq => ?_, fun c hc hexpired => ?_⟩
    · exact h before c (after ++ [a]) (by rw [heq, List.append_assoc, List.cons_append])
    · rintro ⟨d, hd⟩
      exact h actions c [] (by rw [hc]) hexpired d hd
  · rintro ⟨htimely, hlast⟩ before c after heq hexpired d hd
    rcases List.eq_nil_or_concat after with rfl | ⟨after, b, rfl⟩
    · obtain ⟨rfl, hlist⟩ := List.append_inj' heq rfl
      injection hlist with ha _
      exact hlast c ha hexpired ⟨d, hd⟩
    · rw [List.concat_eq_append, ← List.cons_append, ← List.append_assoc] at heq
      exact htimely before c after (List.append_inj' heq rfl).1 hexpired d hd

/-- **The refresh in flight**, and the number of refreshes. -/
structure Flight (actions : List Action) (s : State) : Prop where
  before : ¬Resumed actions → s.refreshes.length = 0 ∧ s.refreshInFlight = none ∨
    s.refreshes.length = 1 ∧ s.refreshInFlight = some 0
  after : Resumed actions → s.refreshInFlight = none ∧ 1 ≤ s.refreshes.length ∨ 2 ≤ s.refreshes.length
  timely : Timely actions ↔ s.refreshes.length ≤ 1

/-- A step that neither starts a refresh nor joins one, and with which no call goes on. -/
theorem flight_silent {s' : State} {a : Action} (hs : Flight actions s) (hrefreshes : s'.refreshes.length = s.refreshes.length)
    (hflight : s'.refreshInFlight = s.refreshInFlight) (hresume : ∀ d, a ≠ .resume d)
    (hproceed : ∀ c, a = .proceed c → ¬AnsweredExpired actions c) : Flight (actions ++ [a]) s' := by
  have hresumed : Resumed (actions ++ [a]) ↔ Resumed actions := by
    rw [resumed_concat]
    exact or_iff_left fun ⟨d, hd⟩ => hresume d hd
  refine ⟨?_, ?_, ?_⟩
  · rw [hresumed, hrefreshes, hflight]
    exact hs.before
  · rw [hresumed, hrefreshes, hflight]
    exact hs.after
  · rw [timely_concat, hs.timely, hrefreshes]
    exact and_iff_left fun c hc hexpired => absurd hexpired (hproceed c hc)

/-- The log of the answers and the state of the call agree about whether the token had expired. -/
theorem answered_expired {c : Nat} {call : Call} {response : Response} (hcourse : Course actions s) (hcall : s.calls[c]? = some call)
    (hphase : call.phase = .answered response) : AnsweredExpired actions c ↔ isExpiredAccessToken response = true := by
  obtain ⟨-, -, hanswer⟩ : Stage actions s c (.answered response) := hphase ▸ hcourse.stage c call hcall
  simp only [AnsweredExpired, hanswer, exists_eq_left]

/-- A run is in time exactly if no more than one refresh has been begun in it. -/
theorem flight_steps {s' : State} {a : Action} (hcourse : Course actions s) (hrenews : a.Renews) (h : Steps s a s')
    (hs : Flight actions s) : Flight (actions ++ [a]) s' := by
  cases h with
  | start | answer | lose | abandon | replace | finish =>
    exact flight_silent hs rfl rfl (fun _ h => by cases h) (fun _ h => by cases h)
  | settle => exact flight_silent hs List.length_set rfl (fun _ h => by cases h) (fun _ h => by cases h)
  | reset => exact hrenews.elim
  | pass hcall hphase hexpired =>
    refine flight_silent hs rfl rfl (fun _ h => by cases h) (fun d h => ?_)
    cases h
    rw [answered_expired hcourse hcall hphase, hexpired]
    exact Bool.false_ne_true
  | @join c call response p hcall hphase hexpired hflight =>
    have hanswered := (answered_expired hcourse hcall hphase).mpr hexpired
    have hresumed : Resumed (actions ++ [.proceed c]) ↔ Resumed actions := by
      rw [resumed_concat]
      exact or_iff_left fun ⟨d, hd⟩ => by cases hd
    refine ⟨fun h => hs.before (mt hresumed.mpr h), fun h => hs.after (hresumed.mp h), ?_⟩
    rw [timely_concat, hs.timely]
    refine and_iff_left_of_imp fun hle d hd _ hres => ?_
    rcases hs.after hres with ⟨hnone, -⟩ | htwo
    · rw [hflight] at hnone
      cases hnone
    · exact absurd htwo (by omega)
  | @request c call response hcall hphase hexpired hflight =>
    have hanswered := (answered_expired hcourse hcall hphase).mpr hexpired
    have hresumed : Resumed (actions ++ [.proceed c]) ↔ Resumed actions := by
      rw [resumed_concat]
      exact or_iff_left fun ⟨d, hd⟩ => by cases hd
    have hlength : (s.request c call response).refreshes.length = s.refreshes.length + 1 := List.length_append
    have hmarker : (s.request c call response).refreshInFlight = some s.refreshes.length := rfl
    have hzero (h : ¬Resumed actions) : s.refreshes.length = 0 := by
      rcases hs.before h with ⟨hzero, -⟩ | ⟨-, hsome⟩
      · exact hzero
      · rw [hflight] at hsome
        cases hsome
    have hone (h : Resumed actions) : 1 ≤ s.refreshes.length := by
      rcases hs.after h with ⟨-, hone⟩ | htwo <;> omega
    refine ⟨fun h => Or.inr ?_, fun h => Or.inr ?_, ?_⟩
    · rw [hlength, hmarker, hzero (mt hresumed.mpr h)]
      exact ⟨rfl, rfl⟩
    · have := hone (hresumed.mp h)
      omega
    · rw [timely_concat, hs.timely, hlength]
      constructor
      · rintro ⟨-, hlast⟩
        have := hzero (hlast c rfl hanswered)
        omega
      · intro hle
        refine ⟨by omega, fun d _ _ hres => ?_⟩
        have := hone hres
        omega
  | @resume c call response p outcome hcall hphase hrefresh =>
    obtain ⟨-, -, hp⟩ : Stage actions s c (.waiting response p) := hphase ▸ hcourse.stage c call hcall
    have hmarker : (s.resume c call response p outcome).refreshInFlight =
        if s.refreshInFlight = some p then none else s.refreshInFlight := rfl
    have hlength : (s.resume c call response p outcome).refreshes.length = s.refreshes.length := rfl
    refine ⟨fun h => absurd (resumed_concat.mpr (Or.inr ⟨c, rfl⟩)) h, fun _ => ?_, ?_⟩
    · rw [hmarker, hlength]
      by_cases hres : Resumed actions
      · rcases hs.after hres with ⟨hnone, hone⟩ | htwo
        · exact Or.inl ⟨by rw [hnone]; exact if_neg (by simp), hone⟩
        · exact Or.inr htwo
      · -- the first call to go on has waited for the only refresh
        rcases hs.before hres with ⟨hzero, -⟩ | ⟨hone, hsome⟩
        · omega
        · have hp0 : p = 0 := by omega
          exact Or.inl ⟨if_pos (by rw [hsome, hp0]), by omega⟩
    · rw [timely_concat, hs.timely, hlength]
      exact and_iff_left fun _ h => by cases h

theorem flight_run (hrenews : ∀ a ∈ actions, a.Renews) (h : run (idle tokenReplacements generation) actions = some s) :
    Flight actions s := by
  refine run_induction (P := fun actions s => (∀ a ∈ actions, a.Renews) → Flight actions s) (fun _ => ?_)
    (fun hrun ih hsteps hall => ?_) h hrenews
  · refine ⟨fun _ => Or.inl ⟨rfl, rfl⟩, ?_, ?_⟩
    · rintro ⟨d, hd⟩
      exact absurd hd List.not_mem_nil
    · refine iff_of_true (fun before c after heq => ?_) (Nat.zero_le _)
      simp at heq
  · rw [List.forall_mem_append] at hall
    exact flight_steps (course_run hall.1 hrun) (hall.2 _ (List.mem_singleton_self _)) hsteps (ih hall.1)

/-! ### The token obtained last -/

/-- Every request that is sent again carries the token obtained last. -/
def Latest (log : List (Nat × Event)) : Prop :=
  ∀ later g c p token earlier, log = later ++ (g, Event.retried c p token) :: earlier → newest earlier = some token

theorem latest_cons {g : Nat} {e : Event} {log : List (Nat × Event)} (he : ∀ c p token, e = .retried c p token → newest log = some token)
    (h : Latest log) : Latest ((g, e) :: log) := by
  intro later g' c p token earlier heq
  cases later with
  | nil =>
    cases heq
    exact he c p token rfl
  | cons entry later =>
    rw [List.cons_append] at heq
    injection heq with _ hrest
    exact h later g' c p token earlier hrest

/-- One refresh at most: its token is the newest, once it has one. -/
def Fresh (s : State) : Prop :=
  s.refreshes.length ≤ 1 → Latest s.log ∧ ∀ token, s.refreshes[0]? = some (some (.ok token)) → newest s.log = some token

/-- A step with one event, which neither obtains a token nor sends a request again. -/
theorem fresh_event {s' : State} {g : Nat} {e : Event} (hs : Fresh s) (hlog : s'.log = (g, e) :: s.log)
    (hrefreshes : s'.refreshes = s.refreshes) (hobtains : e.obtains = none) (hretried : ∀ c p token, e ≠ .retried c p token) :
    Fresh s' := by
  intro hone
  rw [hrefreshes] at hone ⊢
  obtain ⟨hlatest, hnewest⟩ := hs hone
  rw [hlog]
  refine ⟨latest_cons (fun c p token he => absurd he (hretried c p token)) hlatest, fun token htoken => ?_⟩
  unfold newest
  rw [List.findSome?_cons, hobtains]
  exact hnewest token htoken

/-- While there is one refresh at most, the token it obtains is the newest, and what every request
carries that is sent again. -/
theorem fresh_steps {s' : State} {a : Action} (hcourse : Course actions s) (hrenews : a.Renews) (h : Steps s a s') (hs : Fresh s) :
    Fresh s' := by
  cases h with
  | lose | pass | resume | abandon | finish => exact hs
  | start => exact fresh_event hs rfl rfl rfl (fun _ _ _ h => by cases h)
  | join => exact fresh_event hs rfl rfl rfl (fun _ _ _ h => by cases h)
  | reset => exact hrenews.elim
  | @answer c call response =>
    cases hexpired : isExpiredAccessToken response with
    | true =>
      have hlog : (s.answer c call response).log = (s.tokenStateGeneration, .rejected c) :: s.log := by
        simp [State.answer, State.record, State.advance, hexpired]
      exact fresh_event hs hlog rfl rfl (fun _ _ _ h => by cases h)
    | false =>
      have hlog : (s.answer c call response).log = s.log := by
        simp [State.answer, State.record, State.advance, hexpired]
      intro hone
      rw [hlog]
      exact hs hone
  | @request c call response =>
    have hrefreshes : (s.request c call response).refreshes = s.refreshes ++ [none] := rfl
    intro hone
    have hnil : s.refreshes = [] := by
      rw [hrefreshes, List.length_append, List.length_singleton] at hone
      exact List.length_eq_zero_iff.mp (by omega)
    obtain ⟨hlatest, -⟩ := hs (by rw [hnil]; exact Nat.zero_le _)
    refine ⟨?_, fun token htoken => ?_⟩
    · exact latest_cons (fun _ _ _ h => by cases h) (latest_cons (fun _ _ _ h => by cases h) hlatest)
    · rw [hrefreshes, hnil] at htoken
      cases htoken
  | @settle p response hrefresh =>
    obtain ⟨token, htoken⟩ := hrenews
    rw [htoken]
    intro hone
    have hlength : (s.settle p (.ok token)).refreshes.length = s.refreshes.length := List.length_set
    have hp : p = 0 := by
      obtain ⟨hlt, -⟩ := List.getElem?_eq_some_iff.mp hrefresh
      omega
    obtain ⟨hlatest, -⟩ := hs (by omega)
    refine ⟨latest_cons (fun _ _ _ h => by cases h) hlatest, fun token' htoken' => ?_⟩
    have hset : (s.refreshes.set p (some (.ok token)))[0]? = some (some (.ok token')) := htoken'
    obtain ⟨hlt, -⟩ := List.getElem?_eq_some_iff.mp hrefresh
    rw [hp, List.getElem?_set_self (by omega)] at hset
    cases hset
    rfl
  | @replace c call response p token hcall hphase =>
    obtain ⟨-, -, hp⟩ : Stage actions s c (.refreshed response p (.ok token)) := hphase ▸ hcourse.stage c call hcall
    intro hone
    obtain ⟨hlatest, hnewest⟩ := hs hone
    have hp0 : p = 0 := by
      have hone : s.refreshes.length ≤ 1 := hone
      obtain ⟨hlt, -⟩ := List.getElem?_eq_some_iff.mp hp
      omega
    have hobtained : newest s.log = some token := hnewest token (hp0 ▸ hp)
    refine ⟨latest_cons (fun _ _ _ h => ?_) (latest_cons (fun _ _ _ h => by cases h) hlatest), hnewest⟩
    cases h
    exact hobtained

theorem fresh_run (hrenews : ∀ a ∈ actions, a.Renews) (h : run (idle tokenReplacements generation) actions = some s) : Fresh s := by
  refine run_induction (P := fun actions s => (∀ a ∈ actions, a.Renews) → Fresh s) (fun _ _ => ⟨?_, ?_⟩)
    (fun hrun ih hsteps hall => ?_) h hrenews
  · intro later g c p token earlier heq
    have hnil : [] = later ++ (g, Event.retried c p token) :: earlier := heq
    simp at hnil
  · intro token htoken
    cases htoken
  · rw [List.forall_mem_append] at hall
    exact fresh_steps (course_run hall.1 hrun) (hall.2 _ (List.mem_singleton_self _)) hsteps (ih hall.1)

/-- **One refresh, exactly when all rejections are handled in time.** -/
theorem oneRefresh_iff (hrenews : ∀ a ∈ actions, a.Renews) (h : run (idle tokenReplacements generation) actions = some s) :
    OneRefresh s ↔ Timely actions := by
  have hcourse := course_run hrenews h
  have hflight := flight_run hrenews h
  rw [hflight.timely, ← hcourse.puts]
  refine ⟨OneRefresh.atMost, fun hone => ?_⟩
  have hreturned {c : Nat} (hrejected : Rejected c s.log) (hfinished : s.Finished c) :
      retries c s.log = 1 ∧ 1 ≤ s.refreshes.length := by
    obtain ⟨call, response, hcall, hphase⟩ := hfinished
    have hstage : Stage actions s c (.returned response) := hphase ▸ hcourse.stage c call hcall
    exact hstage.1 hrejected
  refine ⟨hone, ?_, fun c => ?_, ?_, (fresh_run hrenews h (hcourse.puts ▸ hone)).1⟩
  · intro c hrejected hfinished
    have hge := (hreturned hrejected hfinished).2
    rw [← hcourse.puts] at hge
    omega
  · cases hcall : s.calls[c]? with
    | none =>
      obtain ⟨-, hretries, -⟩ := hcourse.unborn c (List.getElem?_eq_none_iff.mp hcall)
      omega
    | some call =>
      have hstage := hcourse.stage c call hcall
      cases hphase : call.phase with
      | returned response =>
        rw [hphase] at hstage
        by_cases hrejected : Rejected c s.log
        · have := (hstage.1 hrejected).1
          omega
        · have := hstage.2 hrejected
          omega
      | _ =>
        rw [hphase] at hstage
        have := hstage.2.1
        omega
  · exact fun c hrejected hfinished => (hreturned hrejected hfinished).1

end Runs

/-- Three calls are rejected before the refresh they share has an outcome. -/
def parallel : List Action :=
  [.start "expired-access", .start "expired-access", .start "expired-access", .answer 2 rejection, .answer 0 rejection, .proceed 2,
    .settle 0 (some (session "shared-access")), .proceed 0, .answer 1 rejection, .proceed 1, .resume 0, .retry 0, .resume 2,
    .resume 1, .retry 1, .retry 2, .finish 1 (some acceptance),
    .finish 0 (some acceptance), .finish 2 (some acceptance)]

theorem parallel_shares : ∃ s, run (idle [] 0) parallel = some s ∧ OneRefresh s := by
  have hrenews : ∀ a ∈ parallel, a.Renews := by
    simp only [parallel, List.forall_mem_cons, Action.Renews, List.not_mem_nil, false_implies, implies_true, true_and, and_true]
    exact ⟨_, rfl⟩
  have h : run (idle [] 0) parallel = some _ := rfl
  have htimely : Timely parallel := (flight_run hrenews h).timely.mpr (by decide)
  exact ⟨_, h, (oneRefresh_iff hrenews h).mpr htimely⟩

/-- The second call is rejected when the first one has been sent again. -/
def late : List Action :=
  [.start "expired-access", .start "expired-access", .answer 0 rejection, .proceed 0, .settle 0 (some (session "fresh-access")),
    .resume 0, .retry 0, .finish 0 (some acceptance), .answer 1 rejection, .proceed 1,
    .settle 1 (some (session "fresher-access")), .resume 1, .retry 1, .finish 1 (some acceptance)]

/-- **Two refreshes** for one stale token. -/
theorem late_refreshes : (∀ a ∈ late, a.Renews) ∧ ∃ s, run (idle [] 0) late = some s ∧ puts s.log = 2 ∧ ¬OneRefresh s := by
  refine ⟨?_, _, rfl, by decide, fun h => ?_⟩
  · simp only [late, List.forall_mem_cons, Action.Renews, List.not_mem_nil, false_implies, implies_true, true_and, and_true]
    exact ⟨⟨_, rfl⟩, _, rfl⟩
  · exact absurd h.atMost (by decide)

end PveMaster.AuthenticatedFetch
