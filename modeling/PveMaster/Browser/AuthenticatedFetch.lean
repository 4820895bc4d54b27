import PveMaster.Foundation.Forwarding
import Mathlib.Data.List.Induction

/-! The browser's access tokens.

Calls of `fetchWithAccessToken` share three variables of their module: the map of replaced tokens,
the refresh in flight and the generation. A call runs from one `await` to the next without
interruption, so a step is one such stretch of one call, the arrival of what is awaited, or
`resetAccessTokenState`; stretches that are ready run in any order. A log keeps what has happened,
each event with the generation it happened in. -/
namespace PveMaster.AuthenticatedFetch

/-! ### Responses -/

/-- What `JSON.parse` returns; `other` has no properties that are read. -/
inductive JsValue where
  | null
  | string (s : String)
  | object (fields : List (String × JsValue))
  | other

/-- `value.name`, and `value?.name`. -/
def JsValue.property (name : String) : JsValue → Option JsValue
  | .object fields => fields.lookup name
  | _ => none

def JsValue.asString : JsValue → Option String
  | .string s => some s
  | _ => none

/-- The body is missing where it is no JSON. -/
structure Response where
  status : Nat
  body : Option JsValue

def Response.ok (r : Response) : Bool := 200 ≤ r.status && r.status < 300

/-- `isExpiredAccessToken`. -/
def isExpiredAccessToken (r : Response) : Bool :=
  let code := do (← (← r.body).property "error").property "code"
  r.status == 401 && (code.bind JsValue.asString) == some "INVALID_ACCESS_TOKEN"

/-- Why a session is not restored: by its status, or in another way. -/
inductive RefreshError where
  | session (status : Nat)
  | invalid
  deriving DecidableEq

/-- `restoreBrowserSession`, and its access token. No response is a failure of the network. -/
def restoreBrowserSession : Option Response → Except RefreshError String
  | none => .error .invalid
  | some r =>
    if r.ok then
      match (r.body.bind (JsValue.property "access_token")).bind JsValue.asString with
      | some token => if token = "" then .error .invalid else .ok token
      | none => .error .invalid
    else .error (.session r.status)

/-- The API rejects a token. -/
def rejection : Response := ⟨401, some (.object [("error", .object [("code", .string "INVALID_ACCESS_TOKEN")])])⟩

/-- The API accepts the token. -/
def acceptance : Response := ⟨200, none⟩

/-- The session has a new one. -/
def session (token : String) : Response := ⟨200, some (.object [("access_token", .string token)])⟩

example : isExpiredAccessToken rejection = true := by decide
example : restoreBrowserSession (some (session "shared-access")) = .ok "shared-access" := rfl

/-- `currentToken`: the token, and the map with its way compressed. -/
def currentToken (tokenReplacements : Forwarding String) (accessToken : String) : String × Forwarding String :=
  (tokenReplacements.resolve accessToken, tokenReplacements.compress accessToken)

/-! ### Calls -/

/-- What a call awaits. -/
inductive Phase where
  /-- its response. -/
  | sent
  /-- nothing: `isExpiredAccessToken` has read its response. -/
  | answered (response : Response)
  /-- `pendingRefresh`. -/
  | waiting (response : Response) (refresh : Nat)
  /-- nothing: `refreshAccessToken` has returned, or thrown. -/
  | refreshed (response : Response) (refresh : Nat) (outcome : Except RefreshError String)
  /-- the response to its second request. -/
  | retrying (response : Response)
  /-- nothing any more; no response where the call has thrown. -/
  | returned (response : Option Response)

structure Call where
  requestGeneration : Nat
  attemptedToken : String
  phase : Phase

inductive Event where
  /-- A call begins, and sends its request with this token. -/
  | sent (call : Nat) (token : String)
  /-- It is answered with `INVALID_ACCESS_TOKEN`. -/
  | rejected (call : Nat)
  /-- It starts a refresh: `PUT /api/auth/session`. -/
  | put (refresh call : Nat)
  /-- It awaits a refresh, its own or another's. -/
  | joined (call refresh : Nat)
  | obtained (refresh : Nat) (token : String)
  /-- `notifySessionExpired`. -/
  | expired (refresh : Nat)
  /-- A call has waited for a refresh and stores its token as a replacement. -/
  | stored (call refresh : Nat) (key token : String)
  | retried (call refresh : Nat) (token : String)
  | reset
  deriving DecidableEq

structure State where
  tokenReplacements : Forwarding String
  refreshInFlight : Option Nat
  tokenStateGeneration : Nat
  /-- The refreshes with their outcome, once they have one. -/
  refreshes : List (Option (Except RefreshError String))
  calls : List Call
  /-- The newest first. -/
  log : List (Nat × Event)

/-- The module is loaded. -/
def initial : State := ⟨[], none, 0, [], [], []⟩

inductive Action where
  /-- `fetchWithAccessToken` is called. -/
  | start (accessToken : String)
  | answer (call : Nat) (response : Response)
  /-- The first request fails. -/
  | lose (call : Nat)
  /-- `fetchWithAccessToken` goes on behind `isExpiredAccessToken`. -/
  | proceed (call : Nat)
  /-- A refresh has an outcome. -/
  | settle (refresh : Nat) (response : Option Response)
  /-- `refreshAccessToken` goes on behind `await pendingRefresh`. -/
  | resume (call : Nat)
  /-- `fetchWithAccessToken` goes on behind `refreshAccessToken`. -/
  | retry (call : Nat)
  | finish (call : Nat) (response : Option Response)
  /-- `resetAccessTokenState`. -/
  | reset

/-- A refresh that finds no session any more tells the window. -/
def settleEvents (p : Nat) : Except RefreshError String → List Event
  | .ok token => [.obtained p token]
  | .error (.session status) => if status = 401 then [.expired p] else []
  | .error .invalid => []

namespace State

def record (s : State) (events : List Event) : State :=
  { s with log := events.map (fun e => (s.tokenStateGeneration, e)) ++ s.log }

def advance (s : State) (c : Nat) (call : Call) (phase : Phase) : State :=
  { s with calls := s.calls.set c { call with phase } }

/-- `fetchWithAccessToken`, up to its first `await`. -/
def start (s : State) (accessToken : String) : State :=
  let (attemptedToken, tokenReplacements) := currentToken s.tokenReplacements accessToken
  State.record
    { s with
      tokenReplacements
      calls := s.calls ++ [⟨s.tokenStateGeneration, attemptedToken, .sent⟩] }
    [.sent s.calls.length attemptedToken]

def answer (s : State) (c : Nat) (call : Call) (response : Response) : State :=
  (s.advance c call (.answered response)).record (if isExpiredAccessToken response then [.rejected c] else [])

/-- A call awaits the refresh in flight. -/
def join (s : State) (c : Nat) (call : Call) (response : Response) (p : Nat) : State :=
  (s.advance c call (.waiting response p)).record [.joined c p]

/-- A call starts a refresh, and awaits it. -/
def request (s : State) (c : Nat) (call : Call) (response : Response) : State :=
  State.record
    { s.advance c call (.waiting response s.refreshes.length) with
      refreshes := s.refreshes ++ [none]
      refreshInFlight := some s.refreshes.length }
    [.joined c s.refreshes.length, .put s.refreshes.length c]

/-- `refreshAccessToken`, up to its `await`. -/
def refreshAccessToken (s : State) (c : Nat) (call : Call) (response : Response) : State :=
  match s.refreshInFlight with
  | some p => s.join c call response p
  | none => s.request c call response

def settle (s : State) (p : Nat) (outcome : Except RefreshError String) : State :=
  State.record { s with refreshes := s.refreshes.set p (some outcome) } (settleEvents p outcome)

/-- The `finally` of `refreshAccessToken`. -/
def resume (s : State) (c : Nat) (call : Call) (response : Response) (p : Nat) (outcome : Except RefreshError String) : State :=
  { s.advance c call (.refreshed response p outcome) with
    refreshInFlight := if s.refreshInFlight = some p then none else s.refreshInFlight }

/-- The token is stored, and the request is sent again with it. -/
def replace (s : State) (c : Nat) (call : Call) (response : Response) (p : Nat) (refreshedToken : String) : State :=
  State.record
    { s.advance c call (.retrying response) with
      tokenReplacements := s.tokenReplacements.set call.attemptedToken refreshedToken }
    [.retried c p refreshedToken, .stored c p call.attemptedToken refreshedToken]

/-- The rest of `fetchWithAccessToken`, up to its second request. -/
def retry (s : State) (c : Nat) (call : Call) (response : Response) (p : Nat) : Except RefreshError String → State
  | .error _ => s.advance c call (.returned (some response))
  | .ok refreshedToken =>
    if call.requestGeneration ≠ s.tokenStateGeneration then s.advance c call (.returned (some response))
    else s.replace c call response p refreshedToken

def reset (s : State) : State :=
  State.record
    { s with
      tokenStateGeneration := s.tokenStateGeneration + 1
      tokenReplacements := []
      refreshInFlight := none }
    [.reset]

end State

/-- One stretch; nothing where it is not ready. -/
def step (s : State) : Action → Option State
  | .start accessToken => some (s.start accessToken)
  | .answer c response => do
    let call ← s.calls[c]?
    match call.phase with
    | .sent => some (s.answer c call response)
    | _ => none
  | .lose c => do
    let call ← s.calls[c]?
    match call.phase with
    | .sent => some (s.advance c call (.returned none))
    | _ => none
  | .proceed c => do
    let call ← s.calls[c]?
    match call.phase with
    | .answered response =>
      if isExpiredAccessToken response then some (s.refreshAccessToken c call response)
      else some (s.advance c call (.returned (some response)))
    | _ => none
  | .settle p response => do
    match ← s.refreshes[p]? with
    | none => some (s.settle p (restoreBrowserSession response))
    | some _ => none
  | .resume c => do
    let call ← s.calls[c]?
    match call.phase with
    | .waiting response p => do
      let outcome ← (← s.refreshes[p]?)
      some (s.resume c call response p outcome)
    | _ => none
  | .retry c => do
    let call ← s.calls[c]?
    match call.phase with
    | .refreshed response p outcome => some (s.retry c call response p outcome)
    | _ => none
  | .finish c response => do
    let call ← s.calls[c]?
    match call.phase with
    -- where the second request fails, the first response is returned
    | .retrying original => some (s.advance c call (.returned (some (response.getD original))))
    | _ => none
  | .reset => some s.reset

/-- What a step does, and when. -/
inductive Steps (s : State) : Action → State → Prop where
  | start {accessToken : String} : Steps s (.start accessToken) (s.start accessToken)
  | answer {c : Nat} {call : Call} {response : Response} (hcall : s.calls[c]? = some call) (hphase : call.phase = .sent) :
    Steps s (.answer c response) (s.answer c call response)
  | lose {c : Nat} {call : Call} (hcall : s.calls[c]? = some call) (hphase : call.phase = .sent) :
    Steps s (.lose c) (s.advance c call (.returned none))
  | join {c : Nat} {call : Call} {response : Response} {p : Nat} (hcall : s.calls[c]? = some call)
    (hphase : call.phase = .answered response) (hexpired : isExpiredAccessToken response = true)
    (hflight : s.refreshInFlight = some p) : Steps s (.proceed c) (s.join c call response p)
  | request {c : Nat} {call : Call} {response : Response} (hcall : s.calls[c]? = some call)
    (hphase : call.phase = .answered response) (hexpired : isExpiredAccessToken response = true)
    (hflight : s.refreshInFlight = none) : Steps s (.proceed c) (s.request c call response)
  | pass {c : Nat} {call : Call} {response : Response} (hcall : s.calls[c]? = some call)
    (hphase : call.phase = .answered response) (hexpired : isExpiredAccessToken response = false) :
    Steps s (.proceed c) (s.advance c call (.returned (some response)))
  | settle {p : Nat} {response : Option Response} (hrefresh : s.refreshes[p]? = some none) :
    Steps s (.settle p response) (s.settle p (restoreBrowserSession response))
  | resume {c : Nat} {call : Call} {response : Response} {p : Nat} {outcome : Except RefreshError String}
    (hcall : s.calls[c]? = some call) (hphase : call.phase = .waiting response p)
    (hrefresh : s.refreshes[p]? = some (some outcome)) :
    Steps s (.resume c) (s.resume c call response p outcome)
  | abandon {c : Nat} {call : Call} {response : Response} {p : Nat} {outcome : Except RefreshError String}
    (hcall : s.calls[c]? = some call) (hphase : call.phase = .refreshed response p outcome)
    (hstale : (∃ e, outcome = .error e) ∨ call.requestGeneration ≠ s.tokenStateGeneration) :
    Steps s (.retry c) (s.advance c call (.returned (some response)))
  | replace {c : Nat} {call : Call} {response : Response} {p : Nat} {refreshedToken : String}
    (hcall : s.calls[c]? = some call) (hphase : call.phase = .refreshed response p (.ok refreshedToken))
    (hcurrent : call.requestGeneration = s.tokenStateGeneration) :
    Steps s (.retry c) (s.replace c call response p refreshedToken)
  | finish {c : Nat} {call : Call} {original : Response} {response : Option Response} (hcall : s.calls[c]? = some call)
    (hphase : call.phase = .retrying original) :
    Steps s (.finish c response) (s.advance c call (.returned (some (response.getD original))))
  | reset : Steps s .reset s.reset

theorem steps_of_step {s s' : State} {a : Action} (h : step s a = some s') : Steps s a s' := by
  cases a with
  | start accessToken =>
    cases h
    exact .start
  | answer c response =>
    obtain ⟨call, hcall, h⟩ := Option.bind_eq_some_iff.mp h
    cases hphase : call.phase <;> rw [hphase] at h <;> cases h
    exact .answer hcall hphase
  | lose c =>
    obtain ⟨call, hcall, h⟩ := Option.bind_eq_some_iff.mp h
    cases hphase : call.phase <;> rw [hphase] at h <;> cases h
    exact .lose hcall hphase
  | proceed c =>
    obtain ⟨call, hcall, h⟩ := Option.bind_eq_some_iff.mp h
    cases hphase : call.phase with
    | answered response =>
      rw [hphase] at h
      dsimp only at h
      split at h
      · next hexpired =>
        cases h
        unfold State.refreshAccessToken
        split
        · next p hflight => exact .join hcall hphase hexpired hflight
        · next hflight => exact .request hcall hphase hexpired hflight
      · next hexpired =>
        cases h
        exact .pass hcall hphase (by simpa using hexpired)
    | _ =>
      rw [hphase] at h
      cases h
  | settle p response =>
    obtain ⟨outcome, hrefresh, h⟩ := Option.bind_eq_some_iff.mp h
    cases outcome <;> cases h
    exact .settle hrefresh
  | resume c =>
    obtain ⟨call, hcall, h⟩ := Option.bind_eq_some_iff.mp h
    cases hphase : call.phase with
    | waiting response p =>
      rw [hphase] at h
      obtain ⟨outcome, hrefresh, h⟩ := Option.bind_eq_some_iff.mp h
      cases outcome with
      | none => cases h
      | some outcome =>
        cases h
        exact .resume hcall hphase hrefresh
    | _ =>
      rw [hphase] at h
      cases h
  | retry c =>
    obtain ⟨call, hcall, h⟩ := Option.bind_eq_some_iff.mp h
    cases hphase : call.phase with
    | refreshed response p outcome =>
      rw [hphase] at h
      cases outcome with
      | error e =>
        cases h
        exact .abandon hcall hphase (Or.inl ⟨e, rfl⟩)
      | ok refreshedToken =>
        cases h
        unfold State.retry
        dsimp only
        split
        · next hstale => exact .abandon hcall hphase (Or.inr hstale)
        · next hcurrent => exact .replace hcall hphase (by simpa using hcurrent)
    | _ =>
      rw [hphase] at h
      cases h
  | finish c response =>
    obtain ⟨call, hcall, h⟩ := Option.bind_eq_some_iff.mp h
    cases hphase : call.phase <;> rw [hphase] at h <;> cases h
    exact .finish hcall hphase
  | reset =>
    cases h
    exact .reset

/-! ### What a step keeps -/

/-- A call keeps its generation and the token it has sent. -/
def Call.Same (call call' : Call) : Prop :=
  call'.requestGeneration = call.requestGeneration ∧ call'.attemptedToken = call.attemptedToken

theorem State.getElem?_advance {s : State} {c : Nat} {call : Call} (hcall : s.calls[c]? = some call) (phase : Phase) (d : Nat) :
    (s.advance c call phase).calls[d]? = if d = c then some { call with phase } else s.calls[d]? := by
  obtain ⟨hlt, -⟩ := List.getElem?_eq_some_iff.mp hcall
  show (s.calls.set c { call with phase })[d]? = _
  rw [List.getElem?_set]
  by_cases h : c = d
  · simp [h, h ▸ hlt]
  · simp [h, Ne.symm h]

theorem State.call_start {s : State} {token : String} {c : Nat} {call : Call} (h : (s.start token).calls[c]? = some call) :
    s.calls[c]? = some call ∨
      c = s.calls.length ∧ call = ⟨s.tokenStateGeneration, s.tokenReplacements.resolve token, .sent⟩ := by
  have h : (s.calls ++ [⟨s.tokenStateGeneration, s.tokenReplacements.resolve token, .sent⟩])[c]? = some call := h
  rw [List.getElem?_append] at h
  split at h
  · exact Or.inl h
  · next hge =>
    right
    obtain ⟨hlt, -⟩ := List.getElem?_eq_some_iff.mp h
    have hc : c - s.calls.length = 0 := by simpa using hlt
    rw [hc] at h
    cases h
    exact ⟨by omega, rfl⟩

/-- The calls after a step: a new one, or one in a new phase. -/
theorem steps_calls {s s' : State} {a : Action} (h : Steps s a s') :
    s'.calls = s.calls ∨ (∃ call, s'.calls = s.calls ++ [call]) ∨
      ∃ c call phase, s.calls[c]? = some call ∧ s'.calls = (s.advance c call phase).calls := by
  cases h with
  | start => exact Or.inr (Or.inl ⟨_, rfl⟩)
  | settle => exact Or.inl rfl
  | reset => exact Or.inl rfl
  | answer hcall => exact Or.inr (Or.inr ⟨_, _, _, hcall, rfl⟩)
  | lose hcall => exact Or.inr (Or.inr ⟨_, _, _, hcall, rfl⟩)
  | pass hcall => exact Or.inr (Or.inr ⟨_, _, _, hcall, rfl⟩)
  | resume hcall => exact Or.inr (Or.inr ⟨_, _, _, hcall, rfl⟩)
  | finish hcall => exact Or.inr (Or.inr ⟨_, _, _, hcall, rfl⟩)
  | join hcall => exact Or.inr (Or.inr ⟨_, _, _, hcall, rfl⟩)
  | request hcall => exact Or.inr (Or.inr ⟨_, _, _, hcall, rfl⟩)
  | abandon hcall => exact Or.inr (Or.inr ⟨_, _, _, hcall, rfl⟩)
  | replace hcall => exact Or.inr (Or.inr ⟨_, _, _, hcall, rfl⟩)

theorem steps_log {s s' : State} {a : Action} (h : Steps s a s') : ∃ news, s'.log = news ++ s.log := by
  cases h with
  | lose => exact ⟨[], rfl⟩
  | pass => exact ⟨[], rfl⟩
  | resume => exact ⟨[], rfl⟩
  | abandon => exact ⟨[], rfl⟩
  | finish => exact ⟨[], rfl⟩
  | _ => exact ⟨_, rfl⟩

/-! ### Runs -/

/-- Stretches one after the other. -/
def run (s : State) (actions : List Action) : Option State := actions.foldlM step s

theorem run_concat {s s' : State} {actions : List Action} {a : Action} (h : run s (actions ++ [a]) = some s') :
    ∃ m, run s actions = some m ∧ Steps m a s' := by
  unfold run at h
  rw [List.foldlM_append] at h
  obtain ⟨m, hm, h⟩ := Option.bind_eq_some_iff.mp h
  rw [List.foldlM_cons] at h
  obtain ⟨m', hm', h⟩ := Option.bind_eq_some_iff.mp h
  cases h
  exact ⟨m, hm, steps_of_step hm'⟩

/-- What holds at the start of a run and is kept by its steps holds at its end. -/
theorem run_induction {s₀ : State} {P : List Action → State → Prop} (hstart : P [] s₀)
    (hstep : ∀ {actions s a s'}, run s₀ actions = some s → P actions s → Steps s a s' → P (actions ++ [a]) s')
    {actions : List Action} {s : State} (h : run s₀ actions = some s) : P actions s := by
  induction actions using List.reverseRecOn generalizing s with
  | nil =>
    cases h
    exact hstart
  | append_singleton actions a ih =>
    obtain ⟨m, hm, hsteps⟩ := run_concat h
    exact hstep hm (ih hm) hsteps

end PveMaster.AuthenticatedFetch
