import PveMaster.Console.Runs
import PveMaster.Proxmox.Client

/-! What Proxmox issues for a console, and what the gateway presents.

`create_console_proxy` checks what Proxmox answers; the port and the ticket lie in Redis until somebody connects,
and go into the address of the websocket. Whatever Proxmox answers, a websocket is opened with a port and a
ticket of an answer it has given in the run (`AskedIn`), for the guest of the websocket's session, and both are read
back from the address. -/
namespace PveMaster.Proxmox
open Encoding Console

/-! ### Answers -/

/-- The `data` of an answer. -/
inductive Body where
  /-- No JSON, no object, or an object without `data`. -/
  | invalid
  | null
  | object (d : Dict)
  /-- An item that is no object is none. -/
  | list (items : List (Option Dict))
  | text (s : String)
  | other

/-- What becomes of a request. -/
inductive Response where
  | timeout
  | connectError (tls : Bool)
  | networkError
  /-- Another exception of the HTTP client. -/
  | otherError
  | answered (status : Nat) (body : Body)

/-- The type a method expects. -/
inductive Expected where
  | object | list | text

def Body.fits : Expected → Body → Bool
  | .object, .object _ | .list, .list _ | .text, .text _ => true
  | _, _ => false

def invalidResponse : Exn :=
  .app ⟨502, "PVE_INVALID_RESPONSE", "The Proxmox API returned an invalid response body.", []⟩

/-- `_request_data`, once it has sent its request. -/
def requestData (expected : Expected) (allowNullData : Bool) : Response → Except Exn Body
  | .timeout =>
    .error (.app ⟨504, "PVE_TIMEOUT", "The Proxmox API did not respond within the configured timeout.", []⟩)
  | .connectError true =>
    .error (.app ⟨502, "PVE_TLS_ERROR", "The Proxmox TLS certificate could not be verified.", []⟩)
  | .connectError false | .networkError =>
    .error (.app ⟨503, "CLUSTER_UNREACHABLE", "The Proxmox cluster is unreachable.", []⟩)
  | .otherError => .error .other
  | .answered status body => do
    raiseIf (status = 401) (.app ⟨401, "PVE_AUTH_FAILED", "The Proxmox API token was rejected.", []⟩)
    raiseIf (status = 403)
      (.app ⟨403, "PVE_PERMISSION_DENIED", "The Proxmox API token lacks a required permission.", []⟩)
    raiseIf (500 ≤ status) (.app ⟨502, "PVE_UPSTREAM_ERROR", "The Proxmox API returned a server error.", []⟩)
    raiseIf (400 ≤ status)
      (.app ⟨502, "PVE_INVALID_RESPONSE", "The Proxmox API returned an unexpected response.", []⟩)
    match allowNullData, body with
    | true, .null => return .text ""
    | _, body => if body.fits expected then return body else .error invalidResponse

/-- The characters `int` skips at both ends: those of `str.strip`, but for the four separators of ASCII. -/
def isBlank (c : Char) : Bool := isSpace c && !(28 ≤ c.toNat && c.toNat ≤ 31)

/-- `int(value)` of a text: digits of any script, in groups between underscores, at most 4300 of them. -/
def intOfText (s : String) : Option Int := do
  let bare := ((s.toList.dropWhile isBlank).reverse.dropWhile isBlank).reverse
  let (negative, digits) := match bare with
    | '-' :: rest => (true, rest)
    | '+' :: rest => (false, rest)
    | rest => (false, rest)
  let groups := digits.splitOn '_'
  if groups.all (· ≠ []) ∧ groups.flatten.length ≤ 4300 then
    let values ← groups.flatten.mapM decimalDigit?
    let n : Int := values.foldl (fun n d => 10 * n + d) 0
    return if negative then -n else n
  else none

/-- `create_console_proxy`, once it is answered. -/
def createConsoleProxy (kind : WorkloadKind) (node : String) (vmid : Int) (response : Response) :
    Except Exn ProxyTicket := do
  match ← requestData .object false response with
  | .object data => do
    let port ← orRaise (match data.get? "port" with
      | some (.str s) => intOfText s
      | some value => value.asInt?
      | none => none) invalidResponse
    let ticket ← orRaise ((data.get? "ticket").bind Json.asStr?) invalidResponse
    raiseIf (ticket = "" ∨ 4096 < ticket.length) invalidResponse
    let user := (data.get? "user").bind Json.asStr?
    raiseIf (kind = .lxc ∧ user.all (fun user => user = "" ∨ 255 < user.length)) invalidResponse
    raiseIf (¬ (1 ≤ port ∧ port ≤ 65535)) invalidResponse
    return ⟨kind, node, vmid, port.toNat, ticket, user⟩
  | _ => .error invalidResponse

/-- **A ticket that is accepted.** -/
structure Accepted (kind : WorkloadKind) (node : String) (vmid : Int) (proxy : ProxyTicket) : Prop where
  guest : proxy.kind = kind ∧ proxy.node = node ∧ proxy.vmid = vmid
  port : 1 ≤ proxy.port ∧ proxy.port ≤ 65535
  ticket : proxy.ticket ≠ "" ∧ proxy.ticket.length ≤ 4096
  user : kind = .lxc → ∃ user, proxy.user = some user ∧ user ≠ "" ∧ user.length ≤ 255

theorem createConsoleProxy_ok {kind : WorkloadKind} {node : String} {vmid : Int} {response : Response}
    {proxy : ProxyTicket} (h : createConsoleProxy kind node vmid response = .ok proxy) : Accepted kind node vmid proxy := by
  obtain ⟨body, _, h⟩ := bind_ok.mp h
  cases body with
  | object data =>
    obtain ⟨port, _, h⟩ := bind_ok.mp h
    obtain ⟨ticket, _, h⟩ := bind_ok.mp h
    obtain ⟨_, hticket, h⟩ := bind_ok.mp h
    obtain ⟨_, huser, h⟩ := bind_ok.mp h
    obtain ⟨_, hport, h⟩ := bind_ok.mp h
    cases h
    rw [raiseIf_ok] at hticket huser hport
    have hport : 1 ≤ port.toNat ∧ port.toNat ≤ 65535 := by omega
    refine ⟨⟨rfl, rfl, rfl⟩, hport, ⟨fun h => hticket (Or.inl h), Nat.le_of_not_lt fun h => hticket (Or.inr h)⟩, ?_⟩
    intro hkind
    generalize (data.get? "user").bind Json.asStr? = user at huser
    cases user with
    | none => exact absurd ⟨hkind, rfl⟩ huser
    | some user =>
      have hfits : ¬ (user = "" ∨ 255 < user.length) := fun h => huser ⟨hkind, decide_eq_true h⟩
      exact ⟨user, rfl, fun h => hfits (Or.inl h), Nat.le_of_not_lt fun h => hfits (Or.inr h)⟩
  | _ => cases h

/-! ### The websocket -/

/-- `urlsplit(api_base_url)`. -/
structure BaseUrl where
  scheme : List Char
  netloc : List Char
  path : List Char

structure Uri where
  scheme : List Char
  netloc : List Char
  path : List Char
  query : List Char

/-- `base.path.rstrip("/")`. -/
def BaseUrl.barePath (base : BaseUrl) : List Char := (base.path.reverse.dropWhile (· == '/')).reverse

/-- The address `open_console_websocket` connects to. -/
def consoleUri (base : BaseUrl) (proxy : ProxyTicket) : Uri where
  scheme := if base.scheme = "https".toList then "wss".toList else "ws".toList
  netloc := base.netloc
  path := base.barePath ++ guestPath proxy.kind proxy.node proxy.vmid ["vncwebsocket"]
  query := urlencode [("port", intText proxy.port), ("vncticket", proxy.ticket)]

/-- The segments and the fields of an address under a base. -/
def readUri (base : BaseUrl) (u : Uri) : Option (List String × List (String × String)) := do
  return (← segments (u.path.drop base.barePath.length), ← readForm u.query)

theorem readUri_consoleUri (base : BaseUrl) (proxy : ProxyTicket) :
    readUri base (consoleUri base proxy) = some
      (["api2", "json", "nodes", proxy.node, proxy.kind.guestType, intText proxy.vmid, "vncwebsocket"],
        [("port", intText proxy.port), ("vncticket", proxy.ticket)]) := by
  have hkind : IsSegment proxy.kind.guestType.toList proxy.kind.guestType := by
    cases proxy.kind <;> exact isSegment_plain rfl
  have hpath : segments (guestPath proxy.kind proxy.node proxy.vmid ["vncwebsocket"]) =
      some ["api2", "json", "nodes", proxy.node, proxy.kind.guestType, intText proxy.vmid, "vncwebsocket"] :=
    segments_path (.cons (isSegment_plain rfl) (.cons (isSegment_plain rfl) (.cons (isSegment_plain rfl)
      (.cons (isSegment_quoteText _) (.cons hkind (.cons (isSegment_integer _) (.cons (isSegment_plain rfl) .nil)))))))
  unfold readUri consoleUri
  rw [List.drop_left, hpath, readForm_urlencode (by simp)]
  rfl

end PveMaster.Proxmox

namespace PveMaster.Console
open Prog Proxmox

/-! ### Runs -/

/-- In a run Proxmox is asked for a console of a workload, by a step with this input. -/
def AskedIn (rt : Runtime) (settings : ConsoleSettings) (hash : String → String) (db : Db) (run : List ConsoleAction)
    (w : Workload) (i : ConsoleInput) : Prop :=
  ∃ before pid after θ k, run = before ++ .step pid i :: after ∧
    (runFrom (Sys.next (consoleMachine rt settings hash)) (Sys.idle (Site.idle db)) before).procs pid =
      some (θ, .node (.createProxy w) k)

/-- The port, the ticket and the user of a grant are those that the client has accepted when Proxmox was asked for a
console of its workload. -/
def Issued (asked : Workload → ConsoleInput → Prop) (proxmox : Workload → ConsoleInput → Response) (g : ConsoleGrant) :
    Prop :=
  ∃ (w : Workload) (i : ConsoleInput) (proxy : ProxyTicket), asked w i ∧ w.id = g.workloadId ∧
    createConsoleProxy w.kind w.node w.vmid (proxmox w i) = .ok proxy ∧ g.pveKind = proxy.kind ∧
      g.pvePort = proxy.port ∧ g.pveTicket = proxy.ticket ∧ g.pveUser = proxy.user.filter (· != "")

/-- What is assumed of the answers: the client makes a ticket of what Proxmox answers. -/
def ConsoleOp.Answered (proxmox : Workload → ConsoleInput → Response) {ρ : Type} (o : ConsoleOp ρ) (i : ConsoleInput) :
    Prop :=
  match o with
  | .createProxy w => i.surroundings.ticket = createConsoleProxy w.kind w.node w.vmid (proxmox w i)
  | _ => True

def answeredRuns (proxmox : Workload → ConsoleInput → Response) :
    Conditions Exn ConsoleOp ConsoleProcess Site ConsoleInput ConsoleCall where
  step _ p i s :=
    match p with
    | .node o _ => o.Fresh s ∧ o.Answered proxmox i
    | .done _ => True
  env s s' := s' = { s with db := s'.db }

/-- What has been asked is known. -/
def ConsoleOp.Asks (asked : Workload → ConsoleInput → Prop) {ρ : Type} (o : ConsoleOp ρ) (i : ConsoleInput) : Prop :=
  match o with
  | .createProxy w => asked w i
  | _ => True

/-- The same of runs in which it is known what is asked. -/
def askingRuns (asked : Workload → ConsoleInput → Prop) (proxmox : Workload → ConsoleInput → Response) :
    Conditions Exn ConsoleOp ConsoleProcess Site ConsoleInput ConsoleCall where
  step θ p i s := (answeredRuns proxmox).step θ p i s ∧
    match p with
    | .node o _ => o.Asks asked i
    | .done _ => True
  env := (answeredRuns proxmox).env

/-- Grants are created of tickets that were issued. -/
def ticketContract (asked : Workload → ConsoleInput → Prop) (proxmox : Workload → ConsoleInput → Response) :
    Contract ConsoleOp ConsoleProcess Site ConsoleInput where
  may o i _ _ := o.Answered proxmox i ∧ o.Asks asked i
  rely _ _ := True
  guar s s' := ∀ c ∈ s'.created, c ∈ s.created ∨ Issued asked proxmox c.grant

section Programs
variable {rt : Runtime} {settings : ConsoleSettings} {hash : String → String}
  {asked : Workload → ConsoleInput → Prop} {proxmox : Workload → ConsoleInput → Response} {θ : ConsoleProcess} {s : Site}

/-- Operations that create no grant. -/
def ConsoleOp.Uncreating {ρ : Type} : ConsoleOp ρ → Prop
  | .hset .. => False
  | _ => True

theorem RedisOutcome.call_created {α : Type} {o : RedisOutcome} {s : Site} {out : Site × α} {failed : α}
    (h : out.1.created = s.created) : (o.call s out failed).1.created = s.created := by
  rcases RedisOutcome.call_fst o s out failed with hc | hc <;> rw [hc]
  exact h

theorem exec_uncreating {ρ : Type} {o : ConsoleOp ρ} {i : ConsoleInput} {θ θ' : ConsoleProcess} {s s' : Site} {r : ρ}
    (ho : o.Uncreating) (h : (consoleMachine rt settings hash).exec o i θ s = some (θ', s', r)) :
    s'.created = s.created := by
  have hexec : o.exec rt hash i θ s = (θ', s', r) := Option.some.inj h
  have hstate : (o.exec rt hash i θ s).2.1 = s' := congrArg (fun out => out.2.1) hexec
  rw [← hstate]
  cases o with
  | hset g token => cases ho
  | consume id token =>
    refine RedisOutcome.call_created ?_
    unfold Site.consume
    split
    · split <;> rfl
    · rfl
  | acquire g ttl =>
    refine RedisOutcome.call_created ?_
    rcases acquire_cases θ.number s g ttl with hc | ⟨-, hc⟩ <;> rw [hc]
  | release g =>
    refine RedisOutcome.call_created ?_
    rcases release_cases s g with hc | ⟨_, -, -, hc⟩ <;> rw [hc]
  | expire id ttl =>
    refine RedisOutcome.call_created ?_
    rcases expire_cases s id ttl with hc | ⟨_, _, -, -, hc⟩ <;> rw [hc]
  | commit audit =>
    unfold ConsoleOp.exec
    dsimp only
    split <;> rfl
  | _ => rfl

theorem wp_uncreating {α : Type} {p : ConsoleProg α} (hp : p.Only ConsoleOp.Uncreating) :
    wp (consoleMachine rt settings hash) (ticketContract asked proxmox) p (fun _ _ _ => True) θ s := by
  refine wp_only (J := fun _ _ => True) (fun _ _ _ _ h => h) ?_ hp trivial
  intro ρ o i θ θ' s s' r ho _ _ hexec
  refine ⟨fun c hc => Or.inl ?_, trivial⟩
  rw [← exec_uncreating ho hexec]
  exact hc

/-! Connections create nothing. -/

theorem uncreating_loadConnection (g : ConsoleGrant) : (loadConnection rt g).Only ConsoleOp.Uncreating := by
  unfold loadConnection
  refine only_bind (only_perform trivial) fun found => ?_
  split
  · trivial
  · refine only_bind (only_perform trivial) fun workload => ?_
    split
    · trivial
    · split
      · trivial
      split
      · trivial
      split
      · trivial
      refine only_bind (only_perform trivial) fun client => ?_
      split <;> trivial

theorem uncreating_serveConnection (g : ConsoleGrant) (c : ConsoleConnection) :
    (serveConnection g c).Only ConsoleOp.Uncreating := by
  unfold serveConnection
  refine only_bind (only_perform trivial) fun _ => only_bind (only_op trivial) fun _ => ?_
  refine only_bind (only_perform trivial) fun _ => only_bind only_done fun frame => only_bind ?_ fun _ => ?_
  · cases frame with
    | none => trivial
    | some frame => exact only_perform trivial
  · exact only_bind (only_op trivial) fun _ => only_perform trivial

theorem uncreating_endConnection (g : ConsoleGrant) (client : Bool) (ended : Except Exn Unit) :
    (endConnection g client ended).Only ConsoleOp.Uncreating := by
  unfold endConnection
  refine only_bind ?_ fun _ => only_bind (only_op trivial) fun _ => ?_
  · cases client with
    | false => trivial
    | true => exact only_perform trivial
  · cases ended with
    | ok _ => trivial
    | error e =>
      dsimp only
      split <;> trivial

theorem uncreating_consoleWebsocket (m : WebsocketMessage) :
    (consoleWebsocket rt settings m).Only ConsoleOp.Uncreating := by
  unfold consoleWebsocket
  split
  · trivial
  · refine only_bind (only_op trivial) fun values => ?_
    split
    · trivial
    · next g _ =>
      refine only_bind (only_op trivial) fun taken => ?_
      split
      · unfold holdConnection
        refine only_bind (only_attempt (uncreating_loadConnection g)) fun loaded => ?_
        split
        · exact uncreating_endConnection g _ _
        · exact uncreating_endConnection g _ _
        · exact only_bind (only_attempt (uncreating_serveConnection g _)) fun _ => uncreating_endConnection g _ _
      · trivial

/-! Sessions are created of what Proxmox has issued. -/

theorem wp_hset_issued {g : ConsoleGrant} {token : String} (h : Issued asked proxmox g) :
    wp (consoleMachine rt settings hash) (ticketContract asked proxmox) (perform (.hset g token)) (fun _ _ _ => True) θ s := by
  refine wp_perform fun s₁ _ i θ' s₂ r _ hexec => ⟨fun c hc => ?_, trivial⟩
  have hexec : (ConsoleOp.hset g token).exec rt hash i θ s₁ = (θ', s₂, r) := Option.some.inj hexec
  have hstate : (i.redis.call s₁ (s₁.hset hash g token, Except.ok ()) (.error sessionUnavailable)).1 = s₂ :=
    congrArg (fun out => out.2.1) hexec
  rw [← hstate] at hc
  rcases RedisOutcome.call_fst i.redis s₁ (s₁.hset hash g token, Except.ok ()) (.error sessionUnavailable) with he | he
  · rw [he] at hc
    exact Or.inl hc
  · rw [he] at hc
    rcases List.mem_append.mp hc with hc | hc
    · exact Or.inl hc
    · rw [List.mem_singleton.mp hc]
      exact Or.inr h

theorem wp_followed {α β : Type} {p : ConsoleProg α} {f : α → ConsoleProg β}
    (hp : wp (consoleMachine rt settings hash) (ticketContract asked proxmox) p (fun _ _ _ => True) θ s)
    (hf : ∀ a θ s, wp (consoleMachine rt settings hash) (ticketContract asked proxmox) (f a) (fun _ _ _ => True) θ s) :
    wp (consoleMachine rt settings hash) (ticketContract asked proxmox) (p >>= f) (fun _ _ _ => True) θ s := by
  refine wp_bind (wp_mono (fun r θ s _ => ?_) hp)
  cases r with
  | ok a => exact hf a θ s
  | error e => trivial

/-- **A session is created** of a ticket that Proxmox has issued for its workload. -/
theorem wp_createSession_issued (principal : Principal) (workloadId : Uuid) :
    wp (consoleMachine rt settings hash) (ticketContract asked proxmox) (createSession settings principal workloadId)
      (fun _ _ _ => True) θ s := by
  unfold createSession
  refine wp_followed (wp_uncreating (only_perform trivial)) fun workload θ s => ?_
  refine wp_bind (wp_perform fun s₁ _ i θ' s₂ answer hmay hexec => ?_)
  obtain ⟨hanswered, hasked⟩ := hmay
  have hticket : i.surroundings.ticket = createConsoleProxy workload.kind workload.node workload.vmid (proxmox workload i) :=
    hanswered
  cases hexec
  refine ⟨fun c hc => Or.inl hc, ?_⟩
  cases hproxy : i.surroundings.ticket with
  | error e => trivial
  | ok proxy =>
    rw [hproxy] at hticket
    refine wp_followed (wp_uncreating (only_op trivial)) fun drawn _ _ => ?_
    refine wp_followed (wp_hset_issued ⟨workload, i, proxy, hasked, rfl, hticket.symm, rfl, rfl, rfl, rfl⟩) fun _ _ _ => ?_
    refine wp_followed (wp_uncreating (only_perform trivial)) fun _ _ _ => ?_
    exact wp_followed (wp_uncreating (only_perform trivial)) fun _ _ _ => trivial

theorem wp_message_issued (m : ConsoleMessage) :
    wp (consoleMachine rt settings hash) (ticketContract asked proxmox) (m.program rt settings) (fun _ _ _ => True) θ s := by
  cases m with
  | create principal workloadId => exact wp_followed (wp_createSession_issued principal workloadId) fun _ _ _ => trivial
  | connect m => exact wp_uncreating (uncreating_consoleWebsocket m)
  | wait seconds =>
    have hquiet : (ConsoleOp.elapse seconds).Uncreating := trivial
    exact wp_uncreating (only_op hquiet)

theorem ticketProtocol : Protocol (consoleMachine rt settings hash) (askingRuns asked proxmox)
    (fun s => ∀ c ∈ s.created, Issued asked proxmox c.grant)
    (fun θ p s => wp (consoleMachine rt settings hash) (ticketContract asked proxmox) p (fun _ _ _ => True) θ s)
    (ticketContract asked proxmox).rely := by
  refine .of_wp_during ⟨fun _ => trivial, fun _ _ _ _ _ => trivial⟩ (fun _ _ _ => trivial) ?_
    (fun _ _ _ _ _ _ => trivial) (fun m s _ _ => wp_message_issued m.message)
    (fun o k i θ s _ h => ⟨h.1.2, h.2⟩) ?_ ?_
  · intro s s' hguar hs c hc
    rcases hguar c hc with hc | h
    · exact hs c hc
    · exact h
  · intro s s' hs henv
    have henv : s' = { s with db := s'.db } := henv
    refine ⟨fun c hc => ?_, trivial⟩
    rw [henv] at hc
    exact hs c hc
  · exact fun θ s hs => ⟨hs, trivial⟩

end Programs

/-- A grant of a ticket that was issued, on its way to a node and a guest. -/
def ConsoleGrant.proxy (g : ConsoleGrant) (node : String) (vmid : Int) : ProxyTicket :=
  ⟨g.pveKind, node, vmid, g.pvePort, g.pveTicket, g.pveUser⟩

/-- The frame that a terminal begins with does not fail. -/
theorem Issued.frame {asked : Workload → ConsoleInput → Prop} {proxmox : Workload → ConsoleInput → Response}
    {g : ConsoleGrant} (h : Issued asked proxmox g) (node : String) (vmid : Int) :
    ∃ frame, terminalProxyAuthFrame (g.proxy node vmid) = .ok frame := by
  obtain ⟨w, i, proxy, -, -, hproxy, hkind, -, -, huser⟩ := h
  have haccepted := createConsoleProxy_ok hproxy
  unfold terminalProxyAuthFrame ConsoleGrant.proxy
  cases hk : g.pveKind with
  | qemu => exact ⟨none, rfl⟩
  | lxc =>
    obtain ⟨user, hsome, hne, -⟩ := haccepted.user (haccepted.guest.1.symm.trans (hkind.symm.trans hk))
    have hgrant : g.pveUser = some user := by
      rw [huser, hsome]
      simp [hne]
    dsimp only
    rw [hgrant]
    exact ⟨_, rfl⟩

/-- A run has asked for what it asks for. -/
theorem along_asking {rt : Runtime} {settings : ConsoleSettings} {hash : String → String} {db : Db}
    {proxmox : Workload → ConsoleInput → Response} {run : List ConsoleAction}
    (hrun : Along (Sys.next (consoleMachine rt settings hash)) (answeredRuns proxmox).Met (Sys.idle (Site.idle db)) run) :
    Along (Sys.next (consoleMachine rt settings hash)) (askingRuns (AskedIn rt settings hash db run) proxmox).Met
      (Sys.idle (Site.idle db)) run := by
  refine hrun.of_prefix fun before a after hactions hmet => ?_
  cases a with
  | spawn pid m => trivial
  | env f => exact hmet
  | crash pid => exact hmet
  | step pid i =>
    simp only [Conditions.Met] at hmet ⊢
    cases hp : (runFrom (Sys.next (consoleMachine rt settings hash)) (Sys.idle (Site.idle db)) before).procs pid with
    | none => trivial
    | some proc =>
      rw [hp] at hmet
      obtain ⟨θ, p⟩ := proc
      refine ⟨hmet, ?_⟩
      cases p with
      | done r => trivial
      | node o k =>
        cases o with
        | createProxy w => exact ⟨before, pid, after, θ, k, hactions, hp⟩
        | _ => trivial

/-- **What the gateway presents** to Proxmox, in every run and whatever Proxmox answers: a websocket is opened for
a grant of a ticket that the client has accepted of an answer of the run for the grant's workload, with a port from 1
to 65535; under any base, and on any node, its address is read back as that guest's, with the port and the ticket as
they were issued; and the frame that a terminal begins with can be made. -/
theorem tickets_presented (rt : Runtime) (settings : ConsoleSettings) (hash : String → String) (db : Db)
    (proxmox : Workload → ConsoleInput → Response) (run : List ConsoleAction)
    (hnumbers : (numbers rt settings hash run).Nodup)
    (hrun : Along (Sys.next (consoleMachine rt settings hash)) (answeredRuns proxmox).Met (Sys.idle (Site.idle db)) run) :
    ∀ d ∈ (runFrom (Sys.next (consoleMachine rt settings hash)) (Sys.idle (Site.idle db)) run).shared.dialed,
      (Issued (AskedIn rt settings hash db run) proxmox d.grant ∧ 1 ≤ d.grant.pvePort ∧ d.grant.pvePort ≤ 65535) ∧
        ∀ (base : BaseUrl) (node : String) (vmid : Int),
          readUri base (consoleUri base (d.grant.proxy node vmid)) = some
            (["api2", "json", "nodes", node, d.grant.pveKind.guestType, intText vmid, "vncwebsocket"],
              [("port", intText d.grant.pvePort), ("vncticket", d.grant.pveTicket)]) ∧
          ∃ frame, terminalProxyAuthFrame (d.grant.proxy node vmid) = .ok frame := by
  intro d hd
  have hconsole : Along (Sys.next (consoleMachine rt settings hash)) consoleRuns.Met (Sys.idle (Site.idle db)) run := by
    refine Along.mono (fun s a h => ?_) hrun
    have hstep (θ : ConsoleProcess) (p : ConsoleProg Unit) (i : ConsoleInput) (s : Site)
        (h : (answeredRuns proxmox).step θ p i s) : consoleRuns.step θ p i s := by
      cases p with
      | node o k => exact h.1
      | done r => trivial
    exact Conditions.met_mono (fun _ _ _ => trivial) hstep (fun _ _ _ _ => trivial) (fun _ _ h => h) h
  have hsound := sound_run hnumbers hconsole
  have hissued := (ticketProtocol.holds_run (Sys.holds_idle fun c hc => by cases hc) (along_asking hrun)).shared
  obtain ⟨x, -, -, -, c, hc, hgrant, -⟩ := (hsound.granted.opened d hd).granted
  have hd : Issued (AskedIn rt settings hash db run) proxmox d.grant := hgrant ▸ hissued c hc
  have hport : 1 ≤ d.grant.pvePort ∧ d.grant.pvePort ≤ 65535 := by
    obtain ⟨w, i, proxy, -, -, hproxy, -, hport, -⟩ := hd
    rw [hport]
    exact (createConsoleProxy_ok hproxy).port
  exact ⟨⟨hd, hport⟩, fun base node vmid => ⟨readUri_consoleUri base (d.grant.proxy node vmid), hd.frame node vmid⟩⟩

/-! A run whose answers are known can be checked. -/

deriving instance DecidableEq for ProxyTicket

instance (proxmox : Workload → ConsoleInput → Response) {ρ : Type} (o : ConsoleOp ρ) (i : ConsoleInput) :
    Decidable (o.Answered proxmox i) := by
  induction o using ConsoleOp.casesOn with
  | createProxy w => exact inferInstanceAs (Decidable (_ = _))
  | _ => exact .isTrue trivial

instance (proxmox : Workload → ConsoleInput → Response) (θ : ConsoleProcess) (p : Prog Exn ConsoleOp Unit)
    (i : ConsoleInput) (s : Site) : Decidable ((answeredRuns proxmox).step θ p i s) :=
  match p with
  | .node o _ => inferInstanceAs (Decidable (o.Fresh s ∧ o.Answered proxmox i))
  | .done _ => .isTrue trivial

instance (proxmox : Workload → ConsoleInput → Response) (m : ConsoleCall) (s : Site) :
    Decidable ((answeredRuns proxmox).spawn m s) := .isTrue trivial

instance (proxmox : Workload → ConsoleInput → Response) (θ : ConsoleProcess) (p : Prog Exn ConsoleOp Unit) (s : Site) :
    Decidable ((answeredRuns proxmox).crash θ p s) := .isTrue trivial

/-- The answer behind the ticket of the sample. -/
def sampleAnswer : Response := .answered 200 (.object [("port", .str "5900"), ("ticket", .str "PVEVNC:1")])

/-- A session, and a browser that opens it. -/
def presentedRun : List ConsoleAction := sampleCreation 0 7 ++ (sampleConnect 2 7 "token" :: acts 2 0 13)

theorem ticket_presented : (sampleRun presentedRun).dialed.map (fun d => d.grant.pveTicket) = ["PVEVNC:1"] ∧
    ∀ d ∈ (sampleRun presentedRun).dialed,
      Issued (AskedIn asciiRuntime sampleSettings sampleHash sampleDb presentedRun) (fun _ _ => sampleAnswer) d.grant := by
  have hrun : Along (Sys.next (consoleMachine asciiRuntime sampleSettings sampleHash))
      (answeredRuns fun _ _ => sampleAnswer).inside.Met (Sys.idle (Site.idle sampleDb)) presentedRun := by decide +kernel
  have h := tickets_presented asciiRuntime sampleSettings sampleHash sampleDb (fun _ _ => sampleAnswer) presentedRun
    (by decide +kernel) (Conditions.along_inside hrun)
  exact ⟨by decide +kernel, fun d hd => (h d hd).1.1⟩

end PveMaster.Console
