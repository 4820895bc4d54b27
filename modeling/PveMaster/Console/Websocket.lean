import Mathlib.Logic.Function.Basic
import PveMaster.Console.Records
import PveMaster.Foundation.RelyGuarantee

/-! Console connections, over a Redis whose keys expire.

`ConsoleSessionService.create` and `console_websocket` run beside each other and beside
changes of the database. A key is looked up lazily: one whose time is over is not there. A
call of Redis may fail before or after it has taken effect. The logs of a `Site` and the
`owner` of a slot decide nothing. -/
namespace PveMaster.Console
open Prog

/-! ### The state -/

/-- The settings of consoles, in seconds. -/
structure ConsoleSettings where
  sessionTtl : Nat
  maxDuration : Nat
  connectTimeout : Nat
  corsOrigins : List String

/-- A hash of Redis and the time it expires at, if it does. -/
structure SessionRecord where
  fields : Fields
  expires : Option Nat

/-- The value of a slot key. -/
structure Slot where
  sessionId : Uuid
  expires : Nat
  /-- The connection that has set it. -/
  owner : Nat
  deriving DecidableEq

structure Creation where
  grant : ConsoleGrant
  token : String

structure Consumption where
  sessionId : Uuid
  token : String
  connection : Nat

/-- The state a query has read, and what was consumed by then. -/
structure Snapshot where
  db : Db
  consumed : List Consumption

/-- An upstream connection that is opened, and what the queries before it have read. -/
structure Dial where
  connection : Nat
  grant : ConsoleGrant
  userState : Option Snapshot
  workloadState : Option Snapshot

structure Handshake where
  connection : Nat
  started : Nat

structure Relay where
  connection : Nat
  sessionId : Uuid
  userId : Uuid
  workloadId : Uuid
  /-- When its connection acquired the slot. -/
  acquired : Nat
  started : Nat

structure Site where
  clock : Nat
  db : Db
  /-- `console:session:{id}`. -/
  sessions : Uuid → Option SessionRecord
  /-- `console:live:{user}:{workload}`. -/
  slots : Uuid × Uuid → Option Slot
  handshakes : List Handshake
  relays : List Relay
  created : List Creation
  consumed : List Consumption
  dialed : List Dial

/-- A site without sessions. -/
def Site.idle (db : Db) : Site := ⟨0, db, fun _ => none, fun _ => none, [], [], [], [], []⟩

def Site.snapshot (s : Site) : Snapshot := ⟨s.db, s.consumed⟩

def ConsoleGrant.slot (g : ConsoleGrant) : Uuid × Uuid := (g.userId, g.workloadId)

def Relay.slot (r : Relay) : Uuid × Uuid := (r.userId, r.workloadId)

/-- A hash that is there. -/
def Site.session? (s : Site) (id : Uuid) : Option SessionRecord :=
  (s.sessions id).filter fun r => r.expires.all (s.clock ≤ ·)

/-- A slot that is taken. -/
def Site.slot? (s : Site) (key : Uuid × Uuid) : Option Slot := (s.slots key).filter (s.clock ≤ ·.expires)

/-! ### Calls of Redis -/

/-- What becomes of a call of Redis. -/
inductive RedisOutcome where
  | done
  /-- It fails, although it has taken effect. -/
  | lost
  | refused
  deriving DecidableEq

/-- The call, or its failure. -/
def RedisOutcome.call {α : Type} (o : RedisOutcome) (s : Site) (out : Site × α) (failed : α) : Site × α :=
  match o with
  | .done => out
  | .lost => (out.1, failed)
  | .refused => (s, failed)

/-- `HSET` of the record of a grant. -/
def Site.hset (hash : String → String) (s : Site) (g : ConsoleGrant) (token : String) : Site :=
  { s with
    sessions := Function.update s.sessions g.sessionId (some
      { fields := sessionFields (hash token) g
        expires := (s.session? g.sessionId).bind SessionRecord.expires })
    created := s.created ++ [⟨g, token⟩] }

/-- `EXPIRE`. -/
def Site.expire (s : Site) (id : Uuid) (ttl : Nat) : Site :=
  match s.session? id with
  | some r => { s with
      sessions := Function.update s.sessions id (some { r with expires := some (s.clock + ttl) }) }
  | none => s

/-- `_CONSUME_SCRIPT`. -/
def Site.consume (hash : String → String) (s : Site) (connection : Nat) (id : Uuid) (token : String) :
    Site × List String :=
  match s.session? id with
  | some r =>
    if r.fields.lookup "token_hash" = some (hash token) then
      ({ s with
          sessions := Function.update s.sessions id none
          consumed := s.consumed ++ [⟨id, token, connection⟩] }, hgetall r.fields)
    else (s, [])
  | none => (s, [])

/-- `SET key value EX ttl NX`. -/
def Site.acquire (s : Site) (connection : Nat) (g : ConsoleGrant) (ttl : Nat) : Site × Bool :=
  match s.slot? g.slot with
  | some _ => (s, false)
  | none =>
    ({ s with slots := Function.update s.slots g.slot (some ⟨g.sessionId, s.clock + ttl, connection⟩) }, true)

/-- `_RELEASE_SCRIPT`. -/
def Site.release (s : Site) (g : ConsoleGrant) : Site :=
  match s.slot? g.slot with
  | some slot =>
    if slot.sessionId = g.sessionId then { s with slots := Function.update s.slots g.slot none } else s
  | none => s

/-! ### Operations -/

/-- What an operation takes from outside. -/
structure ConsoleInput where
  redis : RedisOutcome
  surroundings : Surroundings
  token : String
  /-- What it raises, if it fails. -/
  fails : Option Exn

/-- One call of the console, or the passing of time. -/
structure ConsoleProcess where
  number : Nat
  acquired : Nat := 0
  userState : Option Snapshot := none
  workloadState : Option Snapshot := none

inductive ConsoleOp : Type → Type where
  /-- `create` up to its call of Proxmox. -/
  | target (principal : Principal) (workloadId : Uuid) : ConsoleOp (Except Exn Workload)
  | createProxy (w : Workload) : ConsoleOp (Except Exn ProxyTicket)
  /-- `uuid4` and `token_urlsafe`. -/
  | draw : ConsoleOp (Uuid × String)
  | hset (g : ConsoleGrant) (token : String) : ConsoleOp (Except Exn Unit)
  | expire (id : Uuid) (ttl : Nat) : ConsoleOp (Except Exn Unit)
  | commit (audit : AuditLog) : ConsoleOp (Except Exn Unit)
  | consume (id : Uuid) (token : String) : ConsoleOp (List String)
  | acquire (g : ConsoleGrant) (ttl : Nat) : ConsoleOp Bool
  | user (id : Uuid) : ConsoleOp (Except Exn (Option User))
  | workload (principal : Principal) (workloadId : Uuid) : ConsoleOp (Except Exn (Option Workload))
  | client (w : Workload) : ConsoleOp (Except Exn Bool)
  | accept : ConsoleOp (Except Exn Unit)
  /-- `open_console_websocket` until it is answered. -/
  | dial (g : ConsoleGrant) : ConsoleOp Unit
  | answered : ConsoleOp (Except Exn Unit)
  | sendAuth (frame : String) : ConsoleOp (Except Exn Unit)
  | relay (g : ConsoleGrant) : ConsoleOp Unit
  | relayed : ConsoleOp (Except Exn Unit)
  | closeClient : ConsoleOp (Except Exn Unit)
  | release (g : ConsoleGrant) : ConsoleOp Unit
  | elapse (seconds : Nat) : ConsoleOp Unit

/-- What an operation that may fail comes to. -/
def ConsoleInput.outcome {α : Type} (i : ConsoleInput) (a : α) : Except Exn α :=
  match i.fails with
  | some e => .error e
  | none => .ok a

def ConsoleOp.exec (rt : Runtime) (hash : String → String) {ρ : Type} (o : ConsoleOp ρ) (i : ConsoleInput)
    (θ : ConsoleProcess) (s : Site) : ConsoleProcess × Site × ρ :=
  match o with
  | .target principal workloadId => (θ, s, consoleTarget rt principal workloadId i.surroundings s.db)
  | .createProxy _ => (θ, s, i.surroundings.ticket)
  | .draw => (θ, s, (i.surroundings.sessionId, i.token))
  | .hset g token => (θ, i.redis.call s (s.hset hash g token, .ok ()) (.error sessionUnavailable))
  | .expire id ttl => (θ, i.redis.call s (s.expire id ttl, .ok ()) (.error sessionUnavailable))
  | .commit audit =>
    match i.fails with
    | some e => (θ, s, .error e)
    | none => (θ, { s with db := { s.db with auditLogs := s.db.auditLogs ++ [audit] } }, .ok ())
  | .consume id token => (θ, i.redis.call s (s.consume hash θ.number id token) [])
  | .acquire g ttl => ({ θ with acquired := s.clock }, i.redis.call s (s.acquire θ.number g ttl) false)
  | .user id => ({ θ with userState := some s.snapshot }, s, i.outcome (s.db.users.get? id))
  | .workload principal workloadId =>
    ({ θ with workloadState := some s.snapshot }, s,
      i.outcome (authorizedConsoleWorkload principal workloadId s.db).toOption)
  | .client w => (θ, s, i.outcome (buildConsoleClient i.surroundings.decrypts w s.db))
  | .accept => (θ, s, i.outcome ())
  | .dial g =>
    (θ, { s with
      handshakes := s.handshakes ++ [⟨θ.number, s.clock⟩]
      dialed := s.dialed ++ [⟨θ.number, g, θ.userState, θ.workloadState⟩] }, ())
  | .answered => (θ, { s with handshakes := s.handshakes.filter (·.connection ≠ θ.number) }, i.outcome ())
  | .sendAuth _ => (θ, s, i.outcome ())
  | .relay g =>
    (θ, { s with
      relays := s.relays ++ [⟨θ.number, g.sessionId, g.userId, g.workloadId, θ.acquired, s.clock⟩] }, ())
  | .relayed => (θ, { s with relays := s.relays.filter (·.connection ≠ θ.number) }, i.outcome ())
  | .closeClient => (θ, s, i.outcome ())
  | .release g => (θ, i.redis.call s (s.release g, ()) ())
  | .elapse seconds => (θ, { s with clock := s.clock + seconds }, ())

/-! ### Programs -/

abbrev ConsoleProg (α : Type) := Prog Exn ConsoleOp α

variable (rt : Runtime) (settings : ConsoleSettings)

/-- `ConsoleSessionService.create`. -/
def createSession (principal : Principal) (workloadId : Uuid) : ConsoleProg (SessionResponse × String) := do
  let workload ← perform (.target principal workloadId)
  let proxy ← perform (.createProxy workload)
  let (sessionId, token) ← op .draw
  let grant : ConsoleGrant :=
    { sessionId := sessionId
      userId := principal.userId
      sessionEpoch := principal.sessionEpoch
      role := principal.role
      workloadId := workload.id
      pveKind := proxy.kind
      -- an empty text is stored for none
      pveUser := proxy.user.filter (· != "")
      pvePort := proxy.port
      pveTicket := proxy.ticket }
  perform (.hset grant token)
  perform (.expire sessionId settings.sessionTtl)
  perform (.commit
    { action := "CONSOLE_SESSION_CREATED"
      outcome := .succeeded
      actorUserId := some principal.userId
      actorRole := some principal.role
      organizationId := workload.organizationId
      workloadId := some workload.id
      operationId := none
      pveUpid := none
      resourceType := "workload"
      resourceId := some workload.id
      errorCode := none })
  return ({
    sessionId := sessionId
    consoleType := if workload.kind = .qemu then "NOVNC" else "TERMINAL"
    rfbPassword := if workload.kind = .qemu then some proxy.ticket else none }, token)

/-- `load_console_connection`, query by query. -/
def loadConnection (grant : ConsoleGrant) : ConsoleProg (Option ConsoleConnection) := do
  let user ← perform (.user grant.userId)
  match user.filter (fun u => u.isActive && u.sessionEpoch == grant.sessionEpoch && u.role == grant.role) with
  | none => return none
  | some user => do
    let workload ← perform (.workload user.principal grant.workloadId)
    match workload with
    | none => return none
    | some workload =>
      if rt.upper workload.powerState ≠ "RUNNING" then return none
      else if grant.pveKind ≠ workload.kind then return none
      else if grant.pveKind = .lxc ∧ grant.pveUser = none then return none
      else do
        if ← perform (.client workload) then
          return some ⟨workload, ⟨grant.pveKind, workload.node, workload.vmid, grant.pvePort, grant.pveTicket,
            grant.pveUser⟩⟩
        else return none

/-- `terminal_proxy_auth_frame`. -/
def terminalProxyAuthFrame (proxy : ProxyTicket) : Except Exn (Option String) :=
  match proxy.kind, proxy.user with
  | .qemu, _ => .ok none
  | .lxc, none => .error .valueError
  | .lxc, some user => .ok (some (user ++ ":" ++ proxy.ticket ++ "\n"))

def sendTerminalAuth : Option String → ConsoleProg Unit
  | some frame => perform (.sendAuth frame)
  | none => pure ()

/-- What follows the load of a connection, up to the end of its relay. -/
def serveConnection (grant : ConsoleGrant) (connection : ConsoleConnection) : ConsoleProg Unit := do
  perform .accept
  op (.dial grant)
  perform .answered
  sendTerminalAuth (← ofExcept (terminalProxyAuthFrame connection.proxy))
  op (.relay grant)
  perform .relayed

/-- The client is closed, if there is one. -/
def closeClient (client : Bool) : ConsoleProg Unit := if client then perform .closeClient else pure ()

/-- The end of `console_websocket`: its `finally`, and what its handlers leave. -/
def endConnection (grant : ConsoleGrant) (client : Bool) (ended : Except Exn Unit) : ConsoleProg Unit := do
  closeClient client
  op (.release grant)
  match ended with
  | .ok () => return ()
  | .error e => if e.isException then return () else raise e

/-- `console_websocket` once it has its slot. -/
def holdConnection (grant : ConsoleGrant) : ConsoleProg Unit := do
  match ← attempt (loadConnection rt grant) with
  | .error e => endConnection grant false (.error e)
  | .ok none => endConnection grant false (.ok ())
  | .ok (some connection) => do
    let ended ← attempt (serveConnection grant connection)
    endConnection grant true ended

/-- The items of a header. -/
def headerItems (header : String) : List (List Char) := 
  (header.toList.splitOn ',').map fun item => (strip (String.ofList item)).toList

/-- `protocol_token_from_header`. -/
def protocolTokenFromHeader (header : Option String) : Option String :=
  let start := "pvemaster.console.".toList
  (headerItems (header.getD "")).findSome? fun value =>
    if start.isPrefixOf value ∧ start.length < value.length then some (String.ofList (value.drop start.length))
    else none

/-- `rstrip("/")`. -/
def bareOrigin (origin : String) : String := String.ofList (origin.toList.reverse.dropWhile (· == '/')).reverse

structure WebsocketMessage where
  sessionId : Uuid
  origin : Option String
  protocols : Option String

/-- The token of a connection that is let through. -/
def WebsocketMessage.token? (m : WebsocketMessage) : Option String :=
  if bareOrigin (m.origin.getD "") ∈ settings.corsOrigins.map bareOrigin ∧
      "binary".toList ∈ headerItems (m.protocols.getD "") then
    protocolTokenFromHeader m.protocols
  else none

/-- `console_websocket`. -/
def consoleWebsocket (m : WebsocketMessage) : ConsoleProg Unit := do
  match m.token? settings with
  | none => return ()
  | some token => do
    let values ← op (.consume m.sessionId token)
    match parseGrant m.sessionId values with
    | none => return ()
    | some grant => do
      if ← op (.acquire grant settings.maxDuration) then holdConnection rt grant else return ()

/-! ### The machine -/

inductive ConsoleMessage where
  | create (principal : Principal) (workloadId : Uuid)
  | connect (m : WebsocketMessage)
  | wait (seconds : Nat)

/-- A process, under a number of its own. -/
structure ConsoleCall where
  number : Nat
  message : ConsoleMessage

def ConsoleMessage.program : ConsoleMessage → ConsoleProg Unit
  | .create principal workloadId => do
    let _ ← createSession settings principal workloadId
    return ()
  | .connect m => consoleWebsocket rt settings m
  | .wait seconds => op (.elapse seconds)

/-- The end of a process closes its upstream connection. -/
def Site.hangUp (s : Site) (connection : Nat) : Site :=
  { s with
    handshakes := s.handshakes.filter (·.connection ≠ connection)
    relays := s.relays.filter (·.connection ≠ connection) }

def consoleMachine (hash : String → String) :
    Machine Exn ConsoleOp ConsoleProcess Site ConsoleInput ConsoleCall where
  exec o i θ s := some (o.exec rt hash i θ s)
  start m := ({ number := m.number }, m.message.program rt settings)
  drop θ s := s.hangUp θ.number

end PveMaster.Console
