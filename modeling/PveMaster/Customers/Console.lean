import PveMaster.Customers.Portal
import PveMaster.Clusters.Inventory

/-! Console sessions.

A session is created for a workload the user may open, and leaves a grant in Redis; whoever
presents its token within its time connects. `load_console_connection` asks the same
question again, of the user's row as it is then. -/
namespace PveMaster.Console

/-- `ConsoleProxyTicket`, as Proxmox answers with it. -/
structure ProxyTicket where
  kind : WorkloadKind
  node : String
  vmid : Int
  port : Nat
  ticket : String
  user : Option String

/-- `ConsoleGrant`. -/
structure ConsoleGrant where
  sessionId : Uuid
  userId : Uuid
  sessionEpoch : Int
  role : UserRole
  workloadId : Uuid
  pveKind : WorkloadKind
  pveUser : Option String
  pvePort : Nat
  pveTicket : String

/-- `ConsoleConnection`. -/
structure ConsoleConnection where
  workload : Workload
  proxy : ProxyTicket

/-- What the creation of a session takes from outside: the calls of the user in this minute
and what Redis makes of the grant, whether the credential can be decrypted, the answer of
Proxmox, and the identifier that is drawn. -/
structure Surroundings where
  rate : Option Nat
  decrypts : Bool
  ticket : Except Exn ProxyTicket
  stored : Bool
  sessionId : Uuid
  sessionsPerMinute : Nat

/-- `console_type` and `rfb_password` of a `ConsoleSessionResponse`, besides the session. -/
structure SessionResponse where
  sessionId : Uuid
  consoleType : String
  rfbPassword : Option String

variable (rt : Runtime) (principal : Principal)

/-- `authorized_console_workload`. -/
def authorizedConsoleWorkload (workloadId : Uuid) (db : Db) : Except Exn Workload := do
  let present := (db.workloads.get? workloadId).filter (fun w => w.isPresent && !w.isTemplate)
  match principal.role with
  | .customer =>
    orRaise (present.filter (fun w => w.organizationId.isSome &&
      CustomerPortalService.membership principal w.organizationId db &&
      CustomerPortalService.activeOrganization w.organizationId db))
      (.app ⟨404, "VM_NOT_FOUND", "The workload was not found.", []⟩)
  | .superAdmin | .operator =>
    orRaise present (.app ⟨404, "WORKLOAD_NOT_FOUND", "The workload was not found.", []⟩)

/-- `build_console_client`, as far as it can fail. -/
def buildConsoleClient (decrypts : Bool) (w : Workload) (db : Db) : Bool :=
  (db.clusters.get? w.clusterId).any (·.isActive) &&
    (ClusterService.activeCredential db w.clusterId).isSome && decrypts

def sessionUnavailable : Exn :=
  .app ⟨503, "CONSOLE_SESSION_UNAVAILABLE", "A console session could not be created.", []⟩

/-- `_check_rate_limit`. -/
def checkRateLimit (s : Surroundings) : Except Exn Unit := do
  let count ← orRaise s.rate sessionUnavailable
  raiseIf (count > s.sessionsPerMinute)
    (.app ⟨429, "CONSOLE_RATE_LIMITED", "Too many console sessions were requested.", []⟩)

/-- `ConsoleSessionService.create` up to its call of Proxmox: the workload it opens. -/
def consoleTarget (workloadId : Uuid) (s : Surroundings) (db : Db) : Except Exn Workload := do
  let workload ← authorizedConsoleWorkload principal workloadId db
  raiseIf (rt.upper workload.powerState ≠ "RUNNING")
    (.app ⟨409, "CONSOLE_REQUIRES_RUNNING_GUEST",
      "The guest must be running before opening its console.", []⟩)
  checkRateLimit s
  raiseIf (buildConsoleClient s.decrypts workload db = false)
    (.app ⟨503, "CONSOLE_CLUSTER_UNAVAILABLE",
      "The Proxmox cluster is not available for console access.", []⟩)
  return workload

/-- The rest of it: the grant it leaves in Redis, and its answer. -/
def create (workloadId : Uuid) (s : Surroundings) (db : Db) : Except Exn (ConsoleGrant × SessionResponse) := do
  let workload ← consoleTarget rt principal workloadId s db
  let proxy ← s.ticket
  raiseIf (s.stored = false) sessionUnavailable
  return (
    { sessionId := s.sessionId
      userId := principal.userId
      sessionEpoch := principal.sessionEpoch
      role := principal.role
      workloadId := workload.id
      pveKind := proxy.kind
      -- an empty user is stored for none
      pveUser := proxy.user.filter (· != "")
      pvePort := proxy.port
      pveTicket := proxy.ticket },
    { sessionId := s.sessionId
      consoleType := if workload.kind = .qemu then "NOVNC" else "TERMINAL"
      rfbPassword := if workload.kind = .qemu then some proxy.ticket else none })

/-- The endpoint of the customers. -/
def createCustomerSession (workloadId : Uuid) (s : Surroundings) (db : Db) :
    Except Exn (ConsoleGrant × SessionResponse) := do
  requireServiceRole principal [.customer]
  create rt principal workloadId s db

end Console

/-- What a session knows of its user. -/
def User.principal (u : User) : Principal := ⟨u.id, u.email, u.role, u.sessionEpoch⟩

@[simp] theorem User.principal_userId (u : User) : u.principal.userId = u.id := rfl

namespace Console

/-- `load_console_connection`. -/
def loadConsoleConnection (rt : Runtime) (grant : ConsoleGrant) (decrypts : Bool) (db : Db) :
    Option ConsoleConnection := do
  let user ← (db.users.get? grant.userId).filter (fun u => u.isActive &&
    u.sessionEpoch == grant.sessionEpoch && u.role == grant.role)
  let workload ← (authorizedConsoleWorkload user.principal grant.workloadId db).toOption
  guard (rt.upper workload.powerState = "RUNNING")
  guard (grant.pveKind = workload.kind)
  guard (grant.pveKind = .lxc → grant.pveUser ≠ none)
  guard (buildConsoleClient decrypts workload db = true)
  return ⟨workload, ⟨grant.pveKind, workload.node, workload.vmid, grant.pvePort, grant.pveTicket, grant.pveUser⟩⟩

end PveMaster.Console
