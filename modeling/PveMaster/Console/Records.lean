import PveMaster.Customers.Console
import PveMaster.Foundation.Parsing

/-! The records of console sessions in Redis.

A session is created as a hash of texts, and read back from the list a script answers with. -/
namespace PveMaster

/-- `UserRole.value`. -/
def UserRole.value : UserRole → String
  | .superAdmin => "SUPER_ADMIN"
  | .operator => "OPERATOR"
  | .customer => "CUSTOMER"

/-- `UserRole(value)`. -/
def UserRole.ofValue (value : String) : Option UserRole :=
  [UserRole.superAdmin, .operator, .customer].find? (·.value == value)

@[simp] theorem UserRole.ofValue_value (role : UserRole) : ofValue role.value = some role := by
  cases role <;> decide

/-- The `kind` of a `ConsoleProxyTicket`. -/
def WorkloadKind.guestType : WorkloadKind → String
  | .qemu => "qemu"
  | .lxc => "lxc"

def WorkloadKind.ofGuestType (value : String) : Option WorkloadKind :=
  [WorkloadKind.qemu, .lxc].find? (·.guestType == value)

@[simp] theorem WorkloadKind.ofGuestType_guestType (kind : WorkloadKind) :
    ofGuestType kind.guestType = some kind := by
  cases kind <;> decide

namespace Console

/-! ### Writing -/

/-- The fields of a hash. -/
abbrev Fields := List (String × String)

def uuidText (u : Uuid) : String := String.ofList (Text.uuid u)

def intText (i : Int) : String := String.ofList (Text.integer i)

/-- The mapping of the `HSET`. -/
def sessionFields (tokenHash : String) (g : ConsoleGrant) : Fields :=
  [("token_hash", tokenHash), ("user_id", uuidText g.userId), ("session_epoch", intText g.sessionEpoch),
    ("role", g.role.value), ("workload_id", uuidText g.workloadId), ("pve_kind", g.pveKind.guestType),
    ("pve_user", g.pveUser.getD ""), ("pve_port", intText g.pvePort), ("pve_ticket", g.pveTicket)]

/-- `HGETALL`. -/
def hgetall (fields : Fields) : List String := fields.flatMap fun e => [e.1, e.2]

/-! ### Reading -/

/-- The dictionary made of a list of fields and values. -/
def payloadOf : List String → Fields
  | field :: value :: rest => (field, value) :: payloadOf rest
  | _ => []

/-- `int(value)` of a port. -/
def portOf (value : String) : Option Nat :=
  match Text.parseInteger value.toList with
  | some (.ofNat n) => some n
  | _ => none

/-- The grant `consume_console_grant` makes of the answer of the script. -/
def parseGrant (sessionId : Uuid) (values : List String) : Option ConsoleGrant := do
  let payload := payloadOf values
  let userId ← (← payload.lookup "user_id").toList |> Text.parseUuid
  let sessionEpoch ← (← payload.lookup "session_epoch").toList |> Text.parseInteger
  let role ← (← payload.lookup "role") |> UserRole.ofValue
  let workloadId ← (← payload.lookup "workload_id").toList |> Text.parseUuid
  let pveKind ← (← payload.lookup "pve_kind") |> WorkloadKind.ofGuestType
  -- an empty text is no user
  let pveUser := (payload.lookup "pve_user").filter (· != "")
  let pvePort ← (← payload.lookup "pve_port") |> portOf
  let pveTicket ← payload.lookup "pve_ticket"
  return ⟨sessionId, userId, sessionEpoch, role, workloadId, pveKind, pveUser, pvePort, pveTicket⟩

@[simp] theorem payloadOf_hgetall (fields : Fields) : payloadOf (hgetall fields) = fields := by
  induction fields with
  | nil => rfl
  | cons e rest ih =>
    show (e.1, e.2) :: payloadOf (hgetall rest) = _
    rw [ih]

theorem parseInteger_intText (i : Int) : Text.parseInteger (intText i).toList = some i := by
  unfold intText
  rw [String.toList_ofList, Text.parseInteger_integer]

@[simp] theorem portOf_intText (n : Nat) : portOf (intText n) = some n := by
  unfold portOf
  rw [parseInteger_intText]

theorem pveUser_getD {user : Option String} (h : user ≠ some "") :
    (some (user.getD "")).filter (· != "") = user := by
  cases user with
  | none => rfl
  | some text =>
    have hne : text ≠ "" := fun heq => h (congrArg some heq)
    simp [hne]

/-- The fields of a record, besides the hash of its token. -/
theorem lookup_sessionFields (tokenHash : String) (g : ConsoleGrant) :
    (sessionFields tokenHash g).lookup "user_id" = some (uuidText g.userId) ∧
      (sessionFields tokenHash g).lookup "session_epoch" = some (intText g.sessionEpoch) ∧
      (sessionFields tokenHash g).lookup "role" = some g.role.value ∧
      (sessionFields tokenHash g).lookup "workload_id" = some (uuidText g.workloadId) ∧
      (sessionFields tokenHash g).lookup "pve_kind" = some g.pveKind.guestType ∧
      (sessionFields tokenHash g).lookup "pve_user" = some (g.pveUser.getD "") ∧
      (sessionFields tokenHash g).lookup "pve_port" = some (intText g.pvePort) ∧
      (sessionFields tokenHash g).lookup "pve_ticket" = some g.pveTicket := by
  simp [sessionFields, List.lookup_cons]

/-- What is read of a record. -/
theorem parseGrant_sessionFields (sessionId : Uuid) (tokenHash : String) (g : ConsoleGrant)
    (huser : g.pveUser ≠ some "") :
    parseGrant sessionId (hgetall (sessionFields tokenHash g)) =
      (Text.parseUuid (uuidText g.userId).toList).bind fun userId =>
        (Text.parseUuid (uuidText g.workloadId).toList).map fun workloadId =>
          { g with sessionId := sessionId, userId := userId, workloadId := workloadId } := by
  unfold parseGrant
  simp only [payloadOf_hgetall]
  obtain ⟨huserId, hepoch, hrole, hworkload, hkind, hpveUser, hport, hticket⟩ := lookup_sessionFields tokenHash g
  rw [huserId, hepoch, hrole, hworkload, hkind, hpveUser, hport, hticket, pveUser_getD huser]
  simp only [Option.bind_eq_bind, Option.bind_some, parseInteger_intText, UserRole.ofValue_value,
    WorkloadKind.ofGuestType_guestType, portOf_intText]
  generalize Text.parseUuid (uuidText g.userId).toList = userId
  generalize Text.parseUuid (uuidText g.workloadId).toList = workloadId
  cases userId <;> cases workloadId <;> rfl

/-- **A grant is read as it was written**, or not at all. -/
theorem parseGrant_some {sessionId : Uuid} {tokenHash : String} {g g' : ConsoleGrant} (huser : g.pveUser ≠ some "")
    (h : parseGrant sessionId (hgetall (sessionFields tokenHash g)) = some g') :
    g' = { g with sessionId := sessionId } := by
  rw [parseGrant_sessionFields sessionId tokenHash g huser] at h
  obtain ⟨userId, huserId, h⟩ := Option.bind_eq_some_iff.mp h
  obtain ⟨workloadId, hworkloadId, rfl⟩ := Option.map_eq_some_iff.mp h
  have parsed {u v : Uuid} (h : Text.parseUuid (uuidText u).toList = some v) : v = u := by
    unfold uuidText at h
    rw [String.toList_ofList] at h
    exact Text.parseUuid_some h
  rw [parsed huserId, parsed hworkloadId]

/-- A grant of identifiers of 128 bits is read. -/
theorem parseGrant_of_lt (sessionId : Uuid) (tokenHash : String) {g : ConsoleGrant} (huser : g.pveUser ≠ some "")
    (hu : g.userId < 2 ^ 128) (hw : g.workloadId < 2 ^ 128) :
    parseGrant sessionId (hgetall (sessionFields tokenHash g)) = some { g with sessionId := sessionId } := by
  rw [parseGrant_sessionFields sessionId tokenHash g huser]
  unfold uuidText
  rw [String.toList_ofList, String.toList_ofList, Text.parseUuid_of_lt hu, Text.parseUuid_of_lt hw]
  rfl

end Console
end PveMaster
