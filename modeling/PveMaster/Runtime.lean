import PveMaster.Proxmox
import PveMaster.Ipam.Service

/-! What the runners share: settings, the clock, the state around them, and the
inputs of one action.

Durations are microseconds. `str`, `upper` and `lower` are Python's,
`backupTransferBytes` reads a task log, and `decryptPassword` is the cipher of the
initial passwords; they are kept abstract. -/
namespace PveMaster

/-- The settings the runners read, in microseconds where they are times. The last three fields are
the bounds `Settings` of `app/core/config.py` validates, so every value of this type is one the
program can be started with. -/
structure Settings where
  operationLease : Int
  pveConnectTimeout : Int
  pveReadTimeout : Int
  pveTaskPollInterval : Int
  pveTaskTimeout : Int
  pveTaskMaxPollAttempts : Nat
  pveActionMaxAttempts : Nat
  leaseRange : 10 * second ≤ operationLease ∧ operationLease ≤ 600 * second
  timeouts : 0 < pveConnectTimeout ∧ 0 < pveReadTimeout ∧ 0 < pveTaskPollInterval
  attempts : 1 ≤ pveTaskMaxPollAttempts ∧ 1 ≤ pveActionMaxAttempts

/-- The defaults of `Settings`. -/
def defaultSettings : Settings where
  operationLease := 60 * second
  pveConnectTimeout := 5 * second
  pveReadTimeout := 15 * second
  pveTaskPollInterval := 2 * second
  pveTaskTimeout := 300 * second
  pveTaskMaxPollAttempts := 150
  pveActionMaxAttempts := 3
  leaseRange := by decide
  timeouts := by decide
  attempts := by decide

/-- What the modelled code uses and the model does not define: the settings, and functions of
Python or of a library whose results no proof looks into, beyond what a theorem assumes of them by
name. -/
structure Runtime where
  settings : Settings
  str : Json → String
  upper : String → String
  lower : String → String
  backupTransferBytes : List Dict → Except Exn (Option Int)
  /-- `ProvisioningSecretCipher.decrypt` of a ciphertext, its nonce and key version, for a
  cluster and a request. -/
  decryptPassword : Bytes → Bytes → String → Uuid → Uuid → Except Exn String

/-- Python on ASCII texts without quotes, a task log that says nothing of bytes, and a cipher that
leaves texts readable. It behaves as the real one does on the inputs of the fixed runs, which are
evaluated with it. -/
def asciiRuntime : Runtime where
  settings := defaultSettings
  str
    | .null => "None"
    | .bool b => if b then "True" else "False"
    | .int i => toString i
    | .float x => String.ofList (x.text "inf".toList "nan".toList)
    | .str s => s
    | .strs l => "[" ++ ", ".intercalate (l.map (fun s => "'" ++ s ++ "'")) ++ "]"
  upper s := String.ofList (s.toList.map Char.toUpper)
  lower s := String.ofList (s.toList.map Char.toLower)
  backupTransferBytes _ := .ok none
  decryptPassword ciphertext _ _ _ _ :=
    .ok (String.ofList (ciphertext.map (fun b => Char.ofNat b.toNat)))

/-- `_lease_deadline`: a lease lasts at least as long as one request to Proxmox, with its
timeouts, the wait before it and five seconds to spare, whatever the configured lease is. -/
def Settings.leaseDeadline (settings : Settings) (now : Instant) : Instant :=
  let requestWindow := settings.pveConnectTimeout + settings.pveReadTimeout +
    settings.pveTaskPollInterval + 5 * second
  now + max settings.operationLease requestWindow

/-- `str(d.get(key, default))`. -/
def Runtime.strOf (rt : Runtime) (d : Dict) (key default : String) : String :=
  rt.str ((d.get? key).getD (.str default))

/-- Who made a call to Proxmox. The model writes it beside the call, so that theorems can speak of
the calls made for one operation or one request; the program itself keeps no such record. -/
inductive Caller where
  | operation (id : Uuid)
  | provisioning (requestId : Uuid)
  /-- A request of the API, by its user. -/
  | api (userId : Uuid)
  deriving DecidableEq

/-- A call made to Proxmox and what it was answered with. -/
structure Called where
  caller : Caller
  request : Request
  answer : Except Exn (Reply request)

/-- What everybody shares: the committed database, the clock, the calls made to Proxmox, newest
last, and the advisory locks, each with the transaction that owns it. -/
structure World where
  db : Db
  clock : Instant
  calls : List Called
  locks : List (Int × Uuid) := []

namespace World

def setDb (w : World) (db : Db) : World := { w with db := db }

@[simp] theorem setDb_db (w : World) (db : Db) : (w.setDb db).db = db := rfl
@[simp] theorem setDb_clock (w : World) (db : Db) : (w.setDb db).clock = w.clock := rfl
@[simp] theorem setDb_calls (w : World) (db : Db) : (w.setDb db).calls = w.calls := rfl

def logCall (w : World) (caller : Caller) (answers : Answers) (r : Request) : World :=
  { w with calls := w.calls ++ [⟨caller, r, answers r⟩] }

@[simp] theorem logCall_db (w : World) (caller : Caller) (answers : Answers) (r : Request) :
    (w.logCall caller answers r).db = w.db := rfl
@[simp] theorem logCall_clock (w : World) (caller : Caller) (answers : Answers) (r : Request) :
    (w.logCall caller answers r).clock = w.clock := rfl

end World

/-- What an action takes from outside: Proxmox's answers, `uuid4` and random draws, what building
a client ends in, and a database error that makes its commit fail. A theorem about every input is
about every behaviour of these. -/
structure Input where
  answers : Answers
  uuid : Nat → Uuid
  random : Nat → Nat
  client : Except AppError Unit
  reject : Option Exn

def Input.draws (i : Input) (w : World) : Draws := ⟨w.clock, w.clock, i.uuid, i.random⟩

end PveMaster
