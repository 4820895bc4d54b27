import Mathlib.Data.List.Basic
import PveMaster.Foundation.Numbers

/-! What every service shares: identifiers, time, JSON values, errors, principals.

Identifiers are the numbers behind a UUID and instants are microseconds, the
resolution of a Python `datetime`. A value of JSON is what the modelled code can tell apart: a
list that is no list of texts, or an object inside an object, is none. An exception is an `AppError` with the status,
code and message the source gives it, or one of the other exceptions the
modelled code can meet. -/
namespace PveMaster

/-- The number behind a UUID. Nothing the modelled code does depends on the text of an identifier,
only on whether two of them are equal and, where a query orders by it, on which one is less. -/
abbrev Uuid := Nat

/-- Microseconds since some epoch, the resolution of a Python `datetime`. All times of the model
are in this unit, differences of times (leases, deadlines, periods) too. -/
abbrev Instant := Int

/-- The bytes of a hash. -/
abbrev Digest := List Nat

/-- One second, in the unit of `Instant`. -/
def second : Int := 1000000

/-! ### JSON columns -/

/-- A value of JSON as the modelled code can tell it apart. A list that is no list of texts, or an
object inside an object, is read nowhere, so there is none; numbers keep the difference between
Python's `int` and `float`. -/
inductive Json where
  | null
  | bool (b : Bool)
  | int (i : Int)
  | float (x : Double)
  | str (s : String)
  | strs (l : List String)
  deriving DecidableEq, Repr

/-- `isinstance(value, int)`, which a Python `bool` satisfies too: `True` counts as 1 and `False`
as 0, wherever the source goes on to compute with the value. -/
def Json.asInt? : Json → Option Int
  | .int i => some i
  | .bool b => some (if b then 1 else 0)
  | _ => none

/-- A number of Python. -/
inductive Number where
  | int (i : Int)
  | float (x : Double)

/-- `isinstance(value, (int, float))`. -/
def Json.number? : Json → Option Number
  | .float x => some (.float x)
  | value => value.asInt?.map .int

/-- `value == i`. Python compares numbers by their values, whatever their types, so `True == 1`
and `1.0 == 1`, while no text equals a number. -/
def Json.isInt (value : Json) (i : Int) : Bool :=
  match value with
  | .float x => x.isInt i
  | value => value.asInt? == some i

def Json.asStr? : Json → Option String
  | .str s => some s
  | _ => none

/-- A `dict` of the source: its entries in the order of insertion. Looking a key up finds its
first entry. -/
abbrev Dict := List (String × Json)

namespace Dict

/-- `d.get(k)`. -/
def get? : Dict → String → Option Json
  | [], _ => none
  | e :: rest, k => if e.1 = k then some e.2 else get? rest k

/-- `{**d, k: v}`: a key keeps its place. -/
def set : Dict → String → Json → Dict
  | [], k, v => [(k, v)]
  | e :: rest, k, v => if e.1 = k then (k, v) :: rest else e :: set rest k v

/-- `{**d, **e}`. -/
def merge (d e : Dict) : Dict := e.foldl (fun d p => set d p.1 p.2) d

@[simp] theorem get?_set_self (d : Dict) (k : String) (v : Json) : get? (set d k v) k = some v := by
  induction d with
  | nil => simp [set, get?]
  | cons e rest ih =>
    by_cases he : e.1 = k
    · simp [set, get?, he]
    · simp [set, get?, he, ih]

theorem get?_set_of_ne (d : Dict) {k k' : String} (v : Json) (h : k' ≠ k) :
    get? (set d k v) k' = get? d k' := by
  induction d with
  | nil => simp [set, get?, h.symm]
  | cons e rest ih =>
    by_cases he : e.1 = k
    · simp [set, get?, he, h.symm]
    · simp only [set, get?, he, if_false, ih]

end Dict

/-! ### Exceptions -/

/-- `AppError` of `app/core/errors.py`: what the API answers with, and what the runners store as
the code of a failure. -/
structure AppError where
  statusCode : Nat
  code : String
  message : String
  details : Dict := []
  deriving DecidableEq, Repr

/-- What the modelled code can raise. The kinds are those that an `except` clause of the source
tells apart, or whose raising rolls a session back. -/
inductive Exn where
  | app (e : AppError)
  /-- An `AppError` raised from a database error, after a rollback. -/
  | appFrom (e : AppError)
  /-- `sqlalchemy.exc.IntegrityError`: a unique or foreign key constraint. -/
  | integrity
  /-- `sqlalchemy.exc.DBAPIError`: a value that does not fit its column. -/
  | dataError
  /-- An attribute of an expired or deactivated session's object was read. -/
  | sessionState
  | assertion
  | attributeError
  | valueError
  | runtimeError
  /-- Any other `Exception`, raised by a library. -/
  | other
  /-- `asyncio.CancelledError`, which `except Exception` does not catch. -/
  | cancelled
  deriving DecidableEq, Repr

/-- `value in {i, str(i)}`. Looking a value up in a set hashes it first, so a list raises a
`TypeError` there; a number is found by its value and a text by its characters. -/
def Json.isVmid (i : Int) : Json → Except Exn Bool
  | .strs _ => .error .other
  | .str s => .ok (s == toString i)
  | value => .ok (value.isInt i)

/-- Whether `except Exception` catches it. The cancellation of a task is a `BaseException` and
passes such a handler. -/
def Exn.isException : Exn → Bool
  | .cancelled => false
  | _ => true

/-- What `except AppError` catches: the error itself, however it came to be raised. -/
def Exn.appError? : Exn → Option AppError
  | .app e | .appFrom e => some e
  | _ => none

/-- Whether the session was rolled back before it was raised, which expires what the
session had loaded. -/
def Exn.rollsBack : Exn → Bool
  | .appFrom _ | .integrity | .dataError => true
  | _ => false

/-- `if c: raise e`, the shape of nearly every check of the services. -/
def raiseIf (c : Prop) [Decidable c] (e : Exn) : Except Exn Unit := if c then .error e else .ok ()

/-- `if x is None: raise e`, with what is found otherwise. -/
def orRaise {α : Type} (x : Option α) (e : Exn) : Except Exn α :=
  match x with
  | some a => .ok a
  | none => .error e

/-- `except IntegrityError as exc: await session.rollback(); raise e from exc`. The rollback is
remembered in the exception (`appFrom`), since what the session had loaded is expired by it. -/
def onIntegrity {α : Type} (e : AppError) : Except Exn α → Except Exn α
  | .error .integrity => .error (.appFrom e)
  | x => x

@[simp] theorem onIntegrity_ok {α : Type} {x : Except Exn α} {e : AppError} {a : α} :
    onIntegrity e x = .ok a ↔ x = .ok a := by
  unfold onIntegrity
  split <;> simp_all

theorem bind_ok {α β : Type} {x : Except Exn α} {f : α → Except Exn β} {b : β} :
    (x >>= f) = .ok b ↔ ∃ a, x = .ok a ∧ f a = .ok b := by
  cases x with
  | error e => exact ⟨nofun, nofun⟩
  | ok a =>
    refine ⟨fun h => ⟨a, rfl, h⟩, fun ⟨a', h, hf⟩ => ?_⟩
    cases h
    exact hf

@[simp] theorem pure_ok {α : Type} {a b : α} : (pure a : Except Exn α) = .ok b ↔ a = b :=
  ⟨fun h => Except.ok.inj h, fun h => h ▸ rfl⟩

@[simp] theorem raiseIf_ok {c : Prop} [Decidable c] {e : Exn} {u : Unit} :
    raiseIf c e = .ok u ↔ ¬ c := by
  unfold raiseIf
  split <;> simp_all

@[simp] theorem orRaise_ok {α : Type} {x : Option α} {e : Exn} {a : α} :
    orRaise x e = .ok a ↔ x = some a := by
  cases x <;> simp [orRaise]

/-! ### Principals -/

inductive UserRole where
  | superAdmin
  | operator
  | customer
  deriving DecidableEq, Repr

/-- Who sends a request, as the access token and the user's row say at its authentication. It is
read once for each request and does not follow later changes of the user. -/
structure Principal where
  userId : Uuid
  email : String
  role : UserRole
  sessionEpoch : Int
  deriving DecidableEq, Repr

def forbidden : AppError := ⟨403, "FORBIDDEN", "You do not have permission to perform this action.", []⟩

/-- `require_service_role`: the role of the principal must be one of those the caller names, or
the request is refused with a 403. -/
def requireServiceRole (principal : Principal) (roles : List UserRole) : Except Exn Unit :=
  if principal.role ∈ roles then .ok () else .error (.app forbidden)

/-! ### Text -/

/-- The characters `str.strip` removes: those Python's `str.isspace` holds for, of all scripts. -/
def isSpace (c : Char) : Bool :=
  let n := c.toNat
  (9 ≤ n && n ≤ 13) || (28 ≤ n && n ≤ 32) || n == 0x85 || n == 0xA0 || n == 0x1680 ||
    (0x2000 ≤ n && n ≤ 0x200A) || n == 0x2028 || n == 0x2029 || n == 0x202F || n == 0x205F ||
    n == 0x3000

/-- `s.strip()`: without the spaces before and behind the text, those inside it kept. -/
def strip (s : String) : String :=
  String.ofList ((s.toList.dropWhile isSpace).reverse.dropWhile isSpace).reverse

/-- The zeros of the decimal digits of Unicode 15, one for each script; nine other digits follow
each of them. -/
def decimalZeros : List Nat :=
  [0x30, 0x660, 0x6F0, 0x7C0, 0x966, 0x9E6, 0xA66, 0xAE6, 0xB66, 0xBE6, 0xC66, 0xCE6, 0xD66, 0xDE6, 0xE50, 0xED0,
   0xF20, 0x1040, 0x1090, 0x17E0, 0x1810, 0x1946, 0x19D0, 0x1A80, 0x1A90, 0x1B50, 0x1BB0, 0x1C40, 0x1C50, 0xA620,
   0xA8D0, 0xA900, 0xA9D0, 0xA9F0, 0xAA50, 0xABF0, 0xFF10, 0x104A0, 0x10D30, 0x11066, 0x110F0, 0x11136, 0x111D0,
   0x112F0, 0x11450, 0x114D0, 0x11650, 0x116C0, 0x11730, 0x118E0, 0x11950, 0x11C50, 0x11D50, 0x11DA0, 0x11F50,
   0x16A60, 0x16AC0, 0x16B50, 0x1D7CE, 0x1D7D8, 0x1D7E2, 0x1D7EC, 0x1D7F6, 0x1E140, 0x1E2F0, 0x1E4F0, 0x1E950,
   0x1FBF0]

/-- The value of a decimal digit of any script, as `int` and the `\d` of a regular expression know
it. -/
def decimalDigit? (c : Char) : Option Nat :=
  (decimalZeros.find? fun first => first ≤ c.toNat && c.toNat < first + 10).map fun first => c.toNat - first

end PveMaster
