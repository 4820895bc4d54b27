import PveMaster.Core
import PveMaster.Foundation.Documents
import PveMaster.Foundation.Text

/-! `sanitize_audit_value`, through which every audit record goes.

The function carries the key a value stands under, and forgets it inside a list. It is the
redaction of documents (`sanitizeAuditValue_eq`), whose keys are secret when, case-folded
and with `_` for `-`, they contain one of the sensitive parts. -/
namespace PveMaster.Audit
open Document (Step)

/-- What is neither a dictionary nor a list or tuple; `other` is an object of another type,
by its `str`. The bits of a float are kept as they are. -/
inductive Scalar where
  | none
  | bool (b : Bool)
  | int (i : Int)
  | float (bits : UInt64)
  | str (s : String)
  | other (text : String)
  deriving DecidableEq, Repr

abbrev AuditValue := Document String Scalar

/-- What is stored of it: an object of another type as its text. -/
def Scalar.stored : Scalar → Scalar
  | .other text => .str text
  | s => s

/-- `_MASK`. -/
def mask : AuditValue := .scalar (.str "[REDACTED]")

/-- `_SENSITIVE_PARTS`. -/
def sensitiveParts : List String :=
  ["password", "secret", "token", "authorization", "cookie", "private_key", "ca_bundle"]

section Code
-- `str.casefold` of a character, as Python's character database has it.
variable (casefold : Char → List Char)

/-- `key.casefold().replace("-", "_")`. -/
def normalizedKey (key : String) : List Char :=
  (key.toList.flatMap casefold).map fun c => if c = '-' then '_' else c

def isSensitive (key : String) : Bool :=
  sensitiveParts.any fun part => decide (part.toList <:+: normalizedKey casefold key)

mutual

/-- `sanitize_audit_value`. The keys of a dictionary are strings. -/
def sanitizeAuditValue (value : AuditValue) (key : String) : AuditValue :=
  if isSensitive casefold key then mask
  else
    match value with
    | .dict entries => .dict (sanitizeEntries entries)
    | .list items => .list (sanitizeItems items)
    | .tuple items => .list (sanitizeItems items)
    | .scalar s => .scalar s.stored

/-- The dictionary comprehension. -/
def sanitizeEntries : List (String × AuditValue) → List (String × AuditValue)
  | [] => []
  | (itemKey, item) :: rest => (itemKey, sanitizeAuditValue item itemKey) :: sanitizeEntries rest

/-- The list comprehension, whose items have no key. -/
def sanitizeItems : List AuditValue → List AuditValue
  | [] => []
  | item :: rest => sanitizeAuditValue item "" :: sanitizeItems rest

end

/-- `sanitize_audit_value(value)`. -/
def sanitized (value : AuditValue) : AuditValue := sanitizeAuditValue casefold value ""

end Code

/-! ### Redaction of documents -/

section Redaction
variable {casefold : Char → List Char}

theorem isSensitive_empty : isSensitive casefold "" = false := by
  have hnormal : normalizedKey casefold "" = [] := rfl
  unfold isSensitive
  rw [hnormal]
  decide

theorem sanitizeItems_eq (items : List AuditValue) :
    sanitizeItems casefold items = items.map fun item => sanitizeAuditValue casefold item "" := by
  induction items with
  | nil => rfl
  | cons item rest ih => rw [sanitizeItems, ih, List.map_cons]

theorem sanitizeEntries_eq (entries : List (String × AuditValue)) :
    sanitizeEntries casefold entries = entries.map fun e => (e.1, sanitizeAuditValue casefold e.2 e.1) := by
  induction entries with
  | nil => rfl
  | cons e rest ih =>
    obtain ⟨k, item⟩ := e
    rw [sanitizeEntries, ih, List.map_cons]

/-- **The function is a redaction**, of a value under its key. -/
theorem sanitizeAuditValue_eq (value : AuditValue) (key : String) : sanitizeAuditValue casefold value key =
    Document.redactEntry (isSensitive casefold) (.str "[REDACTED]") Scalar.stored key value := by
  induction value using Document.induction generalizing key with
  | scalar s =>
    rw [sanitizeAuditValue, Document.redactEntry, Document.redact_scalar]
    rfl
  | list items ih | tuple items ih =>
    have hitems : sanitizeItems casefold items =
        items.map (Document.redact (isSensitive casefold) (.str "[REDACTED]") Scalar.stored) := by
      rw [sanitizeItems_eq]
      refine List.map_congr_left fun item hitem => ?_
      rw [ih item hitem "", Document.redactEntry, isSensitive_empty]
      rfl
    simp only [sanitizeAuditValue, Document.redactEntry, Document.redact_list, Document.redact_tuple, hitems]
    rfl
  | dict entries ih =>
    have hentries : sanitizeEntries casefold entries = entries.map fun e =>
        (e.1, Document.redactEntry (isSensitive casefold) (.str "[REDACTED]") Scalar.stored e.1 e.2) := by
      rw [sanitizeEntries_eq]
      exact List.map_congr_left fun e he => by rw [ih e he e.1]
    simp only [sanitizeAuditValue, Document.redactEntry, Document.redact_dict, hentries]
    rfl

theorem sanitized_eq (value : AuditValue) :
    sanitized casefold value = Document.redact (isSensitive casefold) (.str "[REDACTED]") Scalar.stored value := by
  unfold sanitized
  rw [sanitizeAuditValue_eq, Document.redactEntry, isSensitive_empty]
  rfl

@[simp] theorem sanitized_scalar (s : Scalar) : sanitized casefold (.scalar s) = .scalar s.stored := by
  rw [sanitized_eq, Document.redact_scalar]

theorem Scalar.stored_stored (s : Scalar) : s.stored.stored = s.stored := by
  cases s <;> rfl

/-! ### What is kept and what is not -/

/-- A path that does not lead under a sensitive key. -/
def Open (casefold : Char → List Char) (path : List (Step String)) : Prop :=
  ∀ s ∈ path, s.hides (isSensitive casefold) = false

/-- A string, a number, a boolean or `None`. -/
def Scalar.isPlain : Scalar → Bool
  | .other _ => false
  | _ => true

/-- What the sanitized copy of a value shows of it. -/
structure Redacted (casefold : Char → List Char) (value : AuditValue) : Prop where
  /-- The entry of a sensitive key is the mask, at any depth, and has nothing inside. -/
  masked : ∀ path key below x, isSensitive casefold key = true →
    (sanitized casefold value).Reaches (path ++ .key key :: below) x → below = [] ∧ x = mask
  preserved : ∀ path s, Open casefold path → s.isPlain = true →
    value.Reaches path (.scalar s) → (sanitized casefold value).Reaches path (.scalar s)
  /-- Nothing else is shown. -/
  found : ∀ path s, Open casefold path → (sanitized casefold value).Reaches path (.scalar s) →
    ∃ t, value.Reaches path (.scalar t) ∧ s = t.stored
  lists : ∀ path items, Open casefold path → value.Reaches path (.list items) ∨ value.Reaches path (.tuple items) →
    (sanitized casefold value).Reaches path (.list (items.map (sanitized casefold)))
  dicts : ∀ path entries, Open casefold path → value.Reaches path (.dict entries) →
    ∃ entries', (sanitized casefold value).Reaches path (.dict entries') ∧ entries'.map Prod.fst = entries.map Prod.fst
  idempotent : sanitized casefold (sanitized casefold value) = sanitized casefold value
  /-- What stands under sensitive keys has no influence. -/
  independent : ∀ other, Document.Alike (isSensitive casefold) value other →
    sanitized casefold value = sanitized casefold other

theorem reaches_sanitized {value x : AuditValue} {path : List (Step String)} (hopen : Open casefold path) :
    (sanitized casefold value).Reaches path x ↔ ∃ c, value.Reaches path c ∧ x = sanitized casefold c := by
  simp only [sanitized_eq]
  exact Document.reaches_redact hopen

/-- **Audit redaction.** -/
theorem audit_redacted (casefold : Char → List Char) (value : AuditValue) : Redacted casefold value where
  masked path key below x hkey h := by
    rw [sanitized_eq] at h
    exact Document.reaches_secret hkey h
  preserved path s hopen hplain h := by
    refine (reaches_sanitized hopen).mpr ⟨_, h, ?_⟩
    cases s with
    | other text => cases hplain
    | _ => rw [sanitized_scalar]; rfl
  found path s hopen h := by
    obtain ⟨c, hc, hs⟩ := (reaches_sanitized hopen).mp h
    cases c with
    | scalar t =>
      rw [sanitized_scalar] at hs
      exact ⟨t, hc, Document.scalar.inj hs⟩
    | list items =>
      rw [sanitized_eq, Document.redact_list] at hs
      cases hs
    | tuple items =>
      rw [sanitized_eq, Document.redact_tuple] at hs
      cases hs
    | dict entries =>
      rw [sanitized_eq, Document.redact_dict] at hs
      cases hs
  lists path items hopen h := by
    have hitems : items.map (sanitized casefold) =
        items.map (Document.redact (isSensitive casefold) (.str "[REDACTED]") Scalar.stored) :=
      List.map_congr_left fun item _ => sanitized_eq item
    rcases h with h | h
    · exact (reaches_sanitized hopen).mpr ⟨_, h, by rw [sanitized_eq, Document.redact_list, hitems]⟩
    · exact (reaches_sanitized hopen).mpr ⟨_, h, by rw [sanitized_eq, Document.redact_tuple, hitems]⟩
  dicts path entries hopen h := by
    refine ⟨_, (reaches_sanitized hopen).mpr ⟨_, h, (sanitized_eq _).trans (Document.redact_dict entries) |>.symm⟩, ?_⟩
    rw [List.map_map]
    rfl
  idempotent := by
    simp only [sanitized_eq]
    exact Document.redact_redact Scalar.stored_stored value
  independent other h := by
    simp only [sanitized_eq]
    exact Document.redact_alike value other h

end Redaction

/-! ### Records -/

/-- What the middleware knows of the current request. -/
structure RequestContext where
  requestId : String
  sourceIp : Option String
  userAgent : Option String

inductive Target where
  | uuid (u : Uuid)
  | text (s : String)

/-- `str(target_id)`. -/
def Target.str : Target → String
  | .uuid u => String.ofList (Text.uuid u)
  | .text s => s

/-- The arguments of `add_audit_event`. -/
structure AuditEvent where
  action : String
  outcome : String
  requestId : Option String
  actorUserId : Option Uuid := none
  actorRole : Option UserRole := none
  organizationId : Option Uuid := none
  workloadId : Option Uuid := none
  operationId : Option Uuid := none
  sourceIp : Option String := none
  userAgent : Option String := none
  pveUpid : Option String := none
  targetType : Option String := none
  targetId : Option Target := none
  details : Option AuditValue := none
  before : Option AuditValue := none
  after : Option AuditValue := none
  errorCode : Option String := none

/-- The row that is added. -/
structure AuditRecord where
  action : String
  outcome : String
  actorUserId : Option Uuid
  actorRole : Option UserRole
  organizationId : Option Uuid
  workloadId : Option Uuid
  operationId : Option Uuid
  sourceIp : Option String
  userAgent : Option String
  pveUpid : Option String
  resourceType : Option String
  resourceId : Option String
  requestId : String
  before : Option AuditValue
  after : Option AuditValue
  result : String
  errorCode : Option String

/-- `isinstance(value, (dict, type(None)))`. -/
def isMapping : Option AuditValue → Bool
  | none => true
  | some (.dict _) => true
  | some _ => false

/-- `x or y` of texts. -/
def orText (x y : Option String) : Option String :=
  match x with
  | some s => if s = "" then y else some s
  | none => y

/-- `add_audit_event`: the row it adds. -/
def addAuditEvent (casefold : Char → List Char) (context : RequestContext) (e : AuditEvent) : Except Exn AuditRecord := do
  let safeBefore := e.before.map (sanitized casefold)
  let combinedAfter := if e.after.isSome then e.after else e.details
  let safeAfter := combinedAfter.map (sanitized casefold)
  raiseIf (¬ (isMapping safeBefore = true ∧ isMapping safeAfter = true)) .other
  let agent := String.ofList (((orText e.userAgent context.userAgent).getD "").toList.take 512)
  return {
    action := e.action
    outcome := e.outcome
    actorUserId := e.actorUserId
    actorRole := e.actorRole
    organizationId := e.organizationId
    workloadId := e.workloadId
    operationId := e.operationId
    sourceIp := orText e.sourceIp context.sourceIp
    userAgent := orText (some agent) none
    pveUpid := e.pveUpid
    resourceType := e.targetType
    resourceId := e.targetId.map Target.str
    requestId := (orText e.requestId none).getD context.requestId
    before := safeBefore
    after := safeAfter
    result := e.outcome
    errorCode := e.errorCode }

section Records
variable {casefold : Char → List Char} {context : RequestContext} {e : AuditEvent} {record : AuditRecord}

/-- A dictionary is sanitized to a dictionary, anything else to something else. -/
theorem isMapping_sanitized (value : Option AuditValue) : isMapping (value.map (sanitized casefold)) = isMapping value := by
  cases value with
  | none => rfl
  | some value =>
    rw [Option.map_some, sanitized_eq]
    cases value with
    | scalar s => rw [Document.redact_scalar]; rfl
    | list items => rw [Document.redact_list]; rfl
    | tuple items => rw [Document.redact_tuple]; rfl
    | dict entries => rw [Document.redact_dict]; rfl

/-- **An audit record** keeps sanitized copies of what it was given, and nothing else of it. -/
theorem addAuditEvent_sanitized (h : addAuditEvent casefold context e = .ok record) :
    record.before = e.before.map (sanitized casefold) ∧
      record.after = (e.after.or e.details).map (sanitized casefold) := by
  obtain ⟨_, -, hrecord⟩ := bind_ok.mp h
  cases hrecord
  refine ⟨rfl, ?_⟩
  cases he : e.after with
  | none => rfl
  | some after => rfl

/-- It is added unless a value is no mapping. -/
theorem addAuditEvent_ok (hbefore : isMapping e.before = true) (hafter : isMapping (e.after.or e.details) = true) :
    ∃ record, addAuditEvent casefold context e = .ok record := by
  have hcombined : (if e.after.isSome then e.after else e.details) = e.after.or e.details := by
    cases e.after <;> rfl
  unfold addAuditEvent
  simp only [isMapping_sanitized, hcombined, hbefore, hafter]
  exact ⟨_, rfl⟩

end Records

end PveMaster.Audit
