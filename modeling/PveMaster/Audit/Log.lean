import PveMaster.Audit.Redaction
import PveMaster.Foundation.Paging
import PveMaster.Foundation.RelyGuarantee
import PveMaster.Foundation.Table

/-! The audit log: its table with the trigger, the purge, and the pages that are read of it.

A transaction sees what was committed when a statement runs, and its own rows; what it does is seen by
others once it commits. The statements of any number of transactions interleave. -/
namespace PveMaster.Audit
open Prog Paging

/-! ### The table -/

/-- A row of `audit_logs`: a record with the key and the time it is given. -/
structure AuditLog where
  id : Uuid
  createdAt : Instant
  record : AuditRecord

instance : Keyed AuditLog Uuid := ⟨AuditLog.id⟩

/-- `TG_OP`. -/
inductive TgOp where
  | update
  | delete
  deriving DecidableEq

/-- `prevent_audit_log_mutation`, with `current_setting('app.audit_retention', true)`. -/
def preventAuditLogMutation (op : TgOp) (setting : Option String) : Except Exn Unit :=
  if op = .delete ∧ setting = some "on" then .ok () else .error .other

/-- A row that a transaction has deleted. -/
structure Deletion where
  id : Uuid
  createdAt : Instant
  deriving DecidableEq

def Deletion.of (a : AuditLog) : Deletion := ⟨a.id, a.createdAt⟩

def Deletion.hits (d : Deletion) (a : AuditLog) : Bool := d.id == a.id && d.createdAt == a.createdAt

/-- An open transaction. -/
structure Session where
  setting : Option String := none
  added : List AuditLog := []
  deleted : List Deletion := []

namespace Session

/-- The rows a statement finds. -/
def sees (t : Session) (logs : Table AuditLog) : List AuditLog :=
  logs.rows.filter (fun a => !t.deleted.any (·.hits a)) ++ t.added

/-- `SET LOCAL app.audit_retention = value`. -/
def setLocal (t : Session) (value : String) : Session := { t with setting := some value }

def insert (t : Session) (logs : Table AuditLog) (a : AuditLog) : Except Exn Session := do
  raiseIf ((t.sees logs).any (·.id == a.id)) .integrity
  return { t with added := t.added ++ [a] }

/-- The rows that satisfy `p` are gone for the transaction. -/
def without (t : Session) (logs : Table AuditLog) (p : AuditLog → Bool) : Session :=
  { t with
    added := t.added.filter (!p ·)
    deleted := t.deleted ++ ((t.sees logs).filter p).map Deletion.of }

/-- The trigger runs for every row that is hit, before anything is done to it. -/
def trigger (t : Session) (logs : Table AuditLog) (op : TgOp) (p : AuditLog → Bool) : Except Exn Unit :=
  if (t.sees logs).any p then preventAuditLogMutation op t.setting else .ok ()

def update (t : Session) (logs : Table AuditLog) (p : AuditLog → Bool) (f : AuditLog → AuditLog) : Except Exn Session := do
  t.trigger logs .update p
  let kept := t.without logs p
  return { kept with added := kept.added ++ ((t.sees logs).filter p).map f }

def delete (t : Session) (logs : Table AuditLog) (p : AuditLog → Bool) : Except Exn Session := do
  t.trigger logs .delete p
  return t.without logs p

/-- What is committed. -/
def commit (t : Session) (logs : Table AuditLog) : Except Exn (Table AuditLog) :=
  orRaise ((logs.restrict fun a => !t.deleted.any (·.hits a)).insertAll t.added) .integrity

end Session

/-! ### What is asked and answered -/

/-- The columns a response joins to a row. -/
structure WorkloadColumns where
  name : Option String
  vmid : Int
  kind : String
  node : String
  clusterName : String

/-- Users, by display name and address, and workloads. -/
structure Directory where
  actor : Uuid → Option (String × String)
  workload : Uuid → Option WorkloadColumns

structure AuditLogResponse where
  id : Uuid
  actorUserId : Option Uuid
  actorRole : Option UserRole
  actorDisplayName : Option String
  actorEmail : Option String
  organizationId : Option Uuid
  action : String
  resourceType : Option String
  resourceId : Option String
  workloadName : Option String
  workloadVmid : Option Int
  workloadKind : Option String
  workloadNode : Option String
  workloadClusterName : Option String
  sourceIp : Option String
  userAgent : Option String
  requestId : String
  before : Option AuditValue
  after : Option AuditValue
  result : String
  errorCode : Option String
  createdAt : Instant

/-- `_audit_response`. -/
def auditResponse (item : AuditLog) (actor : Option (String × String)) (workload : Option WorkloadColumns) :
    AuditLogResponse where
  id := item.id
  actorUserId := item.record.actorUserId
  actorRole := item.record.actorRole
  actorDisplayName := actor.map Prod.fst
  actorEmail := actor.map Prod.snd
  organizationId := item.record.organizationId
  action := item.record.action
  resourceType := item.record.resourceType
  resourceId := item.record.resourceId
  workloadName := workload.bind WorkloadColumns.name
  workloadVmid := workload.map WorkloadColumns.vmid
  workloadKind := workload.map WorkloadColumns.kind
  workloadNode := workload.map WorkloadColumns.node
  workloadClusterName := workload.map WorkloadColumns.clusterName
  sourceIp := item.record.sourceIp
  userAgent := item.record.userAgent
  requestId := item.record.requestId
  before := item.record.before
  after := item.record.after
  result := item.record.result
  errorCode := item.record.errorCode
  createdAt := item.createdAt

/-- `_audit_statement`: a row with what is joined to it. -/
def auditStatement (names : Directory) (item : AuditLog) : AuditLogResponse :=
  auditResponse item (item.record.actorUserId.bind names.actor) (item.record.workloadId.bind names.workload)

structure AuditLogListResponse where
  items : List AuditLogResponse
  total : Nat
  limit : Nat
  offset : Nat

/-- The filters of a search. An empty text is none. -/
structure AuditFilters where
  action : Option String := none
  actorUserId : Option Uuid := none
  organizationId : Option Uuid := none
  result : Option String := none

def AuditFilters.matches (f : AuditFilters) (a : AuditLog) : Bool :=
  (orText f.action none).all (· == a.record.action) && f.actorUserId.all (a.record.actorUserId == some ·) &&
    f.organizationId.all (a.record.organizationId == some ·) && (orText f.result none).all (· == a.record.result)

/-- The columns a search is sorted by. -/
def AuditLog.place (a : AuditLog) : Instant × Uuid := (a.createdAt, a.id)

/-- `ORDER BY created_at DESC, id DESC`. -/
abbrev Newer : Instant × Uuid → Instant × Uuid → Prop := Prod.Lex (· > ·) (· > ·)

def newestFirst (rows : List AuditLog) : List AuditLog := sorted Newer AuditLog.place rows

/-! ### Requests -/

inductive AuditOp (ρ : Type) where
  | now (k : Instant → ρ)
  | setLocal (value : String) (k : Unit → ρ)
  | insert (record : AuditRecord) (k : Except Exn Unit → ρ)
  | update (p : AuditLog → Bool) (f : AuditLog → AuditLog) (k : Except Exn Unit → ρ)
  | delete (p : AuditLog → Bool) (k : Except Exn Unit → ρ)
  | select (q : List AuditLog → Directory → ρ)
  | commit (k : Except Exn Unit → ρ)
  /-- A browser shows a page, after the ones before it. -/
  | display (filters : AuditFilters) (shown : List AuditLogResponse) (hasNext : Bool) (k : Unit → ρ)

abbrev AuditProg (α : Type) := Prog Exn AuditOp α

namespace AuditProg

def now : AuditProg Instant := op (.now id)
def setLocal (value : String) : AuditProg Unit := op (.setLocal value id)
def insert (record : AuditRecord) : AuditProg Unit := perform (.insert record id)
def update (p : AuditLog → Bool) (f : AuditLog → AuditLog) : AuditProg Unit := perform (.update p f id)
def delete (p : AuditLog → Bool) : AuditProg Unit := perform (.delete p id)
def select {α : Type} (q : List AuditLog → Directory → α) : AuditProg α := op (.select q)
def commit : AuditProg Unit := perform (.commit id)
def display (filters : AuditFilters) (shown : List AuditLogResponse) (hasNext : Bool) : AuditProg Unit :=
  op (.display filters shown hasNext id)

end AuditProg
open AuditProg

/-- What a request comes with. -/
structure Caller where
  principal : Principal
  context : RequestContext
  casefold : Char → List Char

def Caller.add (c : Caller) (e : AuditEvent) : AuditProg Unit := do
  insert (← ofExcept (addAuditEvent c.casefold c.context e))

/-- `str(u) if u else None`. -/
def uuidValue (u : Option Uuid) : AuditValue :=
  .scalar (match u with
    | some u => .str (String.ofList (Text.uuid u))
    | none => .none)

def textValue (s : Option String) : AuditValue :=
  .scalar (match s with
    | some s => .str s
    | none => .none)

/-- `audit_logs`. -/
def auditLogs (c : Caller) (filters : AuditFilters) (limit offset : Nat) : AuditProg AuditLogListResponse := do
  ofExcept (requireServiceRole c.principal [.superAdmin])
  let total ← select fun logs _ => (logs.filter filters.matches).length
  let items ← select fun logs names =>
    (page (newestFirst (logs.filter filters.matches)) limit offset).map (auditStatement names)
  let response : AuditLogListResponse := ⟨items, total, limit, offset⟩
  c.add {
    action := "AUDIT_LOG_SEARCH"
    outcome := "SUCCEEDED"
    requestId := none
    actorUserId := some c.principal.userId
    actorRole := some c.principal.role
    targetType := some "audit_log"
    after := some (.dict [
      ("filters", .dict [("action", textValue filters.action), ("actor_user_id", uuidValue filters.actorUserId),
        ("organization_id", uuidValue filters.organizationId), ("result", textValue filters.result)]),
      ("returned", .scalar (.int response.items.length))]) }
  commit
  return response

/-- `audit_log`. -/
def auditLog (c : Caller) (auditId : Uuid) : AuditProg AuditLogResponse := do
  ofExcept (requireServiceRole c.principal [.superAdmin])
  let row ← select fun logs names => (logs.find? (·.id == auditId)).map fun item => (item, auditStatement names item)
  let (item, response) ← ofExcept (orRaise row (.app ⟨404, "AUDIT_LOG_NOT_FOUND", "The audit log was not found.", []⟩))
  c.add {
    action := "AUDIT_LOG_VIEW"
    outcome := "SUCCEEDED"
    requestId := none
    actorUserId := some c.principal.userId
    actorRole := some c.principal.role
    targetType := some "audit_log"
    targetId := some (.uuid item.id) }
  commit
  return response

/-- `_purge_expired_audit_logs`. -/
def purgeExpiredAuditLogs (retentionDays : Nat) : AuditProg Unit := do
  setLocal "on"
  let clock ← now
  delete fun a => a.createdAt < clock - retentionDays * 86400 * second
  commit

/-- The pages of `AuditView`, one after the other until there is no next one. -/
def browse (c : Caller) (filters : AuditFilters) (limit : Nat) : Nat → Nat → List AuditLogResponse → AuditProg Unit
  | 0, _, _ => return ()
  | pages + 1, offset, before => do
    let response ← auditLogs c filters limit offset
    let shown := before ++ response.items
    let hasNext := decide (response.offset + response.items.length < response.total)
    display filters shown hasNext
    if hasNext then browse c filters limit pages (offset + limit) shown else return ()

/-- A statement of any other transaction. -/
inductive Statement where
  | insert (record : AuditRecord)
  | update (p : AuditLog → Bool) (f : AuditLog → AuditLog)
  | delete (p : AuditLog → Bool)

def Statement.program : Statement → AuditProg Unit
  | .insert record => AuditProg.insert record
  | .update p f => AuditProg.update p f
  | .delete p => AuditProg.delete p

def transaction : List Statement → AuditProg Unit
  | [] => commit
  | statement :: rest => do
    statement.program
    transaction rest

inductive AuditMessage where
  | transaction (statements : List Statement)
  | purge
  | auditLog (c : Caller) (auditId : Uuid)
  | browse (c : Caller) (filters : AuditFilters) (limit pages : Nat)

def AuditMessage.program (retentionDays : Nat) : AuditMessage → AuditProg Unit
  | .transaction statements => Audit.transaction statements
  | .purge => purgeExpiredAuditLogs retentionDays
  | .auditLog c auditId => do
    let _ ← Audit.auditLog c auditId
    return ()
  | .browse c filters limit pages => Audit.browse c filters limit pages 0 []

/-! ### The system -/

/-- What a browser has shown when it shows a page. `reads` are the rows of the searches so far as they were
counted and read, the last ones first. -/
structure Visit where
  filters : AuditFilters
  shown : List AuditLogResponse
  hasNext : Bool
  reads : List (List AuditLog)

structure AuditStore where
  logs : Table AuditLog
  names : Directory
  visits : List Visit

structure AuditProcess where
  session : Session := {}
  reads : List (List AuditLog) := []

/-- The time, and what a new row is given. -/
structure AuditInput where
  clock : Instant
  id : Uuid
  createdAt : Instant

/-- A statement of a transaction, which is rolled back when one fails. -/
def AuditProcess.after {ρ : Type} (θ : AuditProcess) (s : AuditStore) (r : Except Exn Session) (k : Except Exn Unit → ρ) :
    AuditProcess × AuditStore × ρ :=
  match r with
  | .ok t => ({ θ with session := t }, s, k (.ok ()))
  | .error e => ({ θ with session := {} }, s, k (.error e))

def auditMachine (retentionDays : Nat) : Machine Exn AuditOp AuditProcess AuditStore AuditInput AuditMessage where
  exec o i θ s := some <|
    match o with
    | .now k => (θ, s, k i.clock)
    | .setLocal value k => ({ θ with session := θ.session.setLocal value }, s, k ())
    | .insert record k => θ.after s (θ.session.insert s.logs ⟨i.id, i.createdAt, record⟩) k
    | .update p f k => θ.after s (θ.session.update s.logs p f) k
    | .delete p k => θ.after s (θ.session.delete s.logs p) k
    | .select q =>
      let rows := θ.session.sees s.logs
      ({ θ with reads := rows :: θ.reads }, s, q rows s.names)
    | .commit k =>
      match θ.session.commit s.logs with
      | .ok logs => ({ θ with session := {} }, { s with logs := logs }, k (.ok ()))
      | .error e => ({ θ with session := {} }, s, k (.error e))
    | .display filters shown hasNext k =>
      (θ, { s with visits := s.visits ++ [⟨filters, shown, hasNext, θ.reads⟩] }, k ())
  start m := ({}, m.program retentionDays)
  drop _ s := s

/-- No clock goes beyond `limit`. From outside, users and workloads change. -/
def auditRuns (limit : Instant) : Conditions Exn AuditOp AuditProcess AuditStore AuditInput AuditMessage where
  step _ _ i _ := i.clock ≤ limit
  env s s' := ∃ names, s' = { s with names := names }

end PveMaster.Audit
