import PveMaster.Operations.System
import PveMaster.Foundation.Text

/-! The session of a request that may start a job.

A request reads in transactions of its own choosing: between two of its queries others
may commit. What it inserts it inserts in one transaction, whose constraints are checked
at its flush and at its commit (`Db.accept`, `Db.createRequest`). A service that locks the
row it works on before anything else is one action (`transact`). -/
namespace PveMaster

/-- The hashes of the API and the cipher of its initial passwords. -/
structure Api where
  /-- `sha256(text.encode()).digest()`. -/
  sha256 : List Char → Digest
  /-- `_key_hash`. -/
  keyHash : String → Digest
  /-- `ProvisioningSecretCipher.encrypt` of a password generated from random draws, for a
  cluster and a request: the ciphertext, its nonce and key version. -/
  encryptPassword : (Nat → Nat) → Uuid → Uuid → Bytes × Bytes × String

/-- Where the database refuses an insert: at the flush of the operation, at the commit, or
anywhere for another reason. -/
inductive Refusal where
  | flush
  | commit
  | database (e : Exn)
  deriving DecidableEq

/-! ### Inserts -/

/-- What an accepted operation inserts: its row, and the run that belongs to it. -/
structure Acceptance where
  operation : Operation
  backupRun : Option BackupRun := none
  restoreRun : Option RestoreRun := none
  audit : AuditLog

/-- `UniqueConstraint("requested_by_id", "idempotency_key_hash")` and
`uq_operations_active_workload`. -/
def Operation.clashes (o q : Operation) : Bool :=
  q.requestedById == o.requestedById && q.idempotencyKeyHash == o.idempotencyKeyHash ||
    q.workloadId == o.workloadId && q.status.incomplete && o.status.incomplete

/-- `UniqueConstraint("operation_id")` of the runs, and `uq_restore_runs_active_target`. -/
def BackupRun.clashes (r q : BackupRun) : Bool := q.operationId == r.operationId

def RestoreRun.clashes (r q : RestoreRun) : Bool :=
  q.operationId == r.operationId || q.clusterId == r.clusterId && q.targetVmid == r.targetVmid &&
    q.status.incomplete && r.status.incomplete

/-- The insert of a row, if there is one. -/
def insertRun {ρ κ : Type} [Keyed ρ κ] [DecidableEq κ] (clashes : ρ → ρ → Bool) (t : Table ρ) :
    Option ρ → Option (Table ρ)
  | none => some t
  | some r => insertUnless clashes t r

def Db.accept (db : Db) (a : Acceptance) : Except Refusal Db :=
  match insertUnless Operation.clashes db.operations a.operation with
  | none => .error .flush
  | some operations =>
    match insertRun BackupRun.clashes db.backupRuns a.backupRun,
      insertRun RestoreRun.clashes db.restoreRuns a.restoreRun with
    | some backupRuns, some restoreRuns =>
      .ok { db with
        operations := operations
        backupRuns := backupRuns
        restoreRuns := restoreRuns
        auditLogs := db.auditLogs ++ [a.audit] }
    | _, _ => .error .commit

/-- `UniqueConstraint("requested_by_id", "idempotency_key_hash")` and
`uq_provisioning_active_vmid`. -/
def ProvisioningRequest.clashes (r q : ProvisioningRequest) : Bool :=
  q.requestedById == r.requestedById && q.idempotencyKeyHash == r.idempotencyKeyHash ||
    q.targetClusterId == r.targetClusterId && r.targetVmid.isSome && q.targetVmid == r.targetVmid &&
      q.status != .failed && r.status != .failed

def Db.createRequest (db : Db) (r : ProvisioningRequest) (steps : List ProvisioningStep)
    (audit : AuditLog) : Except Refusal Db :=
  match insertUnless ProvisioningRequest.clashes db.requests r, db.steps.insertAll steps with
  | some requests, some steps =>
    .ok { db with requests := requests, steps := steps, auditLogs := db.auditLogs ++ [audit] }
  | _, _ => .error .commit

/-! ### The operations of a request -/

/-- The operation accepted under a user's key. -/
def operationOf (userId : Uuid) (keyHash : Digest) (db : Db) : Option Operation :=
  db.operations.first (fun o => o.requestedById == userId && o.idempotencyKeyHash == keyHash)

/-- The request accepted under a user's key. -/
def requestOf (userId : Uuid) (keyHash : Digest) (db : Db) : Option ProvisioningRequest :=
  db.requests.first (fun r => r.requestedById == userId && r.idempotencyKeyHash == keyHash)

/-- What a request is answered with: the job, and whether it is a new one. -/
structure JobAnswer where
  jobId : Uuid
  created : Bool
  deriving DecidableEq

inductive ServiceOp (ρ : Type) where
  | query (q : Db → ρ)
  /-- The run of an operation that has been found. -/
  | queryRun (q : Db → ρ)
  /-- The job accepted under a user's key. -/
  | lookup (userId : Uuid) (keyHash : Digest) (k : Option Operation → ρ)
  | lookupRequest (userId : Uuid) (keyHash : Digest) (k : Option ProvisioningRequest → ρ)
  | uuid4 (k : Uuid → ρ)
  /-- As many of them as are drawn in a row. -/
  | uuid4s (k : (Nat → Uuid) → ρ)
  /-- Decrypting the credential and building the client. -/
  | connect (k : Except AppError Unit → ρ)
  | call (r : Request) (k : Except Exn (Reply r) → ρ)
  /-- Random draws. -/
  | random (k : (Nat → Nat) → ρ)
  | accept (a : Acceptance) (k : Except Refusal Unit → ρ)
  | create (r : ProvisioningRequest) (steps : List ProvisioningStep) (audit : AuditLog)
      (k : Except Refusal Unit → ρ)
  | transact (t : Input → Instant → Db → Except Exn Db) (k : Except Exn Unit → ρ)
  | answer (a : Except Exn JobAnswer) (k : Unit → ρ)

abbrev ServiceProg (α : Type) := Prog Exn ServiceOp α

/-- The user a request is made by, and what it was answered with. -/
structure ServiceState where
  userId : Uuid
  answer : Option (Except Exn JobAnswer) := none

/-- A commit of what `f` makes of the database, unless the database refuses it. -/
def commitAs {ε ρ : Type} (i : Input) (refused : Exn → ε) (f : Db → Except ε Db) (w : World)
    (k : Except ε Unit → ρ) : World × ρ :=
  match i.reject with
  | some e => (w, k (.error (refused e)))
  | none =>
    match f w.db with
    | .ok db => (w.setDb db, k (.ok ()))
    | .error e => (w, k (.error e))

def ServiceOp.exec {ρ : Type} (o : ServiceOp ρ) (i : Input) (θ : ServiceState) (w : World) :
    ServiceState × World × ρ :=
  match o with
  | .query q | .queryRun q => (θ, w, q w.db)
  | .lookup userId keyHash k => (θ, w, k (operationOf userId keyHash w.db))
  | .lookupRequest userId keyHash k => (θ, w, k (requestOf userId keyHash w.db))
  | .uuid4 k => (θ, w, k (i.uuid 0))
  | .uuid4s k => (θ, w, k i.uuid)
  | .connect k => (θ, w, k i.client)
  | .call r k => (θ, w.logCall (.api θ.userId) i.answers r, k (i.answers r))
  | .random k => (θ, w, k i.random)
  | .accept a k => (θ, commitAs i .database (·.accept a) w k)
  | .create r steps audit k => (θ, commitAs i .database (·.createRequest r steps audit) w k)
  | .transact t k => (θ, commitAs i id (t i w.clock) w k)
  | .answer a k => ({ θ with answer := some a }, w, k ())

namespace ServiceProg
open Prog

variable {ρ : Type}

def query (q : Db → ρ) : ServiceProg ρ := op (.query q)
def queryRun (q : Db → ρ) : ServiceProg ρ := op (.queryRun q)
def lookup (userId : Uuid) (keyHash : Digest) : ServiceProg (Option Operation) :=
  op (.lookup userId keyHash id)
def uuid4 : ServiceProg Uuid := op (.uuid4 id)
def call (r : Request) : ServiceProg (Reply r) := perform (.call r id)

/-- The flush and the commit of an accepted operation, with what each is answered with when a
constraint refuses it. -/
def store (a : Acceptance) (flushError commitError : Exn) : ServiceProg JobAnswer := do
  match ← op (.accept a id) with
  | .ok () => return ⟨a.operation.id, true⟩
  | .error .flush => raise flushError
  | .error .commit => raise commitError
  | .error (.database e) => raise e

end ServiceProg

/-- An operation of the workload that has not ended. -/
def activeOperation (workloadId : Uuid) (db : Db) : Option Operation :=
  db.operations.first (fun o => o.workloadId == workloadId && o.status.incomplete)

/-- The columns of an operation that every request sets alike. -/
def queuedOperation (id : Uuid) (taskId : String) (type : OperationType) (principal : Principal)
    (sourceIp : String) (organizationId : Option Uuid) (clusterId workloadId : Uuid)
    (keyHash fingerprint : Digest) (result : Dict) : Operation :=
  .queued id taskId type principal.userId sourceIp organizationId clusterId workloadId keyHash fingerprint result

/-- The audit event of a request that has been accepted. -/
def attemptedAudit (principal : Principal) (o : Operation) (organizationId : Option Uuid)
    (action resourceType : String) (resourceId : Uuid) : AuditLog where
  action := action
  outcome := .attempted
  actorUserId := some principal.userId
  actorRole := some principal.role
  organizationId := organizationId
  workloadId := some o.workloadId
  operationId := some o.id
  pveUpid := none
  resourceType := resourceType
  resourceId := some resourceId
  errorCode := none

end PveMaster
