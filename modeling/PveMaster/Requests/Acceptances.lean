import PveMaster.Requests.System

/-! What the requests insert.

Whatever a request reads and is answered, the operation it inserts is `QUEUED` and comes with the
run its type calls for, and a provisioning request comes with all its steps, none of them begun.
The requests are programs, so this is said of each operation they may perform (`Sound`); what
holds of an insert that is sound then holds of every request of the system. -/
namespace PveMaster.Acceptances
open Prog ServiceProg

/-- An operation and the run that belongs to it, as the request functions insert them. -/
structure WellFormed (a : Acceptance) : Prop where
  queued : a.operation.status = .queued
  backup : ∀ r, a.backupRun = some r → a.operation.operationType = .workloadBackup ∧
    r.operationId = a.operation.id ∧ r.status = .queued
  restore : ∀ r, a.restoreRun = some r → a.operation.operationType = .workloadRestore ∧
    r.operationId = a.operation.id ∧ r.status = .queued ∧ r.clusterId = a.operation.clusterId
  backedUp : a.operation.operationType = .workloadBackup → a.backupRun.isSome = true
  restored : a.operation.operationType = .workloadRestore → a.restoreRun.isSome = true

/-- The acceptance of an operation without a run. -/
theorem wellFormed_plain {o : Operation} {audit : AuditLog} (hq : o.status = .queued)
    (hb : o.operationType ≠ .workloadBackup) (hr : o.operationType ≠ .workloadRestore) :
    WellFormed { operation := o, audit := audit } where
  queued := hq
  backup _ h := by cases h
  restore _ h := by cases h
  backedUp h := absurd h hb
  restored h := absurd h hr

/-- A provisioning request nobody has gone on with. -/
structure Untouched (r : ProvisioningRequest) : Prop where
  status : r.status = .queued
  cloneSubmitted : r.cloneSubmitted = false
  ipAddressId : r.ipAddressId = none
  workloadId : r.workloadId = none
  leaseExpiresAt : r.leaseExpiresAt = none

/-- A provisioning request as `create_request` inserts it under a key. -/
structure Submitted (api : Api) (userId : Uuid) (key : String)
    (payload : ProvisioningService.RequestCreate) (r : ProvisioningRequest) : Prop
    extends Untouched r where
  user : r.requestedById = userId
  key : r.idempotencyKeyHash = api.keyHash key
  fingerprint : r.requestFingerprint = api.sha256 (ProvisioningService.payloadText payload)

/-- What writes nothing is allowed: reads, draws, and the answer. -/
def Quiet (P : {ρ : Type} → ServiceOp ρ → Prop) : Prop :=
  ∀ {ρ : Type} (o : ServiceOp ρ), o.accepted = none → o.created = none → o.transaction = none → P o

/-- So is a well-formed operation with its run, in one commit. -/
structure Accepting (P : {ρ : Type} → ServiceOp ρ → Prop) : Prop where
  quiet : Quiet P
  accept : ∀ {ρ : Type} (a : Acceptance) (k : Except Refusal Unit → ρ), WellFormed a → P (.accept a k)

/-- And a provisioning request with its steps, which nobody has gone on with. -/
structure Sound (P : {ρ : Type} → ServiceOp ρ → Prop) : Prop extends Accepting P where
  create : ∀ {ρ : Type} (r : ProvisioningRequest) (ids : Nat → Uuid) (audit : AuditLog)
    (k : Except Refusal Unit → ρ), Untouched r →
      P (.create r (ProvisioningService.pendingSteps r.id ids) audit k)

section Programs
variable {P : {ρ : Type} → ServiceOp ρ → Prop} {α ρ : Type}

theorem only_quiet (h : Quiet P) {o : ServiceOp ρ} (ha : o.accepted = none) (hc : o.created = none)
    (ht : o.transaction = none) : (op o : ServiceProg ρ).Only P := only_op (h o ha hc ht)

theorem only_query (h : Quiet P) (q : Db → ρ) : (query q).Only P := only_quiet h rfl rfl rfl

theorem only_queryRun (h : Quiet P) (q : Db → ρ) : (queryRun q).Only P := only_quiet h rfl rfl rfl

theorem only_lookup (h : Quiet P) (userId : Uuid) (keyHash : Digest) :
    (lookup userId keyHash).Only P := only_quiet h rfl rfl rfl

theorem only_uuid4 (h : Quiet P) : uuid4.Only P := only_quiet h rfl rfl rfl

theorem only_call (h : Quiet P) (r : Request) : (call r).Only P :=
  only_perform (h _ rfl rfl rfl)

theorem only_store (h : Accepting P) {a : Acceptance} (ha : WellFormed a) (flushError commitError : Exn) :
    (store a flushError commitError).Only P := by
  refine only_bind (only_op (h.accept a id ha)) fun answer => ?_
  split <;> exact only_done

variable (rt : Runtime) (api : Api) (principal : Principal) (sourceIp key : String)

theorem only_power (h : Accepting P) (workloadId : Uuid) (action : PowerAction) (reason : Option String) :
    (OperationService.requestPowerAction rt api principal sourceIp workloadId action key reason).Only
      P := by
  refine only_bind only_done fun _ => only_bind (only_query h.quiet _) fun workload => ?_
  split
  · exact only_done
  split
  · exact only_done
  refine only_bind (only_lookup h.quiet _ _) fun existing => ?_
  split
  · split <;> exact only_done
  refine only_bind (only_query h.quiet _) fun conflict => ?_
  split
  · exact only_done
  refine only_bind (only_uuid4 h.quiet) fun id => only_bind (only_uuid4 h.quiet) fun taskId => ?_
  exact only_store h (wellFormed_plain rfl (fun h => by cases h) fun h => by cases h) _ _

theorem only_admin (h : Accepting P) (vmId : Uuid) (payload : OperationService.AdminPayload) :
    (OperationService.requestAdminAction rt api principal sourceIp vmId payload key).Only P := by
  refine only_bind only_done fun _ => only_bind (only_query h.quiet _) fun workload => ?_
  split
  · exact only_done
  refine only_bind only_done fun _ => only_bind (only_lookup h.quiet _ _) fun existing => ?_
  split
  · split <;> exact only_done
  refine only_bind (only_query h.quiet _) fun conflict => ?_
  split
  · exact only_done
  refine only_bind (only_uuid4 h.quiet) fun id => only_bind (only_uuid4 h.quiet) fun taskId => ?_
  cases payload with
  | spec => exact only_store h (wellFormed_plain rfl (fun h => by cases h) fun h => by cases h) _ _
  | delete => exact only_store h (wellFormed_plain rfl (fun h => by cases h) fun h => by cases h) _ _

theorem only_customerPower (h : Accepting P) (vmId : Uuid) (action : PowerAction)
    (reason : Option String) (confirmForced : Bool) :
    (CustomerPortalService.requestPowerAction api principal sourceIp vmId action key reason
      confirmForced).Only P := by
  refine only_bind only_done fun _ => ?_
  split
  · exact only_done
  refine only_bind (only_query h.quiet _) fun workload => ?_
  split
  · exact only_done
  split
  · exact only_done
  refine only_bind (only_lookup h.quiet _ _) fun existing => ?_
  split
  · split
    · exact only_done
    · split <;> exact only_done
  refine only_bind (only_query h.quiet _) fun conflict => ?_
  split
  · exact only_done
  refine only_bind (only_uuid4 h.quiet) fun id => only_bind (only_uuid4 h.quiet) fun taskId => ?_
  exact only_store h (wellFormed_plain rfl (fun h => by cases h) fun h => by cases h) _ _

theorem only_backup (h : Accepting P) (workloadId : Uuid) (payload : BackupService.BackupRequest) :
    (BackupService.requestBackup api principal sourceIp workloadId payload key).Only P := by
  refine only_bind only_done fun _ => only_bind (only_query h.quiet _) fun workload => ?_
  split
  · exact only_done
  refine only_bind (only_query h.quiet _) fun target => ?_
  split
  · exact only_done
  split
  · exact only_done
  refine only_bind (only_lookup h.quiet _ _) fun existing => ?_
  split
  · split
    · exact only_done
    · refine only_bind (only_queryRun h.quiet _) fun run => ?_
      split <;> exact only_done
  refine only_bind (only_query h.quiet _) fun conflict => ?_
  split
  · exact only_done
  refine only_bind (only_uuid4 h.quiet) fun id => only_bind (only_uuid4 h.quiet) fun taskId => ?_
  refine only_bind (only_uuid4 h.quiet) fun runId => only_store h ⟨rfl, ?_, ?_, ?_, ?_⟩ _ _
  · intro r hr
    cases hr
    exact ⟨rfl, rfl, rfl⟩
  · intro r hr
    cases hr
  · exact fun _ => rfl
  · intro htype
    cases htype

theorem only_openClient (h : Quiet P) (cluster : Cluster) : (BackupService.openClient cluster).Only P := by
  refine only_bind (only_query h _) fun credential => ?_
  split
  · exact only_done
  · exact only_bind (only_quiet h rfl rfl rfl) fun _ => only_done

theorem only_checkTarget (h : Quiet P) (cluster : Cluster) (payload : BackupService.RestoreRequest) :
    (BackupService.checkTarget rt cluster payload).Only P := by
  refine only_bind (only_query h _) fun workload => ?_
  split
  · exact only_done
  refine only_bind (only_openClient h cluster) fun _ => only_bind (only_call h _) fun nodes => ?_
  split
  · refine only_bind (only_call h _) fun guests => only_bind only_done fun taken => ?_
    split <;> exact only_done
  · exact only_done

theorem only_restore (h : Accepting P) (runId : Uuid) (payload : BackupService.RestoreRequest) :
    (BackupService.requestRestore rt api principal sourceIp runId payload key).Only P := by
  refine only_bind only_done fun _ => only_bind (only_query h.quiet _) fun source => ?_
  split
  · exact only_done
  split
  · exact only_done
  split
  · exact only_done
  refine only_bind (only_lookup h.quiet _ _) fun existing => ?_
  split
  · split
    · exact only_done
    · refine only_bind (only_queryRun h.quiet _) fun run => ?_
      split <;> exact only_done
  refine only_bind (only_checkTarget rt h.quiet _ payload) fun _ => ?_
  refine only_bind (only_uuid4 h.quiet) fun id => only_bind (only_uuid4 h.quiet) fun taskId => ?_
  refine only_bind (only_uuid4 h.quiet) fun restoreId => only_store h ⟨rfl, ?_, ?_, ?_, ?_⟩ _ _
  · intro r hr
    cases hr
  · intro r hr
    cases hr
    exact ⟨rfl, rfl, rfl, rfl⟩
  · intro htype
    cases htype
  · exact fun _ => rfl

theorem only_validateTarget (h : Quiet P) (payload : ProvisioningService.RequestCreate)
    (product : Product) : (ProvisioningService.validateTarget payload product).Only P := by
  unfold ProvisioningService.validateTarget
  split
  · exact only_bind (only_query h _) fun node => only_bind only_done fun _ => only_done
  · exact only_done

theorem only_provision (h : Quiet P) (payload : ProvisioningService.RequestCreate)
    (hcreate : ∀ {ρ : Type} (r : ProvisioningRequest) (ids : Nat → Uuid) (audit : AuditLog)
      (k : Except Refusal Unit → ρ), Submitted api principal.userId key payload r →
        P (.create r (ProvisioningService.pendingSteps r.id ids) audit k)) :
    (ProvisioningService.createRequest rt api principal payload key).Only P := by
  refine only_bind only_done fun _ => only_bind (only_quiet h rfl rfl rfl) fun existing => ?_
  split
  · split <;> exact only_done
  have references : (ProvisioningService.validateReferences payload).Only P :=
    only_bind (only_query h _) fun _ => only_bind (only_query h _) fun _ =>
      only_bind (only_query h _) fun _ => only_bind (only_query h _) fun _ =>
        only_bind (only_query h _) fun _ => only_bind (only_query h _) fun _ => only_done
  refine only_bind references fun refs => only_bind (only_validateTarget h payload refs.product)
    fun _ => ?_
  refine only_bind (only_uuid4 h) fun taskId => only_bind (only_uuid4 h) fun requestId => ?_
  refine only_bind (only_quiet h rfl rfl rfl) fun draws => ?_
  refine only_bind (only_quiet h rfl rfl rfl) fun ids => ?_
  refine only_bind (only_op (hcreate _ ids _ id ⟨⟨rfl, rfl, rfl, rfl, rfl⟩, rfl, rfl, rfl⟩)) fun answer => ?_
  split <;> exact only_done

/-- **Every job request** inserts what is well formed. -/
theorem only_job (h : Sound P) (r : JobRequest) : (r.program rt api).Only P := by
  unfold JobRequest.program
  cases r.call with
  | power workloadId action reason =>
    exact only_power rt api r.principal r.sourceIp r.idempotencyKey h.toAccepting workloadId action reason
  | admin vmId payload =>
    exact only_admin rt api r.principal r.sourceIp r.idempotencyKey h.toAccepting vmId payload
  | backup workloadId payload =>
    exact only_backup api r.principal r.sourceIp r.idempotencyKey h.toAccepting workloadId payload
  | restore backupRunId payload =>
    exact only_restore rt api r.principal r.sourceIp r.idempotencyKey h.toAccepting backupRunId payload
  | customerPower vmId action reason confirmForced =>
    exact only_customerPower api r.principal r.sourceIp r.idempotencyKey h.toAccepting vmId action reason
      confirmForced
  | provision payload =>
    exact only_provision rt api r.principal r.idempotencyKey h.quiet payload fun q ids audit k hq =>
      h.create q ids audit k hq.toUntouched

/-- The transaction of a request that changes who owns a workload. It inserts no operation, so it
is named apart from what is. -/
inductive OwnershipChange : ServiceMessage → (Input → Instant → Db → Except Exn Db) → Prop
  | assigned (principal : Principal) (workloadId organizationId : Uuid) :
      OwnershipChange (.assign principal workloadId organizationId)
        (WorkloadService.assigned principal workloadId organizationId)
  | unassigned (principal : Principal) (workloadId : Uuid) :
      OwnershipChange (.unassign principal workloadId)
        (WorkloadService.unassigned principal workloadId)

/-- **Every request** of the system, with the changes of ownership. -/
theorem only_service (h : Sound P) (m : ServiceMessage) (hown : ∀ {ρ : Type} t
    (k : Except Exn Unit → ρ), OwnershipChange m t → P (.transact t k)) :
    (m.program rt api).Only P := by
  cases m with
  | job r =>
    exact only_bind (only_attempt (only_job rt api h r)) fun answer => only_quiet h.quiet rfl rfl rfl
  | assign principal workloadId organizationId =>
    exact only_bind only_done fun _ => only_perform (hown _ _ (.assigned principal workloadId _))
  | unassign principal workloadId =>
    exact only_bind only_done fun _ => only_perform (hown _ _ (.unassigned principal workloadId))

end Programs

/-! ### What a step of a request commits -/

/-- Every insert is well formed, and every other transaction changes an owner. -/
structure Orderly (m : ServiceMessage) {ρ : Type} (o : ServiceOp ρ) : Prop where
  accepted : ∀ a, o.accepted = some a → WellFormed a
  transacted : ∀ t, o.transaction = some t → OwnershipChange m t
  created : ∀ r steps audit, o.created = some (r, steps, audit) →
    Untouched r ∧ ∃ ids, steps = ProvisioningService.pendingSteps r.id ids

theorem orderly_quiet {m : ServiceMessage} {ρ : Type} {o : ServiceOp ρ} (ha : o.accepted = none) (hc : o.created = none)
    (ht : o.transaction = none) : Orderly m o where
  accepted _ h := by rw [ha] at h; cases h
  transacted _ h := by rw [ht] at h; cases h
  created _ _ _ h := by rw [hc] at h; cases h

theorem sound_orderly (m : ServiceMessage) : Sound (Orderly m) where
  quiet _ ha hc ht := orderly_quiet ha hc ht
  accept a k hw :=
    { accepted := fun _ h => by cases h; exact hw
      transacted := fun _ h => by cases h
      created := fun _ _ _ h => by cases h }
  create r ids audit k hq :=
    { accepted := fun _ h => by cases h
      transacted := fun _ h => by cases h
      created := fun _ _ _ h => by
        cases h
        exact ⟨hq, ids, rfl⟩ }

theorem orderly_service (rt : Runtime) (api : Api) (m : ServiceMessage) :
    (m.program rt api).Only (Orderly m) := by
  refine only_service rt api (sound_orderly m) m fun t k ht => ?_
  exact
    { accepted := fun _ h => by cases h
      transacted := fun _ h => by cases h; exact ht
      created := fun _ _ _ h => by cases h }

/-- A change of ownership leaves every other table. -/
theorem ownership_rest {t : Input → Instant → Db → Except Exn Db} {i : Input} {now : Instant}
    {db db' : Db} {m : ServiceMessage} (h : OwnershipChange m t) (hok : t i now db = .ok db') :
    db' = { db with assignments := db'.assignments
                    workloads := db'.workloads
                    auditLogs := db'.auditLogs } := by
  cases h with
  | assigned principal workloadId organizationId =>
    obtain ⟨workload, -, hok⟩ := bind_ok.mp hok
    obtain ⟨organization, -, hok⟩ := bind_ok.mp hok
    obtain ⟨_, -, hok⟩ := bind_ok.mp hok
    simp only at hok
    split at hok
    · obtain ⟨_, -, hok⟩ := bind_ok.mp hok
      cases hok
      rfl
    · obtain ⟨_, -, hok⟩ := bind_ok.mp hok
      obtain ⟨assignments, -, hok⟩ := bind_ok.mp hok
      cases hok
      rfl
  | unassigned principal workloadId =>
    obtain ⟨workload, -, hok⟩ := bind_ok.mp hok
    split at hok
    · cases hok
      rfl
    · obtain ⟨_, -, hok⟩ := bind_ok.mp hok
      cases hok
      rfl

theorem createRequest_ok {db db' : Db} {r : ProvisioningRequest} {steps : List ProvisioningStep}
    {audit : AuditLog} (h : db.createRequest r steps audit = .ok db') :
    insertUnless ProvisioningRequest.clashes db.requests r = some db'.requests ∧
      db.steps.insertAll steps = some db'.steps ∧
      db' = { db with requests := db'.requests
                      steps := db'.steps
                      auditLogs := db.auditLogs ++ [audit] } := by
  unfold Db.createRequest at h
  split at h
  · next requests steps' hrequests hsteps =>
    cases h
    exact ⟨hrequests, hsteps, rfl⟩
  · cases h

end PveMaster.Acceptances
