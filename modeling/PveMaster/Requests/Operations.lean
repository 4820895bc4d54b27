import PveMaster.Requests.Json
import PveMaster.Requests.Session

/-! `OperationService` and the customers' `request_power_action`.

Each checks the workload before it looks for an operation under the same key; what it checks may
have changed since that operation was accepted, and then the same request is answered otherwise
than before. The operation, its run if it has one and the audit event are inserted in one commit,
and the constraints of the tables decide between requests that have read the same rows. -/
namespace PveMaster

/-- `PowerAction.value`. -/
def PowerAction.value : PowerAction → String
  | .start => "start"
  | .shutdown => "shutdown"
  | .stop => "stop"
  | .reboot => "reboot"
  | .reset => "reset"

/-- `AdminVmAction.value`. -/
def AdminVmAction.value : AdminVmAction → String
  | .updateSpec => "update_spec"
  | .delete => "delete"

def WorkloadKind.value : WorkloadKind → String
  | .qemu => "QEMU"
  | .lxc => "LXC"

/-- `str(uuid)` as a JSON value. -/
def uuidJson (u : Uuid) : Json := .str (String.ofList (Text.uuid u))

/-- A workload that is not there. The message is the function's own. -/
def vmNotFound (message : String) : AppError := ⟨404, "VM_NOT_FOUND", message, []⟩

/-- The key stands for something else. -/
def keyReused (message : String) : AppError := ⟨409, "IDEMPOTENCY_KEY_REUSED", message, []⟩

/-- Another operation of the workload has not ended. -/
def operationConflict (message : String) : AppError := ⟨409, "OPERATION_CONFLICT", message, []⟩

/-- `_action_mode`, as the result of the operation records it. -/
def actionMode : PowerAction → String
  | .shutdown => "GRACEFUL"
  | .stop => "FORCED"
  | .start | .reboot | .reset => "STANDARD"

/-- The workloads the request functions look for: present, and no template. -/
def liveWorkload (id : Uuid) (db : Db) : Option Workload :=
  (db.workloads.get? id).filter (fun w => w.isPresent && !w.isTemplate)

namespace OperationService
open Prog ServiceProg

variable (rt : Runtime) (api : Api) (principal : Principal) (sourceIp : String)

/-- The text behind the fingerprint of a power action. -/
def powerText (workloadId : Uuid) (action : PowerAction) : List Char :=
  Text.uuid workloadId ++ ':' :: action.value.toList

def requestPowerAction (workloadId : Uuid) (action : PowerAction) (idempotencyKey : String)
    (reason : Option String) : ServiceProg JobAnswer := do
  ofExcept (requireServiceRole principal [.superAdmin, .operator])
  match ← query (liveWorkload workloadId) with
  | none => raise (.app (vmNotFound "The workload was not found."))
  | some workload =>
    if workload.kind = .lxc ∧ action = .reset then
      raise (.app ⟨409, "POWER_ACTION_UNSUPPORTED", "Reset is not supported for containers.", []⟩)
    else do
      let keyHash := api.keyHash idempotencyKey
      let fingerprint := api.sha256 (powerText workloadId action)
      match ← lookup principal.userId keyHash with
      | some existing =>
        if existing.requestFingerprint ≠ fingerprint then
          raise (.app (keyReused "The idempotency key was already used for another request."))
        else return ⟨existing.id, false⟩
      | none => do
        match ← query (activeOperation workloadId) with
        | some conflict =>
          raise (.app { operationConflict "Another power operation is already running for this workload." with
            details := [("job_id", uuidJson conflict.id)] })
        | none => do
          let id ← uuid4
          let taskId ← uuid4
          let operation := queuedOperation id (String.ofList (Text.uuid taskId)) (.power action)
            principal sourceIp workload.organizationId workload.clusterId workload.id keyHash
            fingerprint
            [("action_mode", .str (actionMode action)), ("reason_recorded", .bool reason.isSome),
              ("workload_kind", .str workload.kind.value)]
          let conflict := Exn.appFrom
            (operationConflict "A duplicate or conflicting operation already exists.")
          store
            { operation := operation
              audit := attemptedAudit principal operation workload.organizationId
                ("VM_POWER_" ++ rt.upper action.value) "workload" workload.id }
            conflict conflict

/-- `VmSpecUpdateRequest` or `VmDeleteRequest`, with the action its endpoint passes along. The two
share a function, and the payload decides what it checks. -/
inductive AdminPayload where
  | spec (cpuCores memoryGib : Int) (diskGib : Option Int) (version : Nat) (reason : Option String)
  | delete (confirmation : String) (reason : Option String)

/-- The action the endpoint passes along with its payload. -/
def AdminPayload.action : AdminPayload → AdminVmAction
  | .spec .. => .updateSpec
  | .delete .. => .delete

/-- `operation.operation_type`. -/
def AdminPayload.operationType : AdminPayload → OperationType
  | .spec .. => .vmSpecUpdate
  | .delete .. => .vmDelete

def gib : Int := 1024 ^ 3

/-- `requested`, the payload as the operation's result keeps it. -/
def AdminPayload.requested : AdminPayload → Dict
  | .spec cpuCores memoryGib diskGib _ reason =>
    [("cpu_cores", .int cpuCores), ("memory_bytes", .int (memoryGib * gib)),
      ("disk_bytes", (diskGib.map fun d => Json.int (d * gib)).getD .null),
      ("reason_recorded", .bool reason.isSome)]
  | .delete _ reason => [("reason_recorded", .bool reason.isSome)]

/-- What is checked of the workload before anything else. -/
def checkPayload (workload : Workload) : AdminPayload → Except Exn Unit
  | .delete confirmation _ => do
    let expected := match workload.name with
      | some name => if name = "" then toString workload.vmid else name
      | none => toString workload.vmid
    raiseIf (confirmation ≠ expected)
      (.app ⟨422, "VM_DELETE_CONFIRMATION_MISMATCH", "VM confirmation failed.", []⟩)
    raiseIf (workload.organizationId.isSome)
      (.app ⟨409, "VM_ASSIGNED", "Unassign the VM before deleting it.", []⟩)
    raiseIf (rt.upper workload.powerState ≠ "STOPPED")
      (.app ⟨409, "VM_NOT_STOPPED", "Stop the VM before deleting it.", []⟩)
  | .spec _ _ diskGib version _ => do
    raiseIf (version ≠ workload.version)
      (.app ⟨409, "WORKLOAD_VERSION_CONFLICT", "The VM inventory changed.", []⟩)
    match diskGib, workload.diskBytes with
    | some requested, some current =>
      raiseIf (requested * gib < current)
        (.app ⟨422, "DISK_SHRINK_FORBIDDEN", "VM disks cannot be shrunk.", []⟩)
    | _, _ => pure ()

/-- The dictionary behind the fingerprint of an administrative action, its keys sorted. -/
def adminDict (vmId : Uuid) : AdminPayload → Dict
  | .spec cpuCores memoryGib diskGib _ reason =>
    [("action", .str AdminVmAction.updateSpec.value), ("cpu_cores", .int cpuCores),
      ("disk_bytes", (diskGib.map fun d => Json.int (d * gib)).getD .null),
      ("memory_bytes", .int (memoryGib * gib)), ("reason_recorded", .bool reason.isSome),
      ("vm_id", uuidJson vmId)]
  | .delete _ reason =>
    [("action", .str AdminVmAction.delete.value), ("reason_recorded", .bool reason.isSome),
      ("vm_id", uuidJson vmId)]

def requestAdminAction (vmId : Uuid) (payload : AdminPayload) (idempotencyKey : String) :
    ServiceProg JobAnswer := do
  ofExcept (requireServiceRole principal [.superAdmin])
  match ← query (liveWorkload vmId) with
  | none => raise (.app (vmNotFound "The virtual machine was not found."))
  | some workload => do
    ofExcept (checkPayload rt workload payload)
    let keyHash := api.keyHash idempotencyKey
    let fingerprint := api.sha256 (JsonText.dumps (adminDict vmId payload))
    match ← lookup principal.userId keyHash with
    | some existing =>
      if existing.requestFingerprint ≠ fingerprint then
        raise (.app (keyReused "The idempotency key was reused."))
      else return ⟨existing.id, false⟩
    | none => do
      match ← query (activeOperation workload.id) with
      | some _ => raise (.app (operationConflict "Another VM operation is running."))
      | none => do
        let id ← uuid4
        let taskId ← uuid4
        let operation := queuedOperation id (String.ofList (Text.uuid taskId)) payload.operationType
          principal sourceIp workload.organizationId workload.clusterId workload.id keyHash
          fingerprint payload.requested
        store
          { operation := operation
            audit := attemptedAudit principal operation workload.organizationId
              payload.operationType.value "vm" workload.id }
          (.appFrom (operationConflict "A duplicate or conflicting operation already exists."))
          (.appFrom (operationConflict "A conflicting operation exists."))

end OperationService

namespace CustomerPortalService
open Prog ServiceProg

variable (api : Api) (principal : Principal) (sourceIp : String)

/-- The workload as `_owned_workloads_query` finds it: a virtual machine of an organization that
the caller is a member of. -/
def ownedVm (vmId : Uuid) (db : Db) : Option Workload :=
  (db.workloads.get? vmId).filter (fun w => w.organizationId.isSome && w.kind == .qemu &&
    w.isPresent && !w.isTemplate &&
    (db.members.first (fun m => m.userId == principal.userId &&
      some m.organizationId == w.organizationId)).isSome &&
    (db.organizations.first (fun g => some g.id == w.organizationId && g.isActive)).isSome)

def vmMissing : Exn := .app (vmNotFound "The virtual machine was not found.")

/-- The text behind the fingerprint of a customer's power action. -/
def powerText (vmId : Uuid) (action : PowerAction) : List Char :=
  "customer:".toList ++ Text.uuid vmId ++ ':' :: action.value.toList

/-- What a customer may ask for: not `RESET`. -/
def customerActions : List PowerAction := [.start, .shutdown, .stop, .reboot]

def requestPowerAction (vmId : Uuid) (action : PowerAction) (idempotencyKey : String)
    (reason : Option String) (confirmForced : Bool) : ServiceProg JobAnswer := do
  ofExcept (requireServiceRole principal [.customer])
  if action ∉ customerActions then
    raise (.app ⟨403, "CUSTOMER_ACTION_FORBIDDEN",
      "This power action is not available to customers.", []⟩)
  else do
    match ← query (ownedVm principal vmId) with
    | none => raise vmMissing
    | some workload =>
      if action = .stop ∧ confirmForced = false then
        raise (.app ⟨422, "FORCED_ACTION_CONFIRMATION_REQUIRED",
          "Forced stop requires explicit confirmation.", []⟩)
      else do
        let keyHash := api.keyHash idempotencyKey
        let fingerprint := api.sha256 (powerText vmId action)
        match ← lookup principal.userId keyHash with
        | some existing =>
          if existing.requestFingerprint ≠ fingerprint then
            raise (.app (keyReused "The idempotency key was already used for another request."))
          else if existing.workloadId ≠ workload.id ∨
              existing.organizationId ≠ workload.organizationId then raise vmMissing
          else return ⟨existing.id, false⟩
        | none => do
          match ← query (activeOperation workload.id) with
          | some _ =>
            raise (.app (operationConflict "Another power operation is already running for this VM."))
          | none => do
            let id ← uuid4
            let taskId ← uuid4
            let operation := queuedOperation id (String.ofList (Text.uuid taskId)) (.power action)
              principal sourceIp workload.organizationId workload.clusterId workload.id keyHash
              fingerprint
              [("action_mode", .str (actionMode action)), ("reason_recorded", .bool reason.isSome)]
            store
              { operation := operation
                audit := attemptedAudit principal operation workload.organizationId
                  operation.operationType.value "vm" workload.id }
              (.appFrom (operationConflict "A duplicate or conflicting operation already exists."))
              .integrity

end CustomerPortalService
end PveMaster
