import PveMaster.Foundation.Parallel
import PveMaster.Requests.Provisioning

/-! What the API answers about provisioning requests.

`create_request` is here with the request it answers about and the password it has drawn;
cut down to the job it is the program of the other requests (`createRequest_eq`). A process
remembers which requests its own inserts have created. -/
namespace PveMaster.ProvisioningService
open Prog ServiceProg

/-! ### Passwords -/

def windowsPasswordLength : Nat := 24

def asciiLowercase : List Char := "abcdefghijklmnopqrstuvwxyz".toList
def asciiUppercase : List Char := "ABCDEFGHIJKLMNOPQRSTUVWXYZ".toList
def digits : List Char := "0123456789".toList
def symbols : List Char := "!@#%_-".toList

/-- `random.choice`. -/
def choice (draw : Nat) (characters : List Char) : Char :=
  characters.getD (draw % characters.length) 'a'

/-- `random.shuffle`: every place from the last on is swapped with one not after it. -/
def shuffle (draws : Nat → Nat) : Nat → List Char → List Char
  | 0, xs => xs
  | i + 1, xs =>
    let j := draws i % (i + 2)
    shuffle draws i ((xs.set (i + 1) (xs.getD j 'a')).set j (xs.getD (i + 1) 'a'))

/-- `_generate_windows_password`. -/
def generateWindowsPassword (draws : Nat → Nat) : String :=
  let characters := asciiLowercase ++ asciiUppercase ++ digits ++ symbols
  let password := [choice (draws 0) asciiLowercase, choice (draws 1) asciiUppercase,
    choice (draws 2) digits, choice (draws 3) symbols]
  let password := password ++
    (List.range (windowsPasswordLength - 4)).map (fun n => choice (draws (n + 4)) characters)
  String.ofList (shuffle (fun n => draws (n + windowsPasswordLength)) (windowsPasswordLength - 1) password)

/-! ### Responses -/

/-- `ProvisioningStepResponse`. -/
structure StepResponse where
  order : Nat
  name : StepName
  status : ProvisioningStepStatus
  attemptCount : Nat
  pveUpid : Option String
  safeResult : Dict
  errorCode : Option String
  errorSummary : Option String
  startedAt : Option Instant
  finishedAt : Option Instant

/-- `ProvisioningRequestResponse`. -/
structure RequestResponse where
  id : Uuid
  jobId : Uuid
  status : ProvisioningStatus
  currentStep : CurrentStep
  productId : Uuid
  templateId : Uuid
  osType : TemplateOsType
  organizationId : Uuid
  targetClusterId : Uuid
  targetNodeId : Option Uuid
  targetVmid : Option Int
  targetName : String
  ipPoolId : Uuid
  ipAddress : Option String
  workloadId : Option Uuid
  errorCode : Option String
  errorSummary : Option String
  initialPassword : Option String
  startedAt : Option Instant
  finishedAt : Option Instant
  steps : List StepResponse

/-- `_step_response`. -/
def stepResponse (item : ProvisioningStep) : StepResponse where
  order := item.stepOrder
  name := item.stepName
  status := item.status
  attemptCount := item.attemptCount
  pveUpid := item.pveUpid
  safeResult := item.safeResult
  errorCode := item.errorCode
  errorSummary := item.errorSummary
  startedAt := item.startedAt
  finishedAt := item.finishedAt

/-- `TemplateOsType(str(request.spec_snapshot.get("os_type", "LINUX")))`. -/
def osTypeOf (str : Json → String) (spec : Dict) : Except Exn TemplateOsType :=
  let name := str ((spec.get? "os_type").getD (.str TemplateOsType.linux.value))
  if name = TemplateOsType.linux.value then .ok .linux
  else if name = TemplateOsType.windows.value then .ok .windows
  else .error .valueError

/-- The steps of a request, `ORDER BY step_order`. -/
def stepsOf (requestId : Uuid) (db : Db) : List ProvisioningStep :=
  (db.steps.select (fun s => s.provisioningRequestId == requestId)).insertionSort
    (fun a b => a.stepOrder ≤ b.stepOrder)

variable (rt : Runtime) (api : Api) (principal : Principal)

/-- `_request_response`. -/
def requestResponse (request : ProvisioningRequest) (initialPassword : Option String := none) :
    ServiceProg RequestResponse := do
  let steps ← query (stepsOf request.id)
  let address ← query (fun db => request.ipAddressId.bind db.ipam.addresses.get?)
  let osType ← ofExcept (osTypeOf rt.str request.specSnapshot)
  return {
    id := request.id
    jobId := request.id
    status := request.status
    currentStep := request.currentStep
    productId := request.productId
    templateId := request.templateId
    osType := osType
    organizationId := request.organizationId
    targetClusterId := request.targetClusterId
    targetNodeId := request.targetNodeId
    targetVmid := request.targetVmid
    targetName := request.targetName
    ipPoolId := request.ipPoolId
    ipAddress := address.map (fun a => a.address.text)
    workloadId := request.workloadId
    errorCode := request.errorCode
    errorSummary := request.errorSummary
    initialPassword := initialPassword
    startedAt := request.startedAt
    finishedAt := request.finishedAt
    steps := steps.map stepResponse }

/-! ### The calls -/

/-- A request a call was accepted with, and the password drawn for it. -/
structure Accepted where
  request : ProvisioningRequest
  initialPassword : Option String
  created : Bool

/-- `create_request` up to its answer. -/
def acceptRequest (p : RequestCreate) (idempotencyKey : String) : ServiceProg Accepted := do
  ofExcept (requireServiceRole principal [.superAdmin])
  let keyHash := api.keyHash idempotencyKey
  let fingerprint := api.sha256 (payloadText p)
  match ← op (.lookupRequest principal.userId keyHash id) with
  | some existing =>
    if existing.requestFingerprint ≠ fingerprint then
      raise (.app (keyReused "The idempotency key was already used for another request."))
    else return ⟨existing, none, false⟩
  | none => do
    let refs ← validateReferences p
    validateTarget p refs.product
    let taskId ← uuid4
    let requestId ← uuid4
    let draws ← op (.random id)
    let initialPassword :=
      if refs.template.osType = .windows then some (generateWindowsPassword draws) else none
    let encrypted := if refs.template.osType = .windows then
      some (api.encryptPassword draws p.targetClusterId requestId) else none
    let request := queuedRequest rt principal requestId (String.ofList (Text.uuid taskId)) keyHash
      fingerprint p refs encrypted
    let ids ← op (.uuid4s id)
    match ← op (.create request (pendingSteps requestId ids) (requestAudit principal request) id) with
    | .ok () => return ⟨request, initialPassword, true⟩
    | .error (.database e) => raise e
    | .error _ =>
      raise (.appFrom ⟨409, "PROVISIONING_REQUEST_CONFLICT",
        "The provisioning request conflicts with an existing reservation.", []⟩)

/-- `create_request`. -/
def createAnswer (p : RequestCreate) (idempotencyKey : String) : ServiceProg RequestResponse := do
  let accepted ← acceptRequest rt api principal p idempotencyKey
  requestResponse rt accepted.request accepted.initialPassword

/-- `get_request`. -/
def getRequest (requestId : Uuid) : ServiceProg RequestResponse := do
  ofExcept (requireServiceRole principal [.superAdmin])
  match ← query (·.requests.get? requestId) with
  | some request => requestResponse rt request
  | none => raise (.app ⟨404, "PROVISIONING_REQUEST_NOT_FOUND", "The request was not found.", []⟩)

/-- The answers about some requests, one after the other. -/
def responses : List ProvisioningRequest → ServiceProg (List RequestResponse)
  | [] => return []
  | request :: rest => do
    let first ← requestResponse rt request
    let others ← responses rest
    return first :: others

/-- `list_requests`, the latest first. -/
def listRequests : ServiceProg (List RequestResponse) := do
  ofExcept (requireServiceRole principal [.superAdmin])
  responses rt (← query (fun db => db.requests.rows.reverse))

/-- **The job `create_request` starts** is that of the request it is accepted with. -/
theorem createRequest_eq (p : RequestCreate) (idempotencyKey : String) :
    createRequest rt api principal p idempotencyKey = (do
      let accepted ← acceptRequest rt api principal p idempotencyKey
      return ⟨accepted.request.id, accepted.created⟩) := by
  unfold createRequest acceptRequest
  simp only [bind_assoc]
  congr 1
  funext _
  congr 1
  funext found
  cases found with
  | some existing =>
    dsimp only
    split <;> rfl
  | none =>
    simp only [bind_assoc]
    congr 1
    funext refs
    congr 1
    funext _
    congr 1
    funext taskId
    congr 1
    funext requestId
    congr 1
    funext draws
    congr 1
    funext ids
    congr 1
    funext stored
    rcases stored with e | _
    · cases e <;> rfl
    · rfl

/-! ### The calls as a system -/

/-- The calls of the API that answer about provisioning requests. -/
inductive AnswerCall where
  | create (payload : RequestCreate) (idempotencyKey : String)
  | get (requestId : Uuid)
  | list

structure AnswerMessage where
  principal : Principal
  call : AnswerCall

/-- An operation of the service, or the end of the call. -/
inductive AnswerOp (ρ : Type) where
  | service (o : ServiceOp ρ)
  | respond (a : Except Exn (List RequestResponse)) (k : Unit → ρ)

structure AnswerProcess where
  message : AnswerMessage
  /-- The requests the call has inserted. -/
  created : List Uuid := []
  answer : Option (Except Exn (List RequestResponse)) := none

def AnswerMessage.answers (m : AnswerMessage) : ServiceProg (List RequestResponse) :=
  match m.call with
  | .create payload idempotencyKey => do
    return [← createAnswer rt api m.principal payload idempotencyKey]
  | .get requestId => do return [← getRequest rt m.principal requestId]
  | .list => listRequests rt m.principal

/-- The program of a call: its answer, or its error, is sent. -/
def AnswerMessage.program (m : AnswerMessage) : Prog Exn AnswerOp Unit :=
  ((m.answers rt api).rename .service).andThen fun a => op (.respond a id)

/-- The request an operation inserts, if its commit goes through. -/
def inserted {ρ : Type} (o : ServiceOp ρ) (i : Input) (db : Db) : List Uuid :=
  match o with
  | .create r steps audit _ =>
    match i.reject, db.createRequest r steps audit with
    | none, .ok _ => [r.id]
    | _, _ => []
  | _ => []

def AnswerOp.exec {ρ : Type} (o : AnswerOp ρ) (i : Input) (θ : AnswerProcess) (w : World) :
    AnswerProcess × World × ρ :=
  match o with
  | .service o =>
    let (_, w', r) := o.exec i { userId := θ.message.principal.userId } w
    ({ θ with created := θ.created ++ inserted o i w.db }, w', r)
  | .respond a k => ({ θ with answer := some a }, w, k ())

def answerMachine : Machine Exn AnswerOp AnswerProcess World Input AnswerMessage where
  exec o i θ w := some (o.exec i θ w)
  start m := (⟨m, [], none⟩, m.program rt api)
  drop _ w := w

end PveMaster.ProvisioningService
