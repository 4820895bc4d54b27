import PveMaster.Customers.Portal
import PveMaster.Platform.System

/-! How an operation is shown: the administrators' `get_job`, the customers' `get_job`, and the
recent jobs in the customers' `get_vm`.

Five functions write the action of an operation. The administrators' response knows the power
actions and the two actions on a VM, and calls all others a backup; the customers' response
knows the power actions only. Customers are asked for a membership and for the user of the
operation, not for its action, and a user can have been an administrator before. -/
namespace PveMaster

/-- The text of the column `operations.action`. -/
def OperationAction.value : OperationAction → String
  | .power a => a.value
  | .admin a => a.value
  | .backup => "backup"
  | .restore => "restore"

/-- `PowerAction(value)`, if there is one. -/
def PowerAction.ofValue (value : String) : Option PowerAction :=
  [PowerAction.start, .shutdown, .stop, .reboot, .reset].find? (·.value == value)

/-- `AdminVmAction(value)`, if there is one. -/
def AdminVmAction.ofValue (value : String) : Option AdminVmAction :=
  [AdminVmAction.updateSpec, .delete].find? (·.value == value)

namespace OperationService

structure JobResponse where
  jobId : Uuid
  workloadId : Uuid
  organizationId : Option Uuid
  action : OperationAction
  actionMode : String
  status : OperationStatus
  result : Dict
  errorCode : Option String
  errorSummary : Option String
  retryable : Option Bool
  pveUpid : Option String
  pveExitStatus : Option String
  startedAt : Option Instant
  finishedAt : Option Instant
  deriving DecidableEq

/-- The action a response names. -/
def responseAction (value : String) : OperationAction :=
  match PowerAction.ofValue value with
  | some a => .power a
  | none =>
    match AdminVmAction.ofValue value with
    | some a => .admin a
    | none => .backup

/-- The mode, where the result has none. -/
def defaultMode (value : String) : String :=
  match PowerAction.ofValue value with
  | some a => actionMode a
  | none =>
    if value = AdminVmAction.delete.value then "DESTRUCTIVE"
    else if (AdminVmAction.ofValue value).isSome then "CONFIGURATION" else "BACKUP"

/-- The task of an operation that was submitted last. -/
def latestTask (operationId : Uuid) (db : Db) : Option PveTask :=
  (db.pveTasks.select (·.operationId == operationId)).foldl
    (fun best t => match best with
      | none => some t
      | some b => if b.submittedAt < t.submittedAt then some t else some b) none

variable (rt : Runtime)

/-- `_response`. -/
def response (o : Operation) (db : Db) : JobResponse where
  jobId := o.id
  workloadId := o.workloadId
  organizationId := o.organizationId
  action := responseAction o.action.value
  actionMode := rt.strOf o.result "action_mode" (defaultMode o.action.value)
  status := o.status
  result := o.result
  errorCode := o.errorCode
  errorSummary := o.errorSummary
  retryable := o.retryable
  pveUpid := (latestTask o.id db).map PveTask.upid
  pveExitStatus := (latestTask o.id db).bind PveTask.pveExitStatus
  startedAt := o.startedAt
  finishedAt := o.finishedAt

def getJob (principal : Principal) (jobId : Uuid) (db : Db) : Except Exn JobResponse := do
  requireServiceRole principal [.superAdmin, .operator]
  let operation ← orRaise (db.operations.get? jobId) (.app ⟨404, "JOB_NOT_FOUND", "The job was not found.", []⟩)
  return response rt operation db

/-- A restore is shown as a backup, everything else as what it is. -/
theorem responseAction_value (a : OperationAction) : responseAction a.value = a ↔ a ≠ .restore := by
  cases a with
  | power a => cases a <;> decide
  | admin a => cases a <;> decide
  | backup => decide
  | restore => decide

end OperationService

namespace Views
open CustomerPortalService

inductive View where
  | adminJob (jobId : Uuid)
  | customerJob (jobId : Uuid)
  | customerVm (vmId : Uuid)

variable (rt : Runtime) (db : Db) (principal : Principal)

/-- A call answers as it should, or rejects with an `AppError`. -/
def Settled {α : Type} (x : Except Exn α) (told : α → Prop) : Prop :=
  match x with
  | .ok a => told a
  | .error e => e.appError?.isSome = true

/-- A view of jobs tells the actions of the operations it has found, or rejects with an `AppError`. -/
def Tells : View → Prop
  | .adminJob jobId => Settled (OperationService.getJob rt principal jobId db) fun job =>
      ∃ o, db.operations.get? jobId = some o ∧ job.action = o.action
  | .customerJob jobId => Settled (getJob rt principal jobId db) fun job =>
      ∃ o, visibleJob principal jobId db = some o ∧ .power job.action = o.action
  | .customerVm vmId => Settled (getVm rt principal vmId db) fun detail =>
      ∃ w, ownedVm principal vmId db = some w ∧ detail.2.map (fun job => OperationAction.power job.action) =
        (recentOperations principal w.id db).map Operation.action

/-- The actions a view meets are among those it knows. -/
def Known : View → Prop
  | .adminJob jobId => principal.role ∈ [UserRole.superAdmin, .operator] →
      ∀ o, db.operations.get? jobId = some o → o.action ≠ .restore
  | .customerJob jobId => principal.role = .customer →
      ∀ o, visibleJob principal jobId db = some o → ∃ a, o.action = .power a
  | .customerVm vmId => principal.role = .customer → ∀ w, ownedVm principal vmId db = some w →
      ∀ o ∈ recentOperations principal w.id db, ∃ a, o.action = .power a

section
variable {rt db principal}

variable (principal) in
theorem requireServiceRole_cases (roles : List UserRole) :
    (principal.role ∈ roles ∧ requireServiceRole principal roles = .ok ()) ∨
      (principal.role ∉ roles ∧ requireServiceRole principal roles = .error (.app forbidden)) := by
  unfold requireServiceRole
  by_cases h : principal.role ∈ roles
  · exact Or.inl ⟨h, if_pos h⟩
  · exact Or.inr ⟨h, if_neg h⟩

variable (rt) in
theorem jobResponse_cases (o : Operation) :
    (∃ job, jobResponse rt o = .ok job ∧ .power job.action = o.action) ∨
      (jobResponse rt o = .error .valueError ∧ ∀ a, o.action ≠ .power a) := by
  unfold jobResponse
  cases haction : o.action with
  | power a => exact Or.inl ⟨_, rfl, rfl⟩
  | admin a => exact Or.inr ⟨rfl, nofun⟩
  | backup => exact Or.inr ⟨rfl, nofun⟩
  | restore => exact Or.inr ⟨rfl, nofun⟩

variable (rt) in
/-- One operation that is not a power action is enough to fail. -/
theorem jobs_cases (l : List Operation) :
    (∃ jobs, l.mapM (jobResponse rt) = .ok jobs ∧
        jobs.map (fun job => OperationAction.power job.action) = l.map Operation.action) ∨
      (l.mapM (jobResponse rt) = .error .valueError ∧ ∃ o ∈ l, ∀ a, o.action ≠ .power a) := by
  induction l with
  | nil => exact Or.inl ⟨[], rfl, rfl⟩
  | cons o rest ih =>
    rw [List.mapM_cons]
    rcases jobResponse_cases rt o with ⟨job, hjob, haction⟩ | ⟨hraise, hnone⟩
    · rw [hjob]
      rcases ih with ⟨jobs, hjobs, hsame⟩ | ⟨hraise, o', ho', hnone⟩
      · left
        refine ⟨job :: jobs, ?_, ?_⟩
        · rw [hjobs]
          rfl
        · rw [List.map_cons, List.map_cons, haction, hsame]
      · right
        refine ⟨?_, o', List.mem_cons_of_mem _ ho', hnone⟩
        rw [hraise]
        rfl
    · rw [hraise]
      exact Or.inr ⟨rfl, o, List.mem_cons_self, hnone⟩

theorem adminJob_iff (jobId : Uuid) :
    Tells rt db principal (.adminJob jobId) ↔ Known db principal (.adminJob jobId) := by
  show Settled (OperationService.getJob rt principal jobId db) _ ↔
    (principal.role ∈ [UserRole.superAdmin, .operator] → _)
  unfold OperationService.getJob
  rcases requireServiceRole_cases principal [.superAdmin, .operator] with ⟨hrole, hok⟩ | ⟨hrole, hraise⟩
  · rw [hok]
    cases hget : db.operations.get? jobId with
    | none => exact ⟨fun _ _ o ho => (nomatch ho), fun _ => rfl⟩
    | some o =>
      have haction := OperationService.responseAction_value o.action
      constructor
      · intro h _ o' ho'
        obtain ⟨o'', ho'', hsame⟩ := h
        cases ho'
        cases ho''
        exact haction.mp hsame
      · exact fun h => ⟨o, rfl, haction.mpr (h hrole o rfl)⟩
  · rw [hraise]
    exact ⟨fun _ h => absurd h hrole, fun _ => rfl⟩

theorem customerJob_iff (jobId : Uuid) :
    Tells rt db principal (.customerJob jobId) ↔ Known db principal (.customerJob jobId) := by
  show Settled (getJob rt principal jobId db) _ ↔ (principal.role = .customer → _)
  unfold getJob
  rcases requireServiceRole_cases principal [.customer] with ⟨hrole, hok⟩ | ⟨hrole, hraise⟩
  · rw [hok]
    cases hvisible : visibleJob principal jobId db with
    | none => exact ⟨fun _ _ o ho => (nomatch ho), fun _ => rfl⟩
    | some o =>
      show Settled (jobResponse rt o) _ ↔ _
      rcases jobResponse_cases rt o with ⟨job, hjob, haction⟩ | ⟨hjob, hnone⟩
      · rw [hjob]
        constructor
        · intro _ _ o' ho'
          cases ho'
          exact ⟨job.action, haction.symm⟩
        · exact fun _ => ⟨o, rfl, haction⟩
      · rw [hjob]
        constructor
        · nofun
        · intro h
          obtain ⟨a, ha⟩ := h (List.mem_singleton.mp hrole) o rfl
          exact absurd ha (hnone a)
  · rw [hraise]
    exact ⟨fun _ h => absurd (List.mem_singleton.mpr h) hrole, fun _ => rfl⟩

theorem customerVm_iff (vmId : Uuid) :
    Tells rt db principal (.customerVm vmId) ↔ Known db principal (.customerVm vmId) := by
  show Settled (getVm rt principal vmId db) _ ↔ (principal.role = .customer → _)
  unfold getVm
  rcases requireServiceRole_cases principal [.customer] with ⟨hrole, hok⟩ | ⟨hrole, hraise⟩
  · rw [hok]
    cases howned : ownedVm principal vmId db with
    | none => exact ⟨fun _ _ w hw => (by cases hw), fun _ => rfl⟩
    | some w =>
      rcases jobs_cases rt (recentOperations principal w.id db) with ⟨jobs, hjobs, hsame⟩ | ⟨hjobs, o, ho, hnone⟩
      · have hknown : ∀ o ∈ recentOperations principal w.id db, ∃ a, o.action = .power a := by
          intro o ho
          have hmem : o.action ∈ (recentOperations principal w.id db).map Operation.action :=
            List.mem_map.mpr ⟨o, ho, rfl⟩
          rw [← hsame] at hmem
          obtain ⟨job, -, haction⟩ := List.mem_map.mp hmem
          exact ⟨job.action, haction.symm⟩
        simp only [orRaise, recentJobs, hjobs, bind, Except.bind]
        constructor
        · intro _ _ w' hw'
          cases hw'
          exact hknown
        · intro _
          unfold raiseIf
          by_cases hnamed : named db w = false
          · rw [if_pos hnamed]
            rfl
          · rw [if_neg hnamed]
            exact ⟨w, rfl, hsame⟩
      · simp only [orRaise, recentJobs, hjobs, bind, Except.bind]
        constructor
        · intro hanswer
          cases hanswer
        · intro h
          obtain ⟨a, ha⟩ := h (List.mem_singleton.mp hrole) w rfl o ho
          exact absurd ha (hnone a)
  · rw [hraise]
    exact ⟨fun _ h => absurd (List.mem_singleton.mpr h) hrole, fun _ => rfl⟩

end

/-- **A view of jobs tells what it has found** exactly if it knows its actions, in every state
that requests, runners and whatever administrators change of users and memberships lead to. -/
theorem tells_iff (rt : Runtime) (api : Api) (w : World) (actions : List PlatformAction) (principal : Principal)
    (view : View) : Tells rt (platformReached rt api w actions).db principal view ↔
      Known (platformReached rt api w actions).db principal view := by
  cases view with
  | adminJob jobId => exact adminJob_iff jobId
  | customerJob jobId => exact customerJob_iff jobId
  | customerVm vmId => exact customerVm_iff vmId

/-! ### An administrator who becomes a customer -/

/-- Another administrator, and the first one's VM, which belongs to an organization of theirs. -/
def memberWorld : World :=
  { quietWorld with
    db := { quietWorld.db with
      users := ⟨[⟨1, "admin", .superAdmin, true, 1⟩, ⟨2, "root", .superAdmin, true, 1⟩], by decide⟩
      organizations := .single ⟨5, true⟩
      members := .single ⟨1, 5, 1⟩
      workloads := .single { sampleWorkload 1 with organizationId := some 5 } } }

/-- What `update_user` writes of a role. -/
def changeRole (userId : Uuid) (role : UserRole) (w : World) : World :=
  { w with db := { w.db with users := w.db.users.update userId (fun u => { u with role := role }) } }

/-- The first asks for four cores, and is made a customer. -/
def demotion : List PlatformAction :=
  .spawn 0 (.inl (.inr (.job ⟨administrator, "192.0.2.1", "key", .admin 1 (.spec 4 8 none 1 none)⟩))) ::
    (List.replicate 8 (.step 0 (sampleInput "stopped")) ++ [.env (changeRole 1 .customer)])

/-- Neither their job nor their VM can be shown to them. -/
theorem demoted_untold :
    ¬ Tells asciiRuntime (platformReached asciiRuntime plainApi memberWorld demotion).db ⟨1, "admin", .customer, 1⟩
        (.customerJob 100) ∧
      ¬ Tells asciiRuntime (platformReached asciiRuntime plainApi memberWorld demotion).db
        ⟨1, "admin", .customer, 1⟩ (.customerVm 1) := by
  have hjob : getJob asciiRuntime ⟨1, "admin", .customer, 1⟩ 100
      (platformReached asciiRuntime plainApi memberWorld demotion).db = .error .valueError := by
    decide +kernel
  have hvm : getVm asciiRuntime ⟨1, "admin", .customer, 1⟩ 1
      (platformReached asciiRuntime plainApi memberWorld demotion).db = .error .valueError := by
    decide +kernel
  constructor
  · intro h
    rw [Tells, hjob] at h
    cases h
  · intro h
    rw [Tells, hvm] at h
    cases h

end Views
end PveMaster
