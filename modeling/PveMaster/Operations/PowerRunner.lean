import PveMaster.Operations.Session

/-! `PowerOperationRunner`: power actions, specification changes, deletions.

A power action that has a task is polled; one that has none is submitted, after a look at the
state of the guest, and then polled. The two administrative actions go another way
(`runAdminAction`): they look at no stored task, and a deletion polls the task it has submitted
itself. An `AppError` ends the operation, as failed or as timed out; every other exception ends
the process, and the operation stays as it was last committed. -/
namespace PveMaster

/-- The program of a runner. -/
abbrev OpProg (α : Type) := Prog Exn RunnerOp α

namespace OpProg
open Prog

/-- `datetime.now(UTC)`. -/
def now : OpProg Instant := op .now
/-- The rows as the runner sees them, with what it has assigned to them. -/
def session : OpProg OpSession := op .session
def assign (e : Edit) : OpProg Unit := op (.assign e)
/-- `session.commit()`, which can be refused by the database. -/
def commit : OpProg Unit := perform .commit
/-- `_finish`: the end of an operation, in one transaction with the audit row. -/
def finish (f : Finish) : OpProg Unit := perform (.finish f)

/-- An attribute read of a row that is `None`. -/
def row {α : Type} (x : Option α) : OpProg α := ofExcept (orRaise x .attributeError)

/-- A call through a client, or through the one that raises its error each time. -/
def call (client : Except AppError Unit) (r : Request) : OpProg (Reply r) :=
  match client with
  | .ok () => perform (.call r)
  | .error e => raise (.app e)

end OpProg

def clusterUnavailable (message : String) : AppError := ⟨409, "CLUSTER_UNAVAILABLE", message, []⟩

/-- `RETRYABLE_ERROR_CODES` and `POLL_RETRYABLE_ERRORS`: the errors after which Proxmox may have
done what it was asked for. -/
def retryableCodes : List String := ["CLUSTER_UNREACHABLE", "PVE_UPSTREAM_ERROR", "PVE_TIMEOUT"]

namespace PowerRunner
open Prog OpProg

variable (rt : Runtime)

/-- `_open_client`: a client that cannot be opened raises the same error at each call. -/
def openClient (workload : Workload) : OpProg (Except AppError Unit) := do
  let cluster ← op (.getCluster workload.clusterId)
  let credential ← op (.activeCredential workload.clusterId)
  match cluster, credential with
  | some cluster, some credential =>
    if cluster.isActive then op (.connect cluster credential)
    else return .error (clusterUnavailable "The workload cluster is unavailable.")
  | _, _ => return .error (clusterUnavailable "The workload cluster is unavailable.")

/-- `_finish_from_error`. -/
def finishFromError (error : AppError) (submission : Bool) (withTask : Bool := false) :
    OpProg Unit := do
  let time ← now
  if error.code = "PVE_TIMEOUT" then
    finish { time := time, status := .timeout, errorCode := some error.code,
             retryable := !submission, withTask := withTask }
  else
    finish { time := time, status := .failed, errorCode := some error.code,
             retryable := retryableCodes.contains error.code, withTask := withTask }

/-- `_safe_guest_status`: the answer, or `None` once an error has finished the operation. -/
def safeGuestStatus (client : Except AppError Unit) (workload : Workload) :
    OpProg (Option Dict) := do
  match ← attempt (call client (.getGuestStatus workload.kind workload.node workload.vmid)) with
  | .ok status => return some status
  | .error (.app error) => do
    finishFromError error false
    return none
  | .error e => raise e

/-- `_no_op_result`: the guest is already in the state the action leads to, which then needs no
task. -/
def noOpResult (action : PowerAction) (status : Dict) : Except AppError (Option Dict) :=
  let state := rt.lower (rt.strOf status "status" "unknown")
  match action with
  | .start =>
    if state = "running" then .ok (some
      [("no_op", .bool true), ("message", .str "The workload is already running."),
        ("final_power_state", .str "RUNNING")])
    else .ok none
  | .shutdown | .stop =>
    if state = "stopped" then .ok (some
      [("no_op", .bool true), ("message", .str "The workload is already stopped."),
        ("final_power_state", .str "STOPPED")])
    else .ok none
  | .reboot | .reset =>
    if state ≠ "running" then .error ⟨409, "VM_NOT_RUNNING", "The workload is not running.", []⟩
    else .ok none

/-- `_submit`, with `n` attempts left. A submission that was answered with a retryable error other
than a timeout is made again, although it may have been carried out. -/
def submit (client : Except AppError Unit) (workload : Workload) (action : PowerAction) :
    Nat → OpProg (Option String)
  | 0 => return none
  | n + 1 => do
    match ← attempt (call client
      (.submitGuestPowerAction workload.kind workload.node workload.vmid action)) with
    | .ok upid => return some upid
    | .error (.app error) =>
      if retryableCodes.contains error.code ∧ error.code ≠ "PVE_TIMEOUT" ∧ 0 < n then
        submit client workload action n
      else do
        finishFromError error true
        return none
    | .error e => raise e

/-- The end of `_poll` for a task that stopped with `OK`: the state of the guest is read once more
and stored. -/
def settle (client : Except AppError Unit) (workload : Workload) (action : PowerAction) :
    OpProg Unit := do
  match ← safeGuestStatus client workload with
  | none => return ()
  | some finalState => do
    let state := rt.upper (rt.strOf finalState "status" "unknown")
    let observed ← now
    assign { workload := fun w => { w with powerState := state, observedAt := observed } }
    let expected := if action = .shutdown ∨ action = .stop then "STOPPED" else "RUNNING"
    let time ← now
    if state ≠ expected then
      finish { time := time, status := .failed, errorCode := some "PVE_STATE_MISMATCH",
               retryable := true, withTask := true }
    else
      finish { time := time, status := .succeeded, retryable := false, withTask := true
               result := fun r =>
                 r.merge [("no_op", .bool false), ("final_power_state", .str state)] }

/-- The end of `_poll` without an answer in time. -/
def timeOut : OpProg Unit := do
  assign { task := fun t => { t with status := .timeout, errorCode := some "PVE_TASK_TIMEOUT" } }
  let time ← now
  finish { time := time, status := .timeout, errorCode := some "PVE_TASK_TIMEOUT",
           retryable := true, withTask := true }

/-- A task that ended in a way that is not a success. -/
def fail (code : String) (withTask : Bool := true) : OpProg Unit := do
  let time ← now
  finish { time := time, status := .failed, errorCode := some code, retryable := false,
           withTask := withTask }

/-- `_poll`; `n` is what `poll_attempts` still leaves of the maximum. The attempts are stored, so
a redelivery goes on counting. -/
def poll (client : Except AppError Unit) (workload : Workload) (action : PowerAction)
    (deadline : Instant) : Nat → OpProg Unit
  | 0 => timeOut
  | n + 1 => do
    let time ← now
    if deadline ≤ time then timeOut
    else do
      let polled ← now
      assign { heartbeatAt := some polled
               task := fun t =>
                 { t with pollAttempts := t.pollAttempts + 1, lastPolledAt := some polled } }
      let task ← row (← session).task
      match ← attempt (call client (.getTaskStatus task.pveNode task.upid)) with
      | .error (.app error) =>
        if retryableCodes.contains error.code then do
          commit
          poll client workload action deadline n
        else do
          assign { task := fun t => { t with status := .failed, errorCode := some error.code } }
          finishFromError error false true
      | .error e => raise e
      | .ok status =>
        if status.get? "status" = some (.str "running") then do
          commit
          poll client workload action deadline n
        else if status.get? "status" ≠ some (.str "stopped") then do
          assign { task := fun t =>
            { t with status := .failed, errorCode := some "PVE_INVALID_RESPONSE" } }
          fail "PVE_INVALID_RESPONSE"
        else do
          let exitStatus := ((status.get? "exitstatus").filter (· ≠ .null)).map rt.str
          let completed ← now
          assign { task := fun t =>
            { t with pveExitStatus := exitStatus, completedAt := some completed } }
          if status.get? "exitstatus" ≠ some (.str "OK") then do
            assign { task := fun t => { t with status := .failed } }
            fail "PVE_TASK_FAILED"
          else do
            assign { task := fun t => { t with status := .succeeded } }
            settle rt client workload action

/-- The polls a task has left. -/
def pollsLeft (task : PveTask) : Nat := rt.settings.pveTaskMaxPollAttempts - task.pollAttempts

/-- The part of `run` after a task is known. -/
def runPoll (client : Except AppError Unit) (workload : Workload) (action : PowerAction) :
    OpProg Unit := do
  let task ← row (← session).task
  let time ← now
  poll rt client workload action (time + rt.settings.pveTaskTimeout) (pollsLeft rt task)

/-- The part of `run` that finds or submits a task. A stored task is polled and never submitted
anew. -/
def runAction (recovering : Bool) (workload : Workload) (operationId : Uuid) (action : PowerAction) :
    OpProg Unit := do
  let client ← openClient workload
  match (← session).task with
  | some _ => runPoll rt client workload action
  | none => do
    match ← safeGuestStatus client workload with
    | none => return ()
    | some current =>
      match noOpResult rt action current with
      | .error error => finishFromError error false
      | .ok (some noOp) => do
        let state := rt.upper (rt.strOf current "status" "unknown")
        let observed ← now
        assign { workload := fun w => { w with powerState := state, observedAt := observed } }
        let time ← now
        finish { time := time, status := .succeeded, retryable := false
                 result := fun r => r.merge noOp }
      | .ok none =>
        if recovering ∧ (action = .reboot ∨ action = .reset) then
          fail "OPERATION_STATE_UNKNOWN" false
        else do
          match ← submit client workload action rt.settings.pveActionMaxAttempts with
          | none => return ()
          | some upid => do
            let id ← op .uuid4
            let submitted ← now
            let task : PveTask :=
              { id := id
                operationId := operationId
                clusterId := workload.clusterId
                workloadId := workload.id
                stepName := "power_" ++ match action with
                  | .start => "start"
                  | .shutdown => "shutdown"
                  | .stop => "stop"
                  | .reboot => "reboot"
                  | .reset => "reset"
                upid := upid
                status := .running
                pveNode := workload.node
                pveExitStatus := none
                submittedAt := submitted
                lastPolledAt := none
                completedAt := none
                pollAttempts := 0
                errorCode := none }
            let beaten ← now
            assign { heartbeatAt := some beaten }
            perform (.addTask task)
            runPoll rt client workload action

/-! ### Admin actions -/

/-- `re.fullmatch(r"(?:scsi|virtio|sata|ide)\d+", key)`, whose digits are those of any script. -/
def diskKey (key : String) : Bool :=
  ["scsi", "virtio", "sata", "ide"].any (fun bus =>
    key.startsWith bus && (key.drop bus.length).toString != "" &&
      (key.drop bus.length).toString.toList.all fun c => (decimalDigit? c).isSome)

/-- `_resizable_disk`: the root disk of a container, or the only disk of a guest that is no CD-ROM
and no cloud-init drive. Where there are several of them none is chosen. -/
def resizableDisk (kind : WorkloadKind) (config : Dict) : Except AppError String :=
  match kind with
  | .lxc =>
    if (config.get? "rootfs").isSome then .ok "rootfs"
    else .error ⟨409, "VM_DISK_LAYOUT_UNSUPPORTED", "The root disk was not found.", []⟩
  | .qemu =>
    let disks := (config.filter (fun e => diskKey e.1 &&
      ((rt.str e.2).splitOn "media=cdrom").length == 1 &&
      ((rt.str e.2).splitOn "cloudinit").length == 1)).map Prod.fst
    match disks with
    | [disk] => .ok disk
    | _ => .error ⟨409, "VM_DISK_LAYOUT_UNSUPPORTED", "Exactly one VM disk is required.", []⟩

/-- `_apply_spec`; what it assigns to the result is left to the commit that follows. A disk is
never made smaller. -/
def applySpec (client : Except AppError Unit) (workload : Workload) (result : Dict) :
    OpProg Unit := do
  match (result.get? "cpu_cores").bind Json.asInt?, (result.get? "memory_bytes").bind Json.asInt? with
  | some cores, some memoryBytes => do
    call client (.configureGuest workload.kind workload.node workload.vmid cores
      (memoryBytes / 1024 ^ 2))
    match (result.get? "disk_bytes").bind Json.asInt? with
    | some diskBytes =>
      if diskBytes > workload.diskBytes.getD 0 then do
        let config ← call client (.getGuestConfig workload.kind workload.node workload.vmid)
        let disk ← ofExcept ((resizableDisk rt workload.kind config).mapError Exn.app)
        call client (.resizeGuestDisk workload.kind workload.node workload.vmid disk diskBytes)
        assign { workload := fun w => { w with diskBytes := some diskBytes } }
      else pure ()
    | none => pure ()
    let observed ← now
    assign { workload := fun w =>
      { w with cpuCores := some cores, memoryBytes := some memoryBytes, observedAt := observed,
               version := w.version + 1 } }
  | _, _ => raise (.app ⟨500, "OPERATION_PAYLOAD_INVALID", "The VM operation is invalid.", []⟩)

/-- `_poll_delete`, with `n` polls left. Unlike `_poll` it tolerates no error of a single poll. -/
def pollDelete (client : Except AppError Unit) : Nat → OpProg Unit
  | 0 => do
    assign { task := fun t => { t with status := .timeout } }
    let time ← now
    finish { time := time, status := .timeout, errorCode := some "PVE_TASK_TIMEOUT",
             retryable := true, withTask := true }
  | n + 1 => do
    let polled ← now
    assign { task := fun t =>
      { t with pollAttempts := t.pollAttempts + 1, lastPolledAt := some polled } }
    let task ← row (← session).task
    let status ← call client (.getTaskStatus task.pveNode task.upid)
    if status.get? "status" = some (.str "running") then do
      commit
      pollDelete client n
    else do
      let completed ← now
      assign { task := fun t =>
        { t with pveExitStatus := some (rt.strOf status "exitstatus" ""),
                 completedAt := some completed } }
      if status.get? "status" ≠ some (.str "stopped") ∨ status.get? "exitstatus" ≠ some (.str "OK") then do
        assign { task := fun t => { t with status := .failed } }
        fail "PVE_TASK_FAILED"
      else do
        let observed ← now
        assign { task := fun t => { t with status := .succeeded }
                 workload := fun w =>
                   { w with isPresent := false, observedAt := observed, version := w.version + 1 } }
        let time ← now
        finish { time := time, status := .succeeded, retryable := false, withTask := true
                 result := fun r => r.merge [("deleted", .bool true)] }

/-- The body of `_run_admin_action`'s `try`. -/
def adminBody (client : Except AppError Unit) (workload : Workload) (operation : Operation)
    (action : AdminVmAction) : OpProg Unit := do
  match action with
  | .updateSpec => do
    applySpec rt client workload operation.result
    let time ← now
    finish { time := time, status := .succeeded, retryable := false
             result := fun r => r.merge [("applied", .bool true)] }
  | .delete => do
    let current ← call client (.getGuestStatus workload.kind workload.node workload.vmid)
    if rt.lower (rt.strOf current "status" "unknown") ≠ "stopped" then
      raise (.app ⟨409, "VM_NOT_STOPPED", "Stop the VM before deleting it.", []⟩)
    else do
      let upid ← call client (.deleteGuest workload.kind workload.node workload.vmid)
      let submitted ← now
      let id ← op .uuid4
      let task : PveTask :=
        { id := id
          operationId := operation.id
          clusterId := workload.clusterId
          workloadId := workload.id
          stepName := "delete"
          upid := upid
          status := .running
          pveNode := workload.node
          pveExitStatus := none
          submittedAt := submitted
          lastPolledAt := none
          completedAt := none
          pollAttempts := 0
          errorCode := none }
      perform (.addTask task)
      pollDelete rt client rt.settings.pveTaskMaxPollAttempts

/-- `_run_admin_action` after its commit. No stored task is looked at, so a redelivery does
everything once more. -/
def runAdminAction (operation : Operation) (action : AdminVmAction) : OpProg Unit := do
  let workload ← row (← session).workload
  let client ← openClient workload
  match ← attempt (adminBody rt client workload operation action) with
  | .ok () => return ()
  | .error (.app error) => finishFromError error false
  | .error e => raise e

/-- `run`. `PowerAction(operation.action)` raises for the actions of other runners, which this one
does not tell apart before its first commit. -/
def run : OpProg Unit := do
  match ← perform .enter with
  | .ended => return ()
  | .admin => do
    let operation ← row (← session).operation
    match operation.action with
    | .admin action => runAdminAction rt operation action
    | _ => raise .valueError
  | .proceed recovering => do
    let operation ← row (← session).operation
    match operation.action with
    | .power action => do
      let workload ← row (← session).workload
      runAction rt recovering workload operation.id action
    | _ => raise .valueError

end PowerRunner
end PveMaster
