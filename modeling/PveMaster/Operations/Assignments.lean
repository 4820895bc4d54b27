import PveMaster.Operations.System
import PveMaster.Operations.Effects

/-! What the runners assign between their commits.

No assignment names another row, changes who owns a workload or sets the status of a run: a run's
status changes with its operation's only, at the admission and in `_finish`. An invariant about
owners or about the statuses of runs has to look at these two places, and at nothing else a runner
does. -/
namespace PveMaster.Assignments
open Prog OpProg

/-- An assignment that changes neither the owner of the workload nor what a run belongs to or its
status. -/
structure Gentle (e : Edit) : Prop where
  workload : ∀ wl, (e.workload wl).id = wl.id ∧ (e.workload wl).organizationId = wl.organizationId
  backupRun : ∀ r, (e.backupRun r).id = r.id ∧ (e.backupRun r).operationId = r.operationId ∧
    (e.backupRun r).status = r.status

theorem gentle_nothing : Gentle {} := ⟨fun _ => ⟨rfl, rfl⟩, fun _ => ⟨rfl, rfl, rfl⟩⟩

/-- A call that deletes a guest, the only one whose consequences reach beyond the operation's own
rows. -/
def deletes {ρ : Type} : RunnerOp ρ → Bool
  | .call (.deleteGuest ..) => true
  | _ => false

/-- An operation after the admission, which deletes a guest only if `D`. -/
structure Tame (D : Prop) {ρ : Type} (o : RunnerOp ρ) : Prop where
  entered : o.enters = false
  assigned : ∀ e, o.assigned = some e → Gentle e
  deletion : deletes o = true → D

/-- Every operation the program can come to is tame: it assigns gently, and deletes a guest only
if `D`. -/
abbrev Modest (D : Prop) {α : Type} (p : OpProg α) : Prop := p.Only (Tame D)

variable {rt : Runtime} {α ρ : Type} {D : Prop}

section Operations

theorem unassigned {o : RunnerOp ρ} (h : o.assigned = none) : ∀ e, o.assigned = some e → Gentle e :=
  fun e he => by rw [h] at he; cases he

theorem tame_plain {o : RunnerOp ρ} (ha : o.assigned = none) (he : o.enters = false)
    (hd : deletes o = false) : Tame D o :=
  ⟨he, unassigned ha, fun h => by rw [hd] at h; cases h⟩

theorem modest_op {o : RunnerOp ρ} (ha : o.assigned = none) (he : o.enters = false)
    (hd : deletes o = false) : Modest D (op o) := only_op (tame_plain ha he hd)

theorem modest_perform {o : RunnerOp (Except Exn ρ)} (ha : o.assigned = none) (he : o.enters = false)
    (hd : deletes o = false) : Modest D (perform o) := only_perform (tame_plain ha he hd)

theorem modest_now : Modest D now := modest_op rfl rfl rfl

theorem modest_session : Modest D session := modest_op rfl rfl rfl

theorem modest_commit : Modest D commit := modest_perform rfl rfl rfl

theorem modest_finish (f : Finish) : Modest D (finish f) := modest_perform rfl rfl rfl

theorem modest_assign {e : Edit} (h : Gentle e) : Modest D (assign e) :=
  only_op ⟨rfl, fun e' he => by cases he; exact h, nofun⟩

/-- An assignment of the heartbeat and the task only. -/
theorem modest_assignTask (t : Option Instant) (f : PveTask → PveTask) :
    Modest D (assign { heartbeatAt := t, task := f }) :=
  modest_assign ⟨gentle_nothing.workload, gentle_nothing.backupRun⟩

/-- A call, through a client that may raise instead. -/
theorem modest_call' (client : Except AppError Unit) {r : Request}
    (h : deletes (RunnerOp.call r) = true → D) : Modest D (call client r) := by
  unfold call
  split
  · exact only_perform ⟨rfl, unassigned rfl, h⟩
  · exact only_done

theorem modest_call (client : Except AppError Unit) {r : Request}
    (h : deletes (RunnerOp.call r) = false) : Modest D (call client r) :=
  modest_call' client fun hd => by rw [h] at hd; cases hd

end Operations

/-! ### The power runner -/

section PowerRunner
open PowerRunner

theorem modest_openClient (workload : Workload) : Modest D (openClient workload) := by
  refine only_bind (modest_op rfl rfl rfl) fun cluster => only_bind (modest_op rfl rfl rfl) fun credential => ?_
  split
  · split
    · exact modest_op rfl rfl rfl
    · exact only_done
  · exact only_done

theorem modest_finishFromError (e : AppError) (submission withTask : Bool) :
    Modest D (finishFromError e submission withTask) := by
  refine only_bind modest_now fun time => ?_
  split
  · exact modest_finish _
  · exact modest_finish _

theorem modest_fail (code : String) (withTask : Bool) : Modest D (fail code withTask) :=
  only_bind modest_now fun _ => modest_finish _

theorem modest_timeOut : Modest D timeOut :=
  only_bind (modest_assignTask _ _) fun _ => only_bind modest_now fun _ => modest_finish _

theorem modest_safeGuestStatus (client : Except AppError Unit) (workload : Workload) :
    Modest D (safeGuestStatus client workload) := by
  refine only_bind (only_attempt (modest_call client rfl)) fun answer => ?_
  split
  · exact only_done
  · exact only_bind (modest_finishFromError _ _ _) fun _ => only_done
  · exact only_done

theorem modest_settle (client : Except AppError Unit) (workload : Workload) (action : PowerAction) :
    Modest D (settle rt client workload action) := by
  refine only_bind (modest_safeGuestStatus client workload) fun finalState => ?_
  split
  · exact only_done
  · refine only_bind modest_now fun observed => ?_
    refine only_bind (modest_assign ⟨fun _ => ⟨rfl, rfl⟩, gentle_nothing.backupRun⟩) fun _ => ?_
    refine only_bind modest_now fun time => ?_
    -- the expected state, then the test
    split
    · split <;> exact modest_finish _
    · split <;> exact modest_finish _

theorem modest_poll (client : Except AppError Unit) (workload : Workload) (action : PowerAction)
    (deadline : Instant) (polls : Nat) : Modest D (poll rt client workload action deadline polls) := by
  induction polls with
  | zero => exact modest_timeOut
  | succ polls ih =>
    refine only_bind modest_now fun time => ?_
    split
    · exact modest_timeOut
    refine only_bind modest_now fun polled => only_bind (modest_assignTask _ _) fun _ => ?_
    refine only_bind modest_session fun s => only_bind only_done fun task => ?_
    refine only_bind (only_attempt (modest_call client rfl)) fun answer => ?_
    have again : Modest D (commit >>= fun _ => poll rt client workload action deadline polls) :=
      only_bind modest_commit fun _ => ih
    split
    · split
      · exact again
      · exact only_bind (modest_assignTask _ _) fun _ => modest_finishFromError _ _ _
    · exact only_done
    · split
      · exact again
      split
      · exact only_bind (modest_assignTask _ _) fun _ => modest_fail _ _
      refine only_bind modest_now fun completed => only_bind (modest_assignTask _ _) fun _ => ?_
      split
      · exact only_bind (modest_assignTask _ _) fun _ => modest_fail _ _
      · exact only_bind (modest_assignTask _ _) fun _ => modest_settle client workload action

theorem modest_runPoll (client : Except AppError Unit) (workload : Workload) (action : PowerAction) :
    Modest D (runPoll rt client workload action) :=
  only_bind modest_session fun _ => only_bind only_done fun _ => only_bind modest_now fun _ =>
    modest_poll client workload action _ _

theorem modest_submit (client : Except AppError Unit) (workload : Workload) (action : PowerAction)
    (attempts : Nat) : Modest D (submit client workload action attempts) := by
  induction attempts with
  | zero => exact only_done
  | succ attempts ih =>
    refine only_bind (only_attempt (modest_call client rfl)) fun answer => ?_
    split
    · exact only_done
    · split
      · exact ih
      · exact only_bind (modest_finishFromError _ _ _) fun _ => only_done
    · exact only_done

theorem modest_runAction (recovering : Bool) (workload : Workload) (operationId : Uuid)
    (action : PowerAction) : Modest D (runAction rt recovering workload operationId action) := by
  refine only_bind (modest_openClient workload) fun client => only_bind modest_session fun s => ?_
  split
  · exact modest_runPoll client workload action
  refine only_bind (modest_safeGuestStatus client workload) fun current => ?_
  split
  · exact only_done
  split
  · exact modest_finishFromError _ _ _
  · refine only_bind modest_now fun observed => ?_
    refine only_bind (modest_assign ⟨fun _ => ⟨rfl, rfl⟩, gentle_nothing.backupRun⟩) fun _ => ?_
    exact only_bind modest_now fun _ => modest_finish _
  split
  · exact modest_fail _ _
  refine only_bind (modest_submit client workload action _) fun upid => ?_
  split
  · exact only_done
  · refine only_bind (modest_op rfl rfl rfl) fun id => only_bind modest_now fun submitted => ?_
    refine only_bind modest_now fun beaten => only_bind (modest_assignTask _ _) fun _ => ?_
    exact only_bind (modest_perform rfl rfl rfl) fun _ => modest_runPoll client workload action

theorem modest_applySpec (client : Except AppError Unit) (workload : Workload) (result : Dict) :
    Modest D (applySpec rt client workload result) := by
  unfold applySpec
  have written (cores memoryBytes : Int) : Modest D (now >>= fun observed => assign
      { workload := fun w => { w with cpuCores := some cores, memoryBytes := some memoryBytes,
                                      observedAt := observed, version := w.version + 1 } }) :=
    only_bind modest_now fun observed =>
      modest_assign ⟨fun _ => ⟨rfl, rfl⟩, gentle_nothing.backupRun⟩
  split
  · refine only_bind (modest_call client rfl) fun _ => ?_
    split
    · split
      · refine only_bind (modest_call client rfl) fun config => only_bind only_done fun disk => ?_
        refine only_bind (modest_call client rfl) fun _ => ?_
        refine only_bind (modest_assign ⟨fun _ => ⟨rfl, rfl⟩, gentle_nothing.backupRun⟩) fun _ => ?_
        exact written _ _
      · exact written _ _
    · exact written _ _
  · exact only_done

theorem modest_pollDelete (client : Except AppError Unit) (polls : Nat) :
    Modest D (pollDelete rt client polls) := by
  induction polls with
  | zero =>
    exact only_bind (modest_assignTask _ _) fun _ => only_bind modest_now fun _ => modest_finish _
  | succ polls ih =>
    refine only_bind modest_now fun polled => only_bind (modest_assignTask _ _) fun _ => ?_
    refine only_bind modest_session fun s => only_bind only_done fun task => ?_
    refine only_bind (modest_call client rfl) fun status => ?_
    split
    · exact only_bind modest_commit fun _ => ih
    refine only_bind modest_now fun completed => only_bind (modest_assignTask _ _) fun _ => ?_
    split
    · exact only_bind (modest_assignTask _ _) fun _ => modest_fail _ _
    · refine only_bind modest_now fun observed => ?_
      refine only_bind (modest_assign ⟨fun _ => ⟨rfl, rfl⟩, gentle_nothing.backupRun⟩) fun _ => ?_
      exact only_bind modest_now fun _ => modest_finish _

theorem modest_updateSpec (client : Except AppError Unit) (workload : Workload)
    (operation : Operation) : Modest D (adminBody rt client workload operation .updateSpec) :=
  only_bind (modest_applySpec client workload _) fun _ => only_bind modest_now fun _ =>
    modest_finish _

theorem modest_delete (hD : D) (client : Except AppError Unit) (workload : Workload)
    (operation : Operation) : Modest D (adminBody rt client workload operation .delete) := by
  refine only_bind (modest_call client rfl) fun current => ?_
  split
  · exact only_done
  · refine only_bind (modest_call' client fun _ => hD) fun upid => only_bind modest_now fun submitted => ?_
    refine only_bind (modest_op rfl rfl rfl) fun id => ?_
    exact only_bind (modest_perform rfl rfl rfl) fun _ => modest_pollDelete client _

theorem modest_runAdminAction (operation : Operation) (action : AdminVmAction)
    (hbody : ∀ client workload, Modest D (adminBody rt client workload operation action)) :
    Modest D (runAdminAction rt operation action) := by
  refine only_bind modest_session fun s => only_bind only_done fun workload => ?_
  refine only_bind (modest_openClient workload) fun client => ?_
  refine only_bind (only_attempt (hbody client workload)) fun answer => ?_
  split
  · exact only_done
  · exact modest_finishFromError _ _ _
  · exact only_done

/-- What `run` goes on with for an operation it has read. -/
theorem modest_action (recovering : Bool) (operation : Operation) : Modest D (match operation.action with
    | .power action => do
      let workload ← row (← session).workload
      runAction rt recovering workload operation.id action
    | _ => raise .valueError) := by
  split
  · exact only_bind modest_session fun _ => only_bind only_done fun workload =>
      modest_runAction _ workload operation.id _
  · exact only_done

end PowerRunner

/-! ### The backup and restore runners -/

section SubmissionRunner
open SubmissionRunner

theorem modest_runnerFail (code : String) (withTask : Bool) :
    Modest D (SubmissionRunner.fail code withTask) :=
  only_bind modest_now fun _ => modest_finish _

theorem modest_submissionFailed (e : AppError) : Modest D (submissionFailed e) := by
  refine only_bind modest_now fun _ => ?_
  split
  · exact modest_finish _
  · exact modest_finish _

theorem modest_recordTask (operation : Operation) (clusterId workloadId : Uuid)
    (stepName node upid : String) :
    Modest D (recordTask operation clusterId workloadId stepName node upid) := by
  refine only_bind (modest_op rfl rfl rfl) fun _ => only_bind modest_now fun _ => ?_
  refine only_bind modest_now fun _ => only_bind (modest_assignTask _ _) fun _ => ?_
  exact modest_perform rfl rfl rfl

theorem modest_runnerPoll {success : PveTask → OpProg Unit} (hs : ∀ task, Modest D (success task))
    (deadline : Instant) (polls : Nat) : Modest D (SubmissionRunner.poll rt success deadline polls) := by
  induction polls with
  | zero => exact modest_timeOut
  | succ polls ih =>
    refine only_bind modest_now fun time => ?_
    split
    · exact modest_timeOut
    refine only_bind modest_now fun polled => only_bind (modest_assignTask _ _) fun _ => ?_
    refine only_bind modest_session fun s => only_bind only_done fun task => ?_
    refine only_bind (only_attempt (modest_perform rfl rfl rfl)) fun answer => ?_
    have again : Modest D (commit >>= fun _ => SubmissionRunner.poll rt success deadline polls) :=
      only_bind modest_commit fun _ => ih
    have failed (f : PveTask → PveTask) (code : String) :
        Modest D (assign { task := f } >>= fun _ => SubmissionRunner.fail code) :=
      only_bind (modest_assignTask none f) fun _ => modest_runnerFail _ _
    cases answer with
    | error e =>
      cases e with
      | app error =>
        simp only
        split
        · exact again
        · exact failed _ _
      | _ => exact only_done
    | ok status =>
      simp only
      split
      · exact again
      refine only_bind modest_now fun completed => only_bind (modest_assignTask _ _) fun _ => ?_
      split
      · exact failed _ _
      · exact only_bind (modest_assignTask _ _) fun _ => hs task

theorem modest_startPoll {success : PveTask → OpProg Unit} (hs : ∀ task, Modest D (success task)) :
    Modest D (startPoll rt success) :=
  only_bind modest_session fun _ => only_bind only_done fun _ => only_bind modest_now fun _ =>
    modest_runnerPoll hs _ _

theorem modest_openRunnerClient (message : String) (cluster : Option Cluster)
    (credential : Option ClusterCredential) : Modest D (openRunnerClient message cluster credential) := by
  unfold openRunnerClient
  split
  · split
    · exact only_bind (modest_op rfl rfl rfl) fun _ => only_done
    · exact only_done
  · exact only_done

/-- An assignment of what a backup has produced. -/
theorem modest_assignRun {f : BackupRun → BackupRun}
    (h : ∀ r, (f r).id = r.id ∧ (f r).operationId = r.operationId ∧ (f r).status = r.status) :
    Modest D (assign { backupRun := f }) := modest_assign ⟨gentle_nothing.workload, h⟩

theorem modest_recordSnapshot (snapshot : Dict) : Modest D (BackupRunner.recordSnapshot snapshot) := by
  refine only_bind only_done fun volid => ?_
  refine only_bind (modest_assignRun fun _ => ⟨rfl, rfl, rfl⟩) fun _ => ?_
  have sized : ∀ size : Int, Modest D
      (if 0 ≤ size then assign { backupRun := fun r => { r with sizeBytes := some size } }
        else return ()) := by
    intro size
    split
    · exact modest_assignRun fun _ => ⟨rfl, rfl, rfl⟩
    · exact only_done
  cases (snapshot.get? "ctime").bind Json.number? with
  | none =>
    cases (snapshot.get? "size").bind Json.asInt? with
    | none => exact only_done
    | some size => exact sized size
  | some ctime =>
    refine only_bind only_done fun time => ?_
    refine only_bind (modest_assignRun fun _ => ⟨rfl, rfl, rfl⟩) fun _ => ?_
    cases (snapshot.get? "size").bind Json.asInt? with
    | none => exact only_done
    | some size => exact sized size

theorem modest_readMetadata (workload : Workload) (target : BackupTarget) :
    Modest D (BackupRunner.readMetadata workload target) := by
  refine only_bind (only_attempt (modest_perform rfl rfl rfl)) fun answer => ?_
  split
  · refine only_bind only_done fun latest => ?_
    split
    · exact only_bind (modest_recordSnapshot _) fun _ => only_done
    · exact only_done
  · exact only_done
  · exact only_done

theorem modest_measureTransfer (task : PveTask) : Modest D (BackupRunner.measureTransfer rt task) := by
  refine only_bind (only_attempt (modest_perform rfl rfl rfl)) fun answer => ?_
  split
  · exact only_bind only_done fun _ => only_bind (modest_assignRun fun _ => ⟨rfl, rfl, rfl⟩) fun _ => only_done
  · exact only_done
  · exact only_done

theorem modest_backupSucceed (workload : Workload) (target : BackupTarget) (task : PveTask) :
    Modest D (BackupRunner.succeed rt workload target task) :=
  only_bind (modest_readMetadata workload target) fun _ => only_bind (modest_measureTransfer task)
    fun _ => only_bind modest_session fun _ => only_bind only_done fun _ =>
      only_bind modest_now fun _ => modest_finish _

theorem modest_backupBody (operation : Operation) (workload : Workload) (target : BackupTarget)
    (run : BackupRun) : Modest D (BackupRunner.body rt operation workload target run) := by
  refine only_bind (modest_op rfl rfl rfl) fun cluster => only_bind (modest_op rfl rfl rfl) fun credential => ?_
  refine only_bind (modest_openRunnerClient _ _ _) fun _ => only_bind modest_session fun s => ?_
  split
  · exact modest_startPoll (modest_backupSucceed workload target)
  · refine only_bind (only_attempt (modest_perform rfl rfl rfl)) fun answer => ?_
    split
    · exact modest_submissionFailed _
    · exact only_done
    · exact only_bind (modest_recordTask _ _ _ _ _ _) fun _ =>
        modest_startPoll (modest_backupSucceed workload target)

theorem modest_restoreSucceed : Modest D RestoreRunner.succeed :=
  only_bind modest_now fun _ => modest_finish _

theorem modest_targetIsFree (restore : RestoreRun) : Modest D (RestoreRunner.targetIsFree rt restore) := by
  refine only_bind (modest_perform rfl rfl rfl) fun nodes => ?_
  split
  · exact only_bind (modest_perform rfl rfl rfl) fun _ => only_bind only_done fun _ => only_done
  · exact only_done

theorem modest_restoreBody (operation : Operation) (workload : Workload) (source : BackupRun)
    (restore : RestoreRun) (cluster : Cluster) :
    Modest D (RestoreRunner.body rt operation workload source restore cluster) := by
  refine only_bind (modest_op rfl rfl rfl) fun credential => ?_
  refine only_bind (modest_openRunnerClient _ _ _) fun _ => only_bind modest_session fun s => ?_
  split
  · exact modest_startPoll fun _ => modest_restoreSucceed
  · refine only_bind (modest_targetIsFree restore) fun free => ?_
    split
    · refine only_bind (only_attempt (modest_perform rfl rfl rfl)) fun answer => ?_
      split
      · exact modest_submissionFailed _
      · exact only_done
      · exact only_bind (modest_recordTask _ _ _ _ _ _) fun _ =>
          modest_startPoll fun _ => modest_restoreSucceed
    · exact modest_runnerFail _ _

/-- What either runner does with the outcome of its body. -/
theorem modest_handled (r : Except Exn Unit) : Modest D (match r with
    | .ok () => (return () : OpProg Unit)
    | .error (.app error) => do
      let task := (← session).task
      SubmissionRunner.fail error.code task.isSome
    | .error e => raise e) := by
  split
  · exact only_done
  · exact only_bind modest_session fun _ => modest_runnerFail _ _
  · exact only_done

/-- What follows the admission of a backup or a restore. -/
theorem modest_backup {f : Except Exn Admission → OpProg Unit}
    (h : BackupRunner.run rt = .node .enter f) (r : Except Exn Admission) : Modest D (f r) := by
  cases h
  cases r with
  | error e => exact only_done
  | ok admission =>
    cases admission with
    | ended => exact only_done
    | admin => exact only_done
    | proceed b =>
      exact only_bind modest_session fun _ => only_bind only_done fun _ => only_bind only_done fun _ =>
        only_bind only_done fun _ => only_bind only_done fun _ =>
          only_bind (only_attempt (modest_backupBody _ _ _ _)) modest_handled

theorem modest_restore {f : Except Exn Admission → OpProg Unit}
    (h : RestoreRunner.run rt = .node .enter f) (r : Except Exn Admission) : Modest D (f r) := by
  cases h
  cases r with
  | error e => exact only_done
  | ok admission =>
    cases admission with
    | ended => exact only_done
    | admin => exact only_done
    | proceed b =>
      exact only_bind modest_session fun _ => only_bind only_done fun _ => only_bind only_done fun _ =>
        only_bind only_done fun _ => only_bind only_done fun _ => only_bind only_done fun _ =>
          only_bind (only_attempt (modest_restoreBody _ _ _ _ _)) modest_handled

end SubmissionRunner

/-- What follows the admission of a power message, which may delete a guest. -/
theorem modest_power (hD : D) {f : Except Exn Admission → OpProg Unit}
    (h : PowerRunner.run rt = .node .enter f) (r : Except Exn Admission) : Modest D (f r) := by
  cases h
  cases r with
  | error e => exact only_done
  | ok admission =>
    cases admission with
    | ended => exact only_done
    | admin =>
      refine only_bind modest_session fun s => only_bind only_done fun operation => ?_
      split
      · next action _ =>
        refine modest_runAdminAction operation action fun client workload => ?_
        cases action with
        | updateSpec => exact modest_updateSpec client workload operation
        | delete => exact modest_delete hD client workload operation
      · exact only_done
    | proceed b =>
      exact only_bind modest_session fun s => only_bind only_done fun operation =>
        modest_action b operation

/-- **Every runner** begins with its admission, and every assignment after it is gentle. -/
theorem program_enters (m : OpMessage) :
    ∃ f : Except Exn Admission → OpProg Unit, m.program rt = .node .enter f ∧ ∀ r, Modest True (f r) := by
  unfold OpMessage.program
  split
  · exact ⟨_, rfl, modest_power trivial rfl⟩
  · exact ⟨_, rfl, modest_backup rfl⟩
  · exact ⟨_, rfl, modest_restore rfl⟩

end PveMaster.Assignments
