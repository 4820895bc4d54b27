import PveMaster.Operations.Conduct
import PveMaster.Operations.Routing

/-! How often a backup or a restore is submitted.

The admitting commit takes an operation out of `QUEUED`, and no commit puts it back. So
the one delivery that finds it `QUEUED` is the one that may submit; a later one needs a
row in `pve_tasks` to get past its admission, and then it polls. -/
namespace PveMaster.Submission

open Conduct
open Routing (statusOf)

/-- A call that makes Proxmox start a backup or a restore. -/
def submission : Request → Bool
  | .submitGuestBackup .. | .submitGuestRestore .. => true
  | _ => false

/-- The submissions made for an operation, whatever they were answered with. -/
def submissions (k : Uuid) (w : World) : Nat := callCount submission k w

/-- A Proxmox task of the operation has been persisted: a later delivery polls it. -/
def hasTask (db : Db) (k : Uuid) : Bool := (taskOf db k).isSome

variable {k : Uuid}

/-! ### Tasks -/

theorem hasTask_iff {db : Db} : hasTask db k = true ↔ ∃ t ∈ db.pveTasks, t.operationId = k := by
  unfold hasTask taskOf
  constructor
  · intro h
    obtain ⟨t, ht⟩ := Option.isSome_iff_exists.mp h
    obtain ⟨hmem, hp⟩ := Table.first_some ht
    exact ⟨t, hmem, by simpa using hp⟩
  · rintro ⟨t, hmem, hk⟩
    cases hf : db.pveTasks.first (fun t => t.operationId == k) with
    | some t' => rfl
    | none => exact absurd (Table.first_none hf hmem) (by simp [hk])

theorem flush_task {θ : OpState} {db : Db} (h : hasTask db k = true) :
    hasTask (θ.flush db) k = true := by
  obtain ⟨t, hmem, hk⟩ := hasTask_iff.mp h
  refine hasTask_iff.mpr ?_
  show ∃ t ∈ flushRow PveTask.merge θ.loaded.task θ.current.task db.pveTasks, t.operationId = k
  unfold flushRow
  split
  · next l c _ _ =>
    refine ⟨Table.amend (Keyed.key l) (PveTask.merge l c) t, Table.mem_update.mpr ⟨t, hmem, rfl⟩, ?_⟩
    unfold Table.amend
    split
    · exact hk
    · exact hk
  · exact ⟨t, hmem, hk⟩

theorem insert_task {t : PveTask} {tasks : Table PveTask} {db : Db}
    (h : db.pveTasks.insert t = some tasks) (hk : hasTask db k = true ∨ t.operationId = k)
    (db' : Db) : hasTask { db' with pveTasks := tasks } k = true := by
  refine hasTask_iff.mpr ?_
  rcases hk with hk | hk
  · obtain ⟨t', hmem, hk⟩ := hasTask_iff.mp hk
    exact ⟨t', (Table.mem_insert h).mpr (Or.inl hmem), hk⟩
  · exact ⟨t, (Table.mem_insert h).mpr (Or.inr rfl), hk⟩

/-! ### What a delivery knows -/

/-- A task in the session of a delivery of the operation has been persisted, so the session never
knows of a task that a later delivery would not find. -/
structure Knows (k : Uuid) (θ : OpState) (db : Db) : Prop where
  sound : θ.Sound
  tasked : θ.operationId = k → (θ.loaded.task.isSome || θ.current.task.isSome) = true →
    hasTask db k = true

section Effects
variable {now : Instant} {ρ : Type} {op : RunnerOp ρ} {θ θ' : OpState} {db db' : Db}

theorem effect_hasTask (he : OpEffect now op θ db θ' db') (h : hasTask db k = true) :
    hasTask db' k = true := by
  cases he with
  | assigned | rolledBack | loaded => exact h
  | saved | started => exact flush_task h
  | submitted _ inserted => exact insert_task inserted (Or.inl h) _
  | @finished f =>
    have hflush : hasTask ((θ.finished f).flush db) k = true := flush_task h
    exact hflush
  | @refused _ s _ _ f =>
    have hflush : hasTask (((θ.load s).finished f).flush db) k = true := flush_task h
    exact hflush

theorem knows_start (m : OpMessage) (db : Db) :
    Knows k { kind := m.task, operationId := m.operationId } db := by
  refine ⟨sound_start m.task m.operationId, fun _ h => ?_⟩
  cases h

/-- What a session loaded for the operation knows of its task. -/
theorem loads_tasked {s : OpSession} {o : Operation} (loads : Loads θ db s o)
    (hk : θ.operationId = k) (h : s.task.isSome = true) : hasTask db k = true := by
  obtain ⟨t, ht⟩ := Option.isSome_iff_exists.mp h
  have := loads.task t ht
  rw [loads.named, hk] at this
  unfold hasTask
  rw [this]
  rfl

theorem effect_knows (he : OpEffect now op θ db θ' db') (h : Knows k θ db)
    (added : θ.operationId = k → ∀ t, op.added = some t → t.operationId = k) : Knows k θ' db' := by
  refine ⟨(effect_sound he h.sound).1, fun hk htask => ?_⟩
  have hid : θ'.operationId = θ.operationId := (effect_sound he h.sound).2.1
  rw [hid] at hk
  have known := h.tasked hk
  have hmono (hdb : hasTask db k = true) := effect_hasTask he hdb
  cases he with
  | @assigned e _ =>
    refine hmono (known ?_)
    have : (θ.current.task.map e.task).isSome = θ.current.task.isSome := Option.isSome_map
    rw [← this]
    exact htask
  | rolledBack =>
    refine hmono (known ?_)
    have hl : (θ.loaded.task.isSome || θ.loaded.task.isSome) = true := htask
    rw [Bool.or_self] at hl
    rw [hl, Bool.true_or]
  | saved | finished =>
    refine hmono (known ?_)
    have hc : (θ.current.task.isSome || θ.current.task.isSome) = true := htask
    rw [Bool.or_self] at hc
    rw [hc, Bool.or_true]
  | submitted hadd inserted => exact insert_task inserted (Or.inr (added hk _ hadd)) _
  | @loaded _ s o loads | @started _ s o loads | @refused _ s o loads =>
    refine hmono (loads_tasked loads hk ?_)
    have hs : (s.task.isSome || s.task.isSome) = true := htask
    rwa [Bool.or_self] at hs

/-- A result of `SUCCEEDED` rests on a persisted task. -/
def Grounded (k : Uuid) (db : Db) : Prop := statusOf db k = some .succeeded → hasTask db k = true

theorem effect_grounded (he : OpEffect now op θ db θ' db') (h : Knows k θ db) (hg : Grounded k db)
    (finishes : θ.operationId = k → ∀ f, op.finishWith = some f → f.status = .succeeded →
      θ.current.task.isSome = true) : Grounded k db' := by
  intro hsucceeded
  obtain ⟨g, hrows, hstep⟩ := effect_row he h.sound k
  unfold statusOf at hsucceeded
  rw [hrows, Option.map_map] at hsucceeded
  obtain ⟨o, ho, hstatus⟩ := Option.map_eq_some_iff.mp hsucceeded
  have hstatus : (g o).status = .succeeded := hstatus
  refine effect_hasTask he ?_
  rcases (hstep o ho).status with hkept | ⟨hk, hstep⟩
  · refine hg ?_
    unfold statusOf
    rw [ho, Option.map_some, ← hkept, hstatus]
  · rw [hstatus] at hstep
    generalize hs : OperationStatus.succeeded = status at hstep
    cases hstep with
    | kept =>
      refine hg ?_
      unfold statusOf
      rw [ho, Option.map_some, ← hs]
    | started => cases hs
    | refused => cases hs
    | @finished f hf =>
      refine h.tasked hk ?_
      rw [finishes hk f hf hs.symm, Bool.or_true]

end Effects

/-! ### What a delivery may do -/

/-- A submission is paid for; a success rests on a task, and a task is the operation's own. -/
def budget (k : Uuid) : Budget RunnerOp OpState World Input Nat where
  allowed o θ := (∀ f, o.finishWith = some f → f.status = .succeeded → θ.current.task.isSome = true) ∧
    ∀ t, o.added = some t → t.operationId = k
  cost o _ _ _ := if calls submission o then 1 else 0

variable {rt : Runtime} {α β ρ : Type} {J : OpState → Prop} {n : Nat} {θ : OpState}

theorem spares_plain {o : RunnerOp ρ} (hfinish : o.finishWith = none) (hadded : o.added = none)
    (hsubmits : calls submission o = false) : Spares (budget k) o := by
  refine fun θ => ⟨⟨fun f hf => ?_, fun t ht => ?_⟩, fun i w => ?_⟩
  · rw [hfinish] at hf
    cases hf
  · rw [hadded] at ht
    cases ht
  · show (if calls submission o then 1 else 0) = 0
    rw [hsubmits]
    rfl

/-- A result that is not a success is free. -/
theorem spares_finish {f : Finish} (h : f.status ≠ .succeeded) : Spares (budget k) (.finish f) := by
  refine fun θ => ⟨⟨fun f' hf hs => ?_, fun t ht => ?_⟩, fun i w => rfl⟩
  · cases hf
    exact absurd hs h
  · cases ht

theorem spares_addTask {t : PveTask} (h : t.operationId = k) : Spares (budget k) (.addTask t) := by
  refine fun θ => ⟨⟨fun f hf => ?_, fun t' ht => ?_⟩, fun i w => rfl⟩
  · cases hf
  · cases ht
    exact h

/-! ### The programs -/

section Programs
open Prog OpProg

theorem keeping_op {o : RunnerOp ρ} (h : still o = true) (hplain : o.added = none)
    (hfree : calls submission o = false) : Keeping rt (budget k) J (op o) := by
  refine only_op (keeps_still h (spares_plain ?_ hplain hfree))
  cases o <;> first | rfl | cases h

theorem keeping_call {r : Request} (h : submission r = false) :
    Keeping rt (budget k) J (perform (.call r)) :=
  only_perform (keeps_still rfl (spares_plain rfl rfl h))

theorem keeping_now : Keeping rt (budget k) J now := keeping_op rfl rfl rfl

theorem keeping_assign (e : Edit) : Keeping rt (budget k) Any (assign e) :=
  only_op (keeps_any (spares_plain rfl rfl rfl))

theorem keeping_tasked (e : Edit) : Keeping rt (budget k) Tasked (assign e) :=
  only_op (keeps_assign (tasked_assign e) (spares_plain rfl rfl rfl))

theorem keeping_commit : Keeping rt (budget k) Any commit :=
  only_perform (keeps_any (spares_plain rfl rfl rfl))

theorem keeping_finish {f : Finish} (h : f.status ≠ .succeeded) :
    Keeping rt (budget k) Any (finish f) := only_perform (keeps_any (spares_finish h))

theorem spares_session : Spares (budget k) .session := spares_plain rfl rfl rfl

theorem keeping_fail (code : String) (withTask : Bool) :
    Keeping rt (budget k) Any (SubmissionRunner.fail code withTask) :=
  only_bind keeping_now fun _ => keeping_finish OperationStatus.failed_ne

theorem keeping_submissionFailed (e : AppError) :
    Keeping rt (budget k) Any (SubmissionRunner.submissionFailed e) := by
  refine only_bind keeping_now fun _ => ?_
  split
  · exact keeping_finish OperationStatus.timeout_ne
  · exact keeping_finish OperationStatus.failed_ne

theorem keeping_timeOut : Keeping rt (budget k) Any PowerRunner.timeOut :=
  only_bind (keeping_assign _) fun _ => only_bind keeping_now fun _ => keeping_finish nofun

theorem keeping_recordTask {operation : Operation} (h : operation.id = k)
    (clusterId workloadId : Uuid) (stepName node upid : String) :
    Keeping rt (budget k) Any
      (SubmissionRunner.recordTask operation clusterId workloadId stepName node upid) := by
  refine only_bind (keeping_op rfl rfl rfl) fun _ => only_bind keeping_now fun _ =>
    only_bind keeping_now fun _ => only_bind (keeping_assign _) fun _ => only_perform ?_
  exact keeps_any (spares_addTask h)

/-- A poll that finds a success goes on with a session that has a task. -/
theorem safe_poll {success : PveTask → OpProg Unit}
    (hs : ∀ task n θ, Tasked θ → Safe rt (budget k) (success task) n θ) (deadline : Instant) (polls n : Nat)
    (θ : OpState) : Safe rt (budget k) (SubmissionRunner.poll rt success deadline polls) n θ := by
  induction polls generalizing n θ with
  | zero => exact safe_only keeping_timeOut trivial
  | succ polls ih =>
    refine safe_then (J := Any) keeping_now trivial fun time θ _ => ?_
    split
    · exact safe_only keeping_timeOut trivial
    refine safe_then (J := Any) keeping_now trivial fun polled θ _ => ?_
    refine safe_then (keeping_assign _) trivial fun _ θ _ => safe_session spares_session (safe_row ?_)
    intro task htask
    have htasked : Tasked θ := by
      show θ.current.task.isSome = true
      rw [htask]
      rfl
    refine safe_then (only_attempt (keeping_call rfl)) htasked fun answer θ htasked => ?_
    have again : Safe rt (budget k) (commit >>= fun _ => SubmissionRunner.poll rt success deadline polls) n θ :=
      safe_then keeping_commit trivial fun _ θ _ => ih n θ
    have failed (e : Edit) (code : String) :
        Safe rt (budget k) (assign e >>= fun _ => SubmissionRunner.fail code) n θ :=
      safe_only (only_bind (keeping_assign e) fun _ => keeping_fail code true) trivial
    cases answer with
    | error e =>
      cases e with
      | app error =>
        simp only
        split
        · exact again
        · exact failed _ _
      | _ => trivial
    | ok status =>
      simp only
      split
      · exact again
      refine safe_then keeping_now htasked fun completed θ htasked => ?_
      refine safe_then (keeping_tasked _) htasked fun _ θ htasked => ?_
      split
      · exact safe_only (only_bind (keeping_assign _) fun _ => keeping_fail _ true) trivial
      · exact safe_then (keeping_tasked _) htasked fun _ θ htasked => hs task n θ htasked

theorem safe_startPoll {success : PveTask → OpProg Unit}
    (hs : ∀ task n θ, Tasked θ → Safe rt (budget k) (success task) n θ) (n : Nat) (θ : OpState) :
    Safe rt (budget k) (SubmissionRunner.startPoll rt success) n θ :=
  safe_session spares_session (safe_row fun _ _ => safe_then (J := Any) keeping_now trivial fun _ θ _ =>
    safe_poll hs _ _ n θ)

/-- The submission spends what is in hand, whatever comes of it. -/
theorem safe_submit {r : Request} {f : Except Exn (Reply r) → OpProg Unit} (h : submission r = true)
    (hn : 1 ≤ n) (hf : ∀ answer, Safe rt (budget k) (f answer) (n - 1) θ) :
    Safe rt (budget k) (attempt (perform (.call r)) >>= f) n θ := by
  refine safe_call ⟨fun f hf => ?_, fun t ht => ?_⟩ fun i w _ => ?_
  · cases hf
  · cases ht
  have hcost : (budget k).cost (RunnerOp.call r) i θ w = 1 := by
    show (if submission r = true then 1 else 0) = 1
    rw [if_pos h]
  refine ⟨n - 1, ?_, hf _⟩
  rw [hcost]
  omega

theorem safe_succeeded {f : Finish} (h : Tasked θ) : Safe rt (budget k) (finish f) n θ := by
  refine ⟨⟨fun _ _ _ => h, fun t ht => ?_⟩, fun i w θ' w' r _ _ => ⟨n, Nat.le_of_eq (Nat.zero_add n), trivial⟩⟩
  cases ht

theorem keeping_ofExcept (x : Except Exn α) : Keeping rt (budget k) J (ofExcept x) := only_done

theorem keeping_recordSnapshot (snapshot : Dict) :
    Keeping rt (budget k) Tasked (BackupRunner.recordSnapshot snapshot) := by
  refine only_bind only_done fun volid => only_bind (keeping_tasked _) fun _ => ?_
  have sized : ∀ size : Int, Keeping rt (budget k) Tasked
      (if 0 ≤ size then assign { backupRun := fun r => { r with sizeBytes := some size } }
        else return ()) := by
    intro size
    split
    · exact keeping_tasked _
    · exact only_done
  cases (snapshot.get? "ctime").bind Json.number? with
  | none =>
    cases (snapshot.get? "size").bind Json.asInt? with
    | none => exact only_done
    | some size => exact sized size
  | some ctime =>
    refine only_bind only_done fun time => only_bind (keeping_tasked _) fun _ => ?_
    cases (snapshot.get? "size").bind Json.asInt? with
    | none => exact only_done
    | some size => exact sized size

theorem keeping_readMetadata (workload : Workload) (target : BackupTarget) :
    Keeping rt (budget k) Tasked (BackupRunner.readMetadata workload target) := by
  refine only_bind (only_attempt (keeping_call rfl)) fun answer => ?_
  split
  · refine only_bind only_done fun latest => ?_
    split
    · exact only_bind (keeping_recordSnapshot _) fun _ => only_done
    · exact only_done
  · exact only_done
  · exact only_done

theorem keeping_measureTransfer (task : PveTask) :
    Keeping rt (budget k) Tasked (BackupRunner.measureTransfer rt task) := by
  refine only_bind (only_attempt (keeping_call rfl)) fun answer => ?_
  split
  · exact only_bind only_done fun _ => only_bind (keeping_tasked _) fun _ => only_done
  · exact only_done
  · exact only_done

theorem safe_backupSucceed (workload : Workload) (target : BackupTarget) (task : PveTask) (n : Nat)
    (θ : OpState) (h : Tasked θ) : Safe rt (budget k) (BackupRunner.succeed rt workload target task) n θ := by
  refine safe_then (keeping_readMetadata workload target) h fun _ θ h => ?_
  refine safe_then (keeping_measureTransfer task) h fun _ θ h => safe_session spares_session (safe_row ?_)
  exact fun _ _ => safe_then keeping_now h fun _ θ h => safe_succeeded h

theorem safe_restoreSucceed (n : Nat) (θ : OpState) (h : Tasked θ) :
    Safe rt (budget k) RestoreRunner.succeed n θ := safe_then keeping_now h fun _ _ h => safe_succeeded h

theorem keeping_openRunnerClient (message : String) (cluster : Option Cluster)
    (credential : Option ClusterCredential) :
    Keeping rt (budget k) J (openRunnerClient message cluster credential) := by
  unfold openRunnerClient
  split
  · split
    · exact only_bind (keeping_op rfl rfl rfl) fun _ => only_done
    · exact only_done
  · exact only_done

/-- A session without a task has the submission in hand: nobody else can have it. -/
def Funded (n : Nat) (θ : OpState) : Prop := θ.current.task = none → 1 ≤ n

theorem safe_backupBody (operation : Operation) (workload : Workload) (target : BackupTarget)
    (run : BackupRun) (hk : operation.id = k) (hn : Funded n θ) :
    Safe rt (budget k) (BackupRunner.body rt operation workload target run) n θ := by
  refine safe_then (J := Funded n) (keeping_op rfl rfl rfl) hn fun cluster θ hn => ?_
  refine safe_then (J := Funded n) (keeping_op rfl rfl rfl) hn fun credential θ hn => ?_
  refine safe_then (keeping_openRunnerClient _ _ _) hn fun _ θ hn => safe_session spares_session ?_
  split
  · exact safe_startPoll (safe_backupSucceed workload target) n θ
  · next htask =>
    refine safe_submit rfl (hn htask) fun answer => ?_
    split
    · exact safe_only (keeping_submissionFailed _) trivial
    · trivial
    · exact safe_then (keeping_recordTask hk _ _ _ _ _) trivial fun _ θ _ =>
        safe_startPoll (safe_backupSucceed workload target) _ θ

theorem keeping_targetIsFree (restore : RestoreRun) :
    Keeping rt (budget k) J (RestoreRunner.targetIsFree rt restore) := by
  refine only_bind (keeping_call rfl) fun nodes => ?_
  split
  · exact only_bind (keeping_call rfl) fun _ => only_bind only_done fun _ => only_done
  · exact only_done

theorem safe_restoreBody (operation : Operation) (workload : Workload) (source : BackupRun)
    (restore : RestoreRun) (cluster : Cluster) (hk : operation.id = k) (hn : Funded n θ) :
    Safe rt (budget k) (RestoreRunner.body rt operation workload source restore cluster) n θ := by
  refine safe_then (J := Funded n) (keeping_op rfl rfl rfl) hn fun credential θ hn => ?_
  refine safe_then (keeping_openRunnerClient _ _ _) hn fun _ θ hn => safe_session spares_session ?_
  split
  · exact safe_startPoll (fun _ => safe_restoreSucceed) n θ
  · next htask =>
    refine safe_then (J := fun θ' => θ' = θ) (keeping_targetIsFree restore) rfl fun free θ' h => ?_
    cases h
    split
    · refine safe_submit rfl (hn htask) fun answer => ?_
      split
      · exact safe_only (keeping_submissionFailed _) trivial
      · trivial
      · exact safe_then (keeping_recordTask hk _ _ _ _ _) trivial fun _ θ _ =>
          safe_startPoll (fun _ => safe_restoreSucceed) _ θ
    · exact safe_only (keeping_fail _ _) trivial

/-- What either runner does with the error of its body. -/
theorem safe_handled (r : Except Exn Unit) (n : Nat) (θ : OpState) :
    Safe rt (budget k) (match r with
      | .ok () => return ()
      | .error (.app error) => do
        let task := (← session).task
        SubmissionRunner.fail error.code task.isSome
      | .error e => raise e) n θ := by
  split
  · trivial
  · exact safe_session spares_session (safe_only (keeping_fail _ _) trivial)
  · trivial

/-- What follows an admission of the operation keeps to the budget. -/
theorem safe_admitted {kind : RunnerKind} (hkind : kind ≠ .power) {id : Uuid}
    {f : Except Exn Admission → OpProg Unit} (hf : OpMessage.program rt ⟨kind, id⟩ = .node .enter f)
    {r : Except Exn Admission} (hr : ∀ b, r = .ok (.proceed b) → θ.Sound ∧ θ.operationId = k ∧ Funded n θ) :
    Safe rt (budget k) (f r) n θ := by
  cases kind with
  | power => exact absurd rfl hkind
  | backup =>
    cases hf
    cases r with
    | error e => trivial
    | ok a =>
      cases a with
      | ended | admin => trivial
      | proceed b =>
        obtain ⟨hsound, hid, hn⟩ := hr b rfl
        refine safe_session spares_session (safe_row fun operation ho => ?_)
        refine safe_row fun workload _ => safe_row fun target _ => safe_row fun run _ => ?_
        refine safe_attempt (safe_backupBody operation workload target run ?_ hn) safe_handled
        exact (hsound.current_named ho).trans hid
  | restore =>
    cases hf
    cases r with
    | error e => trivial
    | ok a =>
      cases a with
      | ended | admin => trivial
      | proceed b =>
        obtain ⟨hsound, hid, hn⟩ := hr b rfl
        refine safe_session spares_session (safe_row fun operation ho => safe_row fun workload _ => ?_)
        refine safe_row fun source _ => safe_row fun restore _ => safe_row fun cluster _ => ?_
        refine safe_attempt (safe_restoreBody operation workload source restore cluster ?_ hn)
          safe_handled
        exact (hsound.current_named ho).trans hid

end Programs

/-! ### Admission -/

section Admission
variable {i : Input} {w w' : World} {θ' : OpState} {b : Bool}

/-- An admission that goes on without a task has found the operation `QUEUED`. -/
theorem admitSubmission_proceed {code : String} {o : Operation} {s : OpSession}
    (row : s.operation = some o) (found : w.db.operations.get? o.id = some o)
    (unfinished : o.status.terminal = false)
    (h : admitSubmission rt code o s i θ w = (θ', w', .ok (.proceed b))) :
    (θ'.current.task = none → begun w.db o.id = false) ∧ begun w'.db o.id = true := by
  unfold admitSubmission at h
  simp only at h
  split at h
  · split at h
    · cases h
    · cases refuse_ok h
  · next hknown =>
    obtain ⟨-, rfl, rfl⟩ := commitStart_ok h
    refine ⟨fun htask => ?_, begun_started (s := { s with task := taskOf w.db o.id }) row found⟩
    have htask : taskOf w.db o.id = none := htask
    unfold stateUnknown at hknown
    rw [htask] at hknown
    unfold begun
    rw [found]
    cases hs : o.status with
    | queued => simp [hs]
    | running => rw [hs] at hknown; exact absurd rfl hknown
    | succeeded | failed | timeout => rw [hs] at unfinished; cases unfinished

theorem admitChecked_proceed {available authorized : Bool} {unavailable unknown : String}
    {o : Operation} {s : OpSession}
    (h : (if !available then refuse unavailable i (θ.load s) w
        else if !authorized then refuse "PERMISSION_REVOKED" i (θ.load s) w
        else admitSubmission rt unknown o s i θ w) = (θ', w', .ok (.proceed b))) :
    admitSubmission rt unknown o s i θ w = (θ', w', .ok (.proceed b)) := by
  cases available with
  | false => cases refuse_ok h
  | true =>
    cases authorized with
    | false => cases refuse_ok h
    | true => exact h

theorem enter_proceed (hkind : θ.kind ≠ .power)
    (h : enter rt i θ w = (θ', w', .ok (.proceed b))) :
    (θ'.current.task = none → begun w.db θ.operationId = false) ∧
      begun w'.db θ.operationId = true := by
  unfold enter at h
  cases hk : θ.kind with
  | power => exact absurd hk hkind
  | backup =>
    simp only [hk] at h
    unfold admitBackup at h
    cases ho : w.db.operations.get? θ.operationId with
    | none => rw [ho] at h; cases h
    | some o =>
      have hid : o.id = θ.operationId := Table.get?_key ho
      simp only [ho] at h
      split at h
      · cases h
      · next hopen =>
        rw [not_or, not_not] at hopen
        rw [← hid] at ho ⊢
        exact admitSubmission_proceed rfl ho (by simpa using hopen.2) (admitChecked_proceed h)
  | restore =>
    simp only [hk] at h
    unfold admitRestore at h
    cases ho : w.db.operations.get? θ.operationId with
    | none => rw [ho] at h; cases h
    | some o =>
      have hid : o.id = θ.operationId := Table.get?_key ho
      simp only [ho] at h
      split at h
      · cases h
      · next hopen =>
        rw [not_or, not_not] at hopen
        rw [← hid] at ho ⊢
        exact admitSubmission_proceed rfl ho (by simpa using hopen.2) (admitChecked_proceed h)

end Admission

/-! ### Runs -/

/-- What has been submitted, and what the row still entitles a delivery to. The sum is at most
one, whichever of the two it stands for. -/
def account (k : Uuid) (w : World) : Nat := submissions k w + entitlement 1 k w

structure Local (rt : Runtime) (k : Uuid) (θ : OpState) (p : OpProg Unit) (n : Nat) (w : World) :
    Prop where
  knows : Knows k θ w.db
  runner : θ.operationId = k → θ.kind ≠ .power
  stage : θ.operationId = k → Stage rt (budget k) k θ p n

/-- What the rest of the program may do to the operation: request it, and add tasks. It neither
submits nor changes a status. -/
structure Outside (k : Uuid) (w w' : World) : Prop where
  submissions : submissions k w' = submissions k w
  status : statusOf w'.db k = statusOf w.db k ∨
    statusOf w.db k = none ∧ statusOf w'.db k = some .queued
  tasks : hasTask w.db k = true → hasTask w'.db k = true

/-- Any number of deliveries, of the operation to a backup or restore runner; other operations to
whichever runner. -/
def deliveries (k : Uuid) : Conditions Exn RunnerOp OpState World Input OpMessage where
  spawn m _ := m.operationId = k → m.task ≠ .power
  env w w' := Outside k w w'

/-- What an action keeps for the others. -/
structure Kept (k : Uuid) (w w' : World) : Prop where
  tasks : hasTask w.db k = true → hasTask w'.db k = true

/-- The admission of a delivery: it takes what the row entitles it to. -/
theorem entered_next {i : Input} {w w' : World} {θ' : OpState} {r : Except Exn Admission}
    {f : Except Exn Admission → OpProg Unit} (hkind : θ.kind ≠ .power) (hk : θ.operationId = k)
    (hf : OpMessage.program rt ⟨θ.kind, k⟩ = .node .enter f) (hsound : θ'.Sound)
    (hentered : enter rt i θ w = (θ', w', r))
    (hbegun : begun w.db k = true → begun w'.db k = true) (hid : θ'.operationId = θ.operationId)
    (nothing : n = 0) (hsubmissions : submissions k w' = submissions k w) :
    ∃ n', account k w' + n' ≤ account k w + n ∧ Stage rt (budget k) k θ' (f r) n' := by
  by_cases hproceed : ∃ b, r = .ok (.proceed b)
  · obtain ⟨b, rfl⟩ := hproceed
    obtain ⟨hfunded, hafter⟩ := enter_proceed hkind hentered
    rw [hk] at hfunded hafter
    refine ⟨entitlement 1 k w, ?_, .admitted ?_⟩
    · unfold account
      rw [entitlement_begun hafter, hsubmissions, nothing]
      exact Nat.le_refl _
    · refine safe_admitted hkind hf fun _ _ => ⟨hsound, hid.trans hk, fun htask => ?_⟩
      rw [entitlement_unbegun (hfunded htask)]
  · refine ⟨0, ?_, .admitted (safe_admitted hkind hf fun b hb => ?_)⟩
    · rw [nothing]
      exact account_idle hbegun (le_of_eq hsubmissions)
    · exact absurd ⟨b, hb⟩ hproceed

variable (rt)

theorem ledger (k : Uuid) :
    Ledger (opMachine rt) (deliveries k) (fun w => Grounded k w.db) (Local rt k) (Kept k)
      (account k) 1 where
  refl _ := ⟨id⟩
  start m w _ hm := by
    refine ⟨knows_start m w.db, hm, fun hk => ?_⟩
    have hk : m.operationId = k := hk
    exact .waiting (by rw [← hk]; rfl) rfl
  step o rest i θ θ' n w w' r hI hL _ _ hexec := by
    have heffect := exec_effect rt hexec
    have hsubmissions : submissions k w' = submissions k w +
        if (calls submission o && θ.operationId == k) = true then 1 else 0 := exec_callCount hexec
    obtain ⟨hsound, hid, hkind⟩ := effect_sound heffect hL.knows.sound
    have hkept : Kept k w w' := ⟨effect_hasTask heffect⟩
    have hbegun := effect_begun (k := k) heffect hL.knows.sound
    have hrunner (hk : θ'.operationId = k) : θ'.kind ≠ .power := by
      rw [hkind]
      exact hL.runner (hid.symm.trans hk)
    by_cases hk : θ.operationId = k
    · cases hL.stage hk with
      | waiting program nothing =>
        obtain ⟨f, hf⟩ := program_enter rt θ.kind k
        rw [hf] at program
        cases program
        have hgrounded := effect_grounded heffect hL.knows hI fun _ _ hf => by cases hf
        have hknows := effect_knows heffect hL.knows fun _ _ ht => by cases ht
        have hentered : enter rt i θ w = (θ', w', r) := Option.some.inj hexec
        obtain ⟨n', hbalance, hstage⟩ := entered_next (hL.runner hk) hk hf hsound hentered hbegun hid
          nothing (by simpa [calls] using hsubmissions)
        exact ⟨hgrounded, hkept, n', hbalance, hknows, hrunner, fun _ => hstage⟩
      | admitted safe =>
        obtain ⟨⟨hfinish, hadded⟩, hnext⟩ := safe
        obtain ⟨n', hcost, hsafe⟩ := hnext i w θ' w' r trivial hexec
        refine ⟨effect_grounded heffect hL.knows hI fun _ => hfinish, hkept, n', ?_,
          effect_knows heffect hL.knows fun _ => hadded, hrunner, fun _ => .admitted hsafe⟩
        have hpaid : submissions k w' = submissions k w + (budget k).cost o i θ w := by
          rw [hsubmissions]
          show _ = _ + if calls submission o = true then 1 else 0
          simp only [hk, beq_self_eq_true, Bool.and_true]
        exact account_step hbegun (le_of_eq hpaid) hcost
    · refine ⟨effect_grounded heffect hL.knows hI fun h => absurd h hk, hkept, n, ?_,
        effect_knows heffect hL.knows fun h => absurd h hk, hrunner,
        fun h => absurd (hid.symm.trans h) hk⟩
      rw [if_neg (by simp [hk])] at hsubmissions
      exact Nat.add_le_add_right (account_idle hbegun (le_of_eq hsubmissions)) n
  drop θ p n w hI _ := ⟨hI, ⟨id⟩, Nat.le_refl _⟩
  env w w' hI h := by
    refine ⟨fun hs => ?_, ⟨h.tasks⟩, ?_⟩
    · rcases h.status with hsame | ⟨-, hnew⟩
      · rw [hsame] at hs
        exact h.tasks (hI hs)
      · rw [hnew] at hs
        cases hs
    · exact account_idle (Routing.begun_outside h.status) (le_of_eq h.submissions)
  stable θ p n w w' hG hL :=
    ⟨⟨hL.knows.sound, fun hk ht => hG.tasks (hL.knows.tasked hk ht)⟩, hL.runner, hL.stage⟩

/-- The operation as its request inserts it, or not yet there, and nothing done for it. -/
def Requested (k : Uuid) (w : World) : Prop :=
  begun w.db k = false ∧ submissions k w = 0

instance (k : Uuid) (w : World) : Decidable (Requested k w) := inferInstanceAs (Decidable (_ ∧ _))

/-- The state after a run of deliveries. -/
def reached (w : World) (actions : List OpAction) : World :=
  (runFrom (Sys.next (opMachine rt)) (Sys.idle w) actions).shared

/-- **At most one submission.** Over every run of deliveries, with crashes anywhere and any
answers, a backup or a restore is submitted once at most; and an operation that was
submitted and has no persisted task is `RUNNING`, or it has become `FAILED` or `TIMEOUT`. -/
theorem submitted_once (k : Uuid) (w : World) (hw : Requested k w) (actions : List OpAction)
    (hrun : Along (Sys.next (opMachine rt)) (deliveries k).Met (Sys.idle w) actions) :
    submissions k (reached rt w actions) ≤ 1 ∧
      (submissions k (reached rt w actions) = 1 → hasTask (reached rt w actions).db k = false →
        ∃ s, statusOf (reached rt w actions).db k = some s ∧
          (s = .running ∨ s = .failed ∨ s = .timeout)) := by
  have hstart : Grounded k w.db := by
    intro hs
    have hbegun := hw.1
    rw [Routing.begun_status, hs] at hbegun
    cases hbegun
  have haccount : account k w ≤ 1 := by
    unfold account
    rw [hw.2, entitlement_unbegun hw.1]
  have hend := (ledger rt k).run (Sys.accounted_idle hstart haccount) hrun
  have hle : account k (reached rt w actions) ≤ 1 := Ledger.account_le hend
  unfold account at hle
  refine ⟨by omega, fun hone htask => ?_⟩
  have hbegun : begun (reached rt w actions).db k = true := by
    by_contra hb
    rw [entitlement_unbegun (by simpa using hb)] at hle
    omega
  obtain ⟨o, ho, hq⟩ := begun_iff.mp hbegun
  refine ⟨o.status, by unfold statusOf; rw [ho]; rfl, ?_⟩
  have hgrounded : Grounded k (reached rt w actions).db := hend.shared
  cases hs : o.status with
  | queued => exact absurd hs hq
  | running => exact Or.inl rfl
  | failed => exact Or.inr (Or.inl rfl)
  | timeout => exact Or.inr (Or.inr rfl)
  | succeeded =>
    have : statusOf (reached rt w actions).db k = some .succeeded := by
      unfold statusOf
      rw [ho, Option.map_some, hs]
    rw [hgrounded this] at htask
    cases htask

/-! A delivery lost between its submission and the commit of its task, and the next one. -/

instance (k : Uuid) (w w' : World) : Decidable (Outside k w w') :=
  decidable_of_iff (submissions k w' = submissions k w ∧
    (statusOf w'.db k = statusOf w.db k ∨
      statusOf w.db k = none ∧ statusOf w'.db k = some .queued) ∧
    (hasTask w.db k = true → hasTask w'.db k = true))
    ⟨fun h => ⟨h.1, h.2.1, h.2.2⟩, fun h => ⟨h.submissions, h.status, h.tasks⟩⟩

instance (k : Uuid) (m : OpMessage) (w : World) : Decidable ((deliveries k).spawn m w) :=
  inferInstanceAs (Decidable (_ → _))

instance (k : Uuid) (θ : OpState) (p : OpProg Unit) (i : Input) (w : World) :
    Decidable ((deliveries k).step θ p i w) := .isTrue trivial

instance (k : Uuid) (θ : OpState) (p : OpProg Unit) (w : World) :
    Decidable ((deliveries k).crash θ p w) := .isTrue trivial

instance (k : Uuid) (w w' : World) : Decidable ((deliveries k).env w w') :=
  inferInstanceAs (Decidable (Outside k w w'))

def backupRequested : BackupRun where
  id := 1
  operationId := 1
  backupTargetId := 1
  workloadId := 1
  mode := "snapshot"
  compression := "zstd"
  status := .queued
  snapshotVolumeId := none
  snapshotTime := none
  sizeBytes := none
  transferredBytes := none
  startedAt := none
  finishedAt := none

/-- One workload with a target, and a backup requested for it. -/
def backupWorld : World :=
  let w := sampleWorld .workloadBackup
  { w with db := { w.db with
    backupTargets := .single ⟨1, 1, "pbs", true⟩
    backupRuns := .single backupRequested } }

def backupInput : Input where
  answers
    | .submitGuestBackup .. => .ok "UPID:1"
    | r => sampleAnswers "stopped" r
  uuid n := 100 + n
  random _ := 0
  client := .ok ()
  reject := none

/-- A delivery that is lost right after its submission was answered, and another one after the
lease. -/
def lostSubmission : List OpAction :=
  .spawn 0 ⟨.backup, 1⟩ :: List.replicate 7 (.step 0 backupInput) ++
    [.crash 0, .env (fun w => { w with clock := 61 * second }), .spawn 1 ⟨.backup, 1⟩,
      .step 1 backupInput]

theorem submitted_once_lost :
    submissions 1 (reached asciiRuntime backupWorld lostSubmission) = 1 ∧
      ∃ s, statusOf (reached asciiRuntime backupWorld lostSubmission).db 1 = some s ∧
        (s = .running ∨ s = .failed ∨ s = .timeout) := by
  have h := submitted_once asciiRuntime 1 backupWorld (by decide) lostSubmission (by decide +kernel)
  have hone : submissions 1 (reached asciiRuntime backupWorld lostSubmission) = 1 := by
    decide +kernel
  exact ⟨hone, h.2 hone (by decide +kernel)⟩

end PveMaster.Submission
