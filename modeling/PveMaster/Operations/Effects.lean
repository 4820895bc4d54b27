import PveMaster.Operations.System

/-! What one operation of a runner can do, said once.

`OpEffect` lists the changes an operation can make to a runner's session and to the
database: nothing but assignments, a rollback, a commit of what was assigned, a load
of a row that has not ended, or such a load followed by the commit that starts the
operation or by a `_finish`. Every invariant of the runners is a case analysis of it. -/
namespace PveMaster

/-! ### Flushes -/

/-- What a flush makes of a row: the one that was loaded is merged, and every other stays. -/
def flushed {α : Type} [Keyed α Uuid] (f : α → α → α → α) (loaded current : Option α) (r : α) : α :=
  match loaded, current with
  | some l, some c => if Keyed.key l = Keyed.key r then f l c r else r
  | _, _ => r

section Flushed
variable {α : Type} [Keyed α Uuid] {f : α → α → α → α} {loaded current : Option α} {t : Table α}

theorem key_flushed (hf : ∀ l c r, Keyed.key (f l c r) = Keyed.key r) (r : α) :
    Keyed.key (flushed f loaded current r) = Keyed.key r := by
  unfold flushed
  split
  · split
    · exact hf _ _ r
    · rfl
  · rfl

theorem mem_flushRow (hf : ∀ l c r, Keyed.key (f l c r) = Keyed.key r) {r' : α} :
    r' ∈ flushRow f loaded current t ↔ ∃ r ∈ t, flushed f loaded current r = r' := by
  have same : r' ∈ t ↔ ∃ r ∈ t, r = r' := ⟨fun h => ⟨r', h, rfl⟩, fun ⟨r, h, he⟩ => he ▸ h⟩
  cases loaded with
  | none => exact same
  | some l =>
    cases current with
    | none => exact same
    | some c =>
      have hrow (r : α) : Table.amend (Keyed.key l) (f l c) r = flushed f (some l) (some c) r := by
        show Table.amend (Keyed.key l) (f l c) r = if Keyed.key l = Keyed.key r then f l c r else r
        by_cases hk : Keyed.key l = Keyed.key r
        · rw [if_pos hk]
          exact Table.amend_of_key hk.symm (hf l c r)
        · rw [if_neg hk]
          exact Table.amend_of_ne _ (Ne.symm hk)
      simp only [← hrow]
      exact Table.mem_update

theorem get?_flushRow (hf : ∀ l c r, Keyed.key (f l c r) = Keyed.key r) (k : Uuid) :
    (flushRow f loaded current t).get? k = (t.get? k).map (flushed f loaded current) := by
  cases hg : t.get? k with
  | none =>
    refine Table.get?_eq_none.mpr fun r' hr' he => ?_
    obtain ⟨r, hr, rfl⟩ := (mem_flushRow hf).mp hr'
    rw [key_flushed hf] at he
    exact Table.get?_eq_none.mp hg r hr he
  | some r =>
    refine Table.get?_eq_some.mpr ⟨(mem_flushRow hf).mpr ⟨r, Table.get?_mem hg, rfl⟩, ?_⟩
    rw [key_flushed hf]
    exact Table.get?_key hg

end Flushed

/-! ### The operation's row -/

/-- Which operations a runner's `run` goes on with. The power runner looks at the action only,
after its first queries and its first commit. -/
def RunnerKind.accepts : RunnerKind → OperationType → Prop
  | .power, _ => True
  | .backup, t => t = .workloadBackup
  | .restore, t => t = .workloadRestore

/-- What a flush makes of an operation's row. -/
theorem flush_operation (θ : OpState) (db : Db) (k : Uuid) :
    (θ.flush db).operations.get? k =
      match θ.loaded.operation, θ.current.operation with
      | some l, some c =>
        if l.id = k then (db.operations.get? k).map (Operation.merge l c) else db.operations.get? k
      | _, _ => db.operations.get? k := by
  show (flushRow Operation.merge θ.loaded.operation θ.current.operation db.operations).get? k = _
  cases hl : θ.loaded.operation with
  | none => rfl
  | some l =>
    cases hc : θ.current.operation with
    | none => rfl
    | some c =>
      by_cases hk : l.id = k
      · simp only [if_pos hk]
        rw [← hk]
        exact Table.get?_update_self _ _ (fun _ => rfl)
      · simp only [if_neg hk]
        exact Table.get?_update_of_ne _ (Ne.symm hk)

/-- The row of a session's own operation. -/
theorem flush_own {θ : OpState} {db : Db} {l c o : Operation} (hl : θ.loaded.operation = some l)
    (hc : θ.current.operation = some c) (found : db.operations.get? l.id = some o) :
    (θ.flush db).operations.get? l.id = some (Operation.merge l c o) := by
  have hflush := flush_operation θ db l.id
  rw [hl, hc] at hflush
  simp only [if_true] at hflush
  rw [hflush, found]
  rfl

theorem merge_beat (t : Option Instant) (l s : Operation) :
    ∃ h, Operation.merge l (beat t l) s = { s with heartbeatAt := h } := by
  cases t <;> simp [Operation.merge, beat]

/-- The row a transaction has read is the row it starts from. -/
theorem merge_fresh (c s : Operation) : (Operation.merge s c s).status = c.status ∧
    (Operation.merge s c s).operationType = s.operationType := by
  simp [Operation.merge]

@[simp] theorem beat_id (t : Option Instant) (o : Operation) : (beat t o).id = o.id := by
  cases t <;> rfl

@[simp] theorem beat_status (t : Option Instant) (o : Operation) :
    (beat t o).status = o.status := by
  cases t <;> rfl

@[simp] theorem beat_operationType (t : Option Instant) (o : Operation) :
    (beat t o).operationType = o.operationType := by
  cases t <;> rfl

theorem beat_beat (t t' : Option Instant) (o : Operation) :
    beat t' (beat t o) = beat (t'.or t) o := by
  cases t' <;> cases t <;> rfl

/-! ### The changes -/

/-- A session loaded for the operation with a given row, which has not ended. The other rows are
those the runner's queries find beside it. -/
structure Loads (θ : OpState) (db : Db) (s : OpSession) (o : Operation) : Prop where
  row : s.operation = some o
  named : o.id = θ.operationId
  found : db.operations.get? o.id = some o
  unfinished : o.status.terminal = false
  accepts : θ.kind.accepts o.operationType
  task : ∀ t, s.task = some t → taskOf db o.id = some t
  workload : ∀ wl, s.workload = some wl → db.workloads.get? o.workloadId = some wl
  backupRun : s.backupRun =
    if θ.kind = .backup then db.backupRuns.first (fun r => r.operationId == o.id) else none
  restoreRun : s.restoreRun =
    if θ.kind = .restore then db.restoreRuns.first (fun r => r.operationId == o.id) else none

/-- The session after a commit: what was assigned is what is loaded. -/
def OpState.saved (θ : OpState) : OpState := θ.load θ.current

/-- The database after the `_finish` of a session: the rows it has assigned, and one audit event
behind the others. -/
def finishedDb (θ : OpState) (f : Finish) (db : Db) : Db :=
  { (θ.finished f).flush db with
    auditLogs := db.auditLogs ++ (θ.current.operation.map (finishAudit θ f)).toList }

/-- `_finish` outside an admitting transaction. -/
def RunnerOp.finishes {ρ : Type} : RunnerOp ρ → Bool
  | .finish _ => true
  | _ => false

def RunnerOp.enters {ρ : Type} : RunnerOp ρ → Bool
  | .enter => true
  | _ => false

def RunnerOp.finishWith {ρ : Type} : RunnerOp ρ → Option Finish
  | .finish f => some f
  | _ => none

/-- The call an operation makes. -/
def RunnerOp.called {ρ : Type} (o : RunnerOp ρ) (i : Input) (θ : OpState) : List Called :=
  match o with
  | .call r => [⟨θ.caller, r, i.answers r⟩]
  | _ => []

def RunnerOp.assigned {ρ : Type} : RunnerOp ρ → Option Edit
  | .assign e => some e
  | _ => none

def RunnerOp.added {ρ : Type} : RunnerOp ρ → Option PveTask
  | .addTask t => some t
  | _ => none

/-- The session with a task of its own. -/
def OpState.withTask (θ : OpState) (t : PveTask) : OpState :=
  { θ with current := { θ.current with task := some t } }

/-- The changes an operation of a runner can make to its session and to the database. There are no
others (`exec_effect`), so what each of these keeps, every run keeps. -/
inductive OpEffect {ρ : Type} (now : Instant) (op : RunnerOp ρ) (θ : OpState) (db : Db) :
    OpState → Db → Prop
  | assigned {e : Edit} (h : e = {} ∨ op.assigned = some e) : OpEffect now op θ db (θ.assign e) db
  | rolledBack : OpEffect now op θ db θ.rolledBack db
  | saved : OpEffect now op θ db θ.saved (θ.flush db)
  | submitted {t : PveTask} {tasks : Table PveTask} (h : op.added = some t)
      (inserted : db.pveTasks.insert t = some tasks) :
      OpEffect now op θ db (θ.withTask t).saved { θ.flush db with pveTasks := tasks }
  | finished {f : Finish} (h : op.finishWith = some f) :
      OpEffect now op θ db (θ.finished f).saved (finishedDb θ f db)
  | loaded (enters : op.enters = true) {s : OpSession} {o : Operation} (loads : Loads θ db s o) :
      OpEffect now op θ db (θ.load s) db
  | started (enters : op.enters = true) {s : OpSession} {o : Operation} (loads : Loads θ db s o) :
      OpEffect now op θ db ((θ.load s).started now).saved (((θ.load s).started now).flush db)
  | refused (enters : op.enters = true) {s : OpSession} {o : Operation} (loads : Loads θ db s o)
      {f : Finish} (failed : f.status = .failed) (plain : f.result = id) :
      OpEffect now op θ db ((θ.load s).finished f).saved (finishedDb (θ.load s) f db)

theorem finishes_of_finishWith {ρ : Type} {op : RunnerOp ρ} {f : Finish}
    (h : op.finishWith = some f) : op.finishes = true := by
  cases op <;> first | rfl | cases h

/-! ### The changes of each operation -/

section Effects
variable {now : Instant} {ρ : Type} {op : RunnerOp ρ} {θ : OpState} {db : Db}

theorem OpState.assign_nothing (θ : OpState) : θ.assign {} = θ := by
  obtain ⟨kind, operationId, loaded, current⟩ := θ
  obtain ⟨operation, workload, actor, task, backupRun, target, restoreRun, source, cluster⟩ :=
    current
  simp only [OpState.assign, OpSession.edit, Option.map_id, id_eq]
  cases operation <;> rfl

/-- Nothing happens. -/
theorem OpEffect.none : OpEffect now op θ db θ db := by
  have : OpEffect now op θ db (θ.assign {}) db := .assigned (Or.inl rfl)
  rwa [OpState.assign_nothing] at this

/-- A commit is refused and rolled back, or it goes through. -/
theorem commitTo_cases (i : Input) (θ : OpState) (w : World) (db : Db) :
    (∃ e, commitTo i θ w db = (θ.rolledBack, w, .error e)) ∨
      commitTo i θ w db = (θ.saved, w.setDb db, .ok ()) := by
  unfold commitTo
  cases i.reject with
  | none => exact Or.inr rfl
  | some e => exact Or.inl ⟨e, rfl⟩

variable (rt : Runtime) (i : Input) (w : World)

/-- A session with the row of another one, and the task of that row if it has any. -/
structure Extends (db : Db) (o : Operation) (s s' : OpSession) : Prop where
  row : s'.operation = s.operation
  workload : s'.workload = s.workload
  backupRun : s'.backupRun = s.backupRun
  restoreRun : s'.restoreRun = s.restoreRun
  task : ∀ t, s'.task = some t → taskOf db o.id = some t

theorem Extends.of_none {o : Operation} {s : OpSession} (h : s.task = none) : Extends db o s s :=
  ⟨rfl, rfl, rfl, rfl, fun t ht => by rw [h] at ht; cases ht⟩

theorem extends_task (db : Db) (o : Operation) (s : OpSession) :
    Extends db o s { s with task := taskOf db o.id } := ⟨rfl, rfl, rfl, rfl, fun _ ht => ht⟩

/-- The outcomes of an admission that goes on with a row: it leaves, commits the start of the
operation, or refuses it for good. -/
def Admits (w : World) (i : Input) (θ : OpState) (s : OpSession)
    (out : OpState × World × Except Exn Admission) : Prop :=
  out = (θ.load s, w, .ok .ended) ∨ (∃ a, out = commitStart a i (θ.load s) w) ∨
    ∃ code, out = refuse code i (θ.load s) w

theorem admitAdmin_cases {s : OpSession} :
    Admits w i θ s (admitAdmin i (θ.load s) w) := by
  unfold admitAdmin
  split
  · exact Or.inr (Or.inr ⟨_, rfl⟩)
  · split
    · exact Or.inr (Or.inr ⟨_, rfl⟩)
    · split
      · exact Or.inr (Or.inl ⟨_, rfl⟩)
      · exact Or.inr (Or.inr ⟨_, rfl⟩)

theorem admitPowerAction_cases (o : Operation) {s : OpSession} (hs : s.task = none) :
    ∃ s', Extends w.db o s s' ∧ Admits w i θ s' (admitPowerAction rt o s i θ w) := by
  unfold admitPowerAction
  split
  · exact ⟨s, .of_none hs, Or.inr (Or.inr ⟨_, rfl⟩)⟩
  · split
    · exact ⟨s, .of_none hs, Or.inr (Or.inr ⟨_, rfl⟩)⟩
    · split
      · refine ⟨{ s with task := taskOf w.db o.id }, extends_task w.db o s, ?_⟩
        simp only
        split
        · exact Or.inl rfl
        · exact Or.inr (Or.inl ⟨_, rfl⟩)
      · exact ⟨s, .of_none hs, Or.inr (Or.inr ⟨_, rfl⟩)⟩

theorem admitSubmission_cases (code : String) (o : Operation) (s : OpSession) :
    ∃ s', Extends w.db o s s' ∧ Admits w i θ s' (admitSubmission rt code o s i θ w) := by
  refine ⟨{ s with task := taskOf w.db o.id }, extends_task w.db o s, ?_⟩
  unfold admitSubmission
  simp only
  split
  · split
    · exact Or.inl rfl
    · exact Or.inr (Or.inr ⟨_, rfl⟩)
  · exact Or.inr (Or.inl ⟨_, rfl⟩)

/-- The checks the backup and restore runners make of the rows they read. -/
theorem admitChecked_cases {available authorized : Bool} {unavailable unknown : String}
    (o : Operation) {s : OpSession} (hs : s.task = none) :
    ∃ s', Extends w.db o s s' ∧ Admits w i θ s'
      (if !available then refuse unavailable i (θ.load s) w
        else if !authorized then refuse "PERMISSION_REVOKED" i (θ.load s) w
        else admitSubmission rt unknown o s i θ w) := by
  cases available with
  | false => exact ⟨s, .of_none hs, Or.inr (Or.inr ⟨_, rfl⟩)⟩
  | true =>
    cases authorized with
    | false => exact ⟨s, .of_none hs, Or.inr (Or.inr ⟨_, rfl⟩)⟩
    | true => exact admitSubmission_cases rt i w unknown o s

/-- **What `run` does up to its first commit**: nothing, or it goes on with a row
that its runner accepts and that has not ended. -/
theorem enter_cases :
    enter rt i θ w = (θ, w, .ok .ended) ∨
      ∃ s o, Loads θ w.db s o ∧ Admits w i θ s (enter rt i θ w) := by
  unfold enter
  cases hk : θ.kind with
  | power =>
    unfold admitPower
    cases ho : w.db.operations.get? θ.operationId with
    | none => exact Or.inl rfl
    | some o =>
      have hid : o.id = θ.operationId := Table.get?_key ho
      simp only
      split
      · exact Or.inl rfl
      · next hopen =>
        right
        let s : OpSession :=
          { operation := some o
            workload := w.db.workloads.get? o.workloadId
            actor := w.db.users.get? o.requestedById }
        have loads {s' : OpSession} (hs : Extends w.db o s s') : Loads θ w.db s' o :=
          ⟨hs.row, hid, by rw [hid, ho], by simpa using hopen, by rw [hk]; trivial, hs.task,
            fun wl hwl => hs.workload.symm.trans hwl, by rw [hk]; exact hs.backupRun,
            by rw [hk]; exact hs.restoreRun⟩
        split
        · exact ⟨s, o, loads (.of_none rfl), admitAdmin_cases i w⟩
        · obtain ⟨s', hs', hcases⟩ := admitPowerAction_cases rt i w o (s := s) rfl
          exact ⟨s', o, loads hs', hcases⟩
  | backup =>
    unfold admitBackup
    cases ho : w.db.operations.get? θ.operationId with
    | none => exact Or.inl rfl
    | some o =>
      have hid : o.id = θ.operationId := Table.get?_key ho
      simp only
      split
      · exact Or.inl rfl
      · next hopen =>
        rw [not_or, not_not] at hopen
        obtain ⟨s, hs, hcases⟩ := admitChecked_cases rt i w o (s := backupSession w.db o) rfl
        exact Or.inr ⟨s, o, ⟨hs.row, hid, by rw [hid, ho], by simpa using hopen.2,
          by rw [hk]; exact hopen.1, hs.task, fun wl hwl => hs.workload.symm.trans hwl,
          by rw [hk]; exact hs.backupRun, by rw [hk]; exact hs.restoreRun⟩, hcases⟩
  | restore =>
    unfold admitRestore
    cases ho : w.db.operations.get? θ.operationId with
    | none => exact Or.inl rfl
    | some o =>
      have hid : o.id = θ.operationId := Table.get?_key ho
      simp only
      split
      · exact Or.inl rfl
      · next hopen =>
        rw [not_or, not_not] at hopen
        obtain ⟨s, hs, hcases⟩ := admitChecked_cases rt i w o (s := restoreSession w.db o) rfl
        exact Or.inr ⟨s, o, ⟨hs.row, hid, by rw [hid, ho], by simpa using hopen.2,
          by rw [hk]; exact hopen.1, hs.task, fun wl hwl => hs.workload.symm.trans hwl,
          by rw [hk]; exact hs.backupRun, by rw [hk]; exact hs.restoreRun⟩, hcases⟩

/-- What an operation leaves behind, as an effect. -/
def Leaves {α : Type} (op : RunnerOp ρ) (θ : OpState) (w : World) (out : OpState × World × α) : Prop :=
  OpEffect w.clock op θ w.db out.1 out.2.1.db

theorem commitFinish_leaves (f : Finish) : Leaves (.finish f) θ w (commitFinish f i θ w) := by
  rcases commitTo_cases i (θ.finished f) w (finishedDb θ f w.db) with ⟨e, h⟩ | h
  · show Leaves _ θ w (commitTo i (θ.finished f) w (finishedDb θ f w.db))
    rw [h]
    exact .rolledBack
  · show Leaves _ θ w (commitTo i (θ.finished f) w (finishedDb θ f w.db))
    rw [h]
    exact .finished rfl

theorem commitTask_leaves (t : PveTask) : Leaves (.addTask t) θ w (commitTask t i θ w) := by
  unfold commitTask
  split
  · exact .rolledBack
  · next tasks hinsert =>
    split
    · rcases commitTo_cases i (θ.withTask t) w { θ.flush w.db with pveTasks := tasks } with
        ⟨e, h⟩ | h
      · show Leaves _ θ w (commitTo i (θ.withTask t) w _)
        rw [h]
        exact .rolledBack
      · show Leaves _ θ w (commitTo i (θ.withTask t) w _)
        rw [h]
        exact .submitted rfl hinsert
    · exact .rolledBack

theorem commitEdits_leaves : Leaves op θ w (commitEdits i θ w) := by
  rcases commitTo_cases i θ w (θ.flush w.db) with ⟨e, h⟩ | h
  · unfold commitEdits
    rw [h]
    exact .rolledBack
  · unfold commitEdits
    rw [h]
    exact .saved

/-- An admitting transaction either leaves its row as it loaded it, starts it or ends it. -/
theorem enter_leaves : Leaves .enter θ w (enter rt i θ w) := by
  rcases enter_cases rt i w with h | ⟨s, o, loads, h | ⟨a, h⟩ | ⟨code, h⟩⟩
  · rw [h]
    exact .none
  · rw [h]
    exact .loaded rfl loads
  · rw [h]
    rcases commitTo_cases i ((θ.load s).started w.clock) w
      (((θ.load s).started w.clock).flush w.db) with ⟨e, hc⟩ | hc
    · unfold commitStart commitEdits
      rw [hc]
      exact .loaded rfl loads
    · unfold commitStart commitEdits
      rw [hc]
      exact .started rfl loads
  · rw [h]
    let f : Finish :=
      { time := w.clock, status := .failed, errorCode := some code, retryable := false }
    show Leaves .enter θ w
      (Admission.ended.after (commitTo i ((θ.load s).finished f) w (finishedDb (θ.load s) f w.db)))
    rcases commitTo_cases i ((θ.load s).finished f) w (finishedDb (θ.load s) f w.db) with
      ⟨e, hc⟩ | hc
    · rw [hc]
      exact .loaded rfl loads
    · rw [hc]
      exact .refused rfl loads rfl rfl

theorem commitTo_world (θ : OpState) (db : Db) :
    (commitTo i θ w db).2.1 = w.setDb (commitTo i θ w db).2.1.db := by
  rcases commitTo_cases i θ w db with ⟨e, h⟩ | h <;> rw [h] <;> rfl

theorem commitTask_world (t : PveTask) :
    (commitTask t i θ w).2.1 = w.setDb (commitTask t i θ w).2.1.db := by
  unfold commitTask
  split
  · rfl
  · split
    · exact commitTo_world i w _ _
    · rfl

theorem after_world (a : Admission) {out : OpState × World × Except Exn Unit}
    (h : out.2.1 = w.setDb out.2.1.db) : (a.after out).2.1 = w.setDb (a.after out).2.1.db := by
  obtain ⟨θ, w', r⟩ := out
  cases r <;> exact h

theorem enter_world : (enter rt i θ w).2.1 = w.setDb (enter rt i θ w).2.1.db := by
  rcases enter_cases rt i w with h | ⟨s, o, -, h | ⟨a, h⟩ | ⟨code, h⟩⟩
  · rw [h]
    rfl
  · rw [h]
    rfl
  · rw [h]
    exact after_world w a (commitTo_world i w _ _)
  · rw [h]
    exact after_world w .ended (commitTo_world i w _ _)

/-- Beside the database an operation changes the calls made. -/
theorem exec_world (o : RunnerOp ρ) :
    (o.exec rt i θ w).2.1 =
      { w with db := (o.exec rt i θ w).2.1.db, calls := w.calls ++ o.called i θ } := by
  have quiet {w' : World} (h : w' = w.setDb w'.db) :
      w' = { w with db := w'.db, calls := w.calls ++ [] } := by
    rw [List.append_nil]
    exact h
  cases o with
  | enter => exact quiet (enter_world rt i w)
  | commit => exact quiet (commitTo_world i w θ _)
  | addTask t => exact quiet (commitTask_world i w t)
  | finish f => exact quiet (commitTo_world i w _ _)
  | call r => rfl
  | _ => exact quiet (show w = w.setDb w.db from rfl)

/-- **Every operation of a runner has one of the listed effects.** -/
theorem exec_leaves (o : RunnerOp ρ) : Leaves o θ w (o.exec rt i θ w) := by
  cases o with
  | enter => exact enter_leaves rt i w
  | commit => exact commitEdits_leaves i w
  | addTask t => exact commitTask_leaves i w t
  | finish f => exact commitFinish_leaves i w f
  | assign e => exact .assigned (Or.inr rfl)
  | _ => exact .none

theorem exec_effect {o : RunnerOp ρ} {i : Input} {θ' : OpState} {w w' : World} {r : ρ}
    (h : (opMachine rt).exec o i θ w = some (θ', w', r)) :
    OpEffect w.clock o θ w.db θ' w'.db := by
  have hleaves := exec_leaves (θ := θ) rt i w o
  have hout : o.exec rt i θ w = (θ', w', r) := Option.some.inj h
  unfold Leaves at hleaves
  rwa [hout] at hleaves

end Effects

/-! ### What an effect does to the session and to a row -/

/-- The operations change by a flush at most. -/
theorem effect_operations {now : Instant} {ρ : Type} {op : RunnerOp ρ} {θ θ' : OpState} {db db' : Db}
    (he : OpEffect now op θ db θ' db') :
    ∃ l c, db'.operations = flushRow Operation.merge l c db.operations := by
  cases he with
  | assigned | rolledBack | loaded => exact ⟨none, none, rfl⟩
  | saved | submitted | finished | started | refused => exact ⟨_, _, rfl⟩

/-- A session holds the row of its own operation, and has assigned no more than a heartbeat
to it since it read it. -/
structure OpState.Sound (θ : OpState) : Prop where
  held : ∃ t, θ.current.operation = θ.loaded.operation.map (beat t)
  named : ∀ o, θ.loaded.operation = some o → o.id = θ.operationId

/-- What can become of a status: it stays, an admission makes it `RUNNING` or `FAILED`, or a
`_finish` writes its own. Only the admission looks at what it was. -/
inductive StatusStep {ρ : Type} (op : RunnerOp ρ) (before : OperationStatus) :
    OperationStatus → Prop
  | kept : StatusStep op before before
  | started (enters : op.enters = true) (unfinished : before.terminal = false) :
      StatusStep op before .running
  | refused (enters : op.enters = true) (unfinished : before.terminal = false) :
      StatusStep op before .failed
  | finished {f : Finish} (h : op.finishWith = some f) : StatusStep op before f.status

section Rows
variable {now : Instant} {ρ : Type} {op : RunnerOp ρ} {θ θ' : OpState} {db db' : Db}

theorem OpState.Sound.of_named {θ : OpState} {s : OpSession}
    (h : ∀ o, s.operation = some o → o.id = θ.operationId) : (θ.load s).Sound := by
  refine ⟨⟨none, ?_⟩, h⟩
  show s.operation = s.operation.map (beat none)
  cases s.operation <;> rfl

theorem sound_start (kind : RunnerKind) (id : Uuid) :
    OpState.Sound { kind := kind, operationId := id } := by
  refine ⟨⟨none, rfl⟩, fun o ho => ?_⟩
  have : (none : Option Operation) = some o := ho
  cases this

/-- A row that has been held keeps its name. -/
theorem OpState.Sound.current_named (h : θ.Sound) {o : Operation}
    (ho : θ.current.operation = some o) : o.id = θ.operationId := by
  obtain ⟨t, held⟩ := h.held
  rw [held] at ho
  obtain ⟨l, hl, rfl⟩ := Option.map_eq_some_iff.mp ho
  rw [beat_id]
  exact h.named l hl

theorem Loads.load_sound {s : OpSession} {o : Operation} (loads : Loads θ db s o) :
    (θ.load s).Sound := by
  refine .of_named fun o' ho' => ?_
  have : o = o' := Option.some.inj (loads.row.symm.trans ho')
  rw [← this, loads.named]

theorem sound_finished (h : θ.Sound) (f : Finish) : (θ.finished f).saved.Sound := by
  refine .of_named fun o ho => ?_
  obtain ⟨c, hc, rfl⟩ := Option.map_eq_some_iff.mp ho
  have hid := h.current_named hc
  exact hid

/-- The sessions stay sound, and with their operation. -/
theorem effect_sound (he : OpEffect now op θ db θ' db') (h : θ.Sound) :
    θ'.Sound ∧ θ'.operationId = θ.operationId ∧ θ'.kind = θ.kind := by
  cases he with
  | @assigned e =>
    obtain ⟨t, held⟩ := h.held
    refine ⟨⟨⟨e.heartbeatAt.or t, ?_⟩, h.named⟩, rfl, rfl⟩
    show θ.current.operation.map (beat e.heartbeatAt) = θ.loaded.operation.map (beat _)
    rw [held, Option.map_map]
    congr 1
    funext o
    exact beat_beat t e.heartbeatAt o
  | rolledBack => exact ⟨.of_named h.named, rfl, rfl⟩
  | saved => exact ⟨.of_named fun o ho => h.current_named ho, rfl, rfl⟩
  | submitted => exact ⟨.of_named fun o ho => h.current_named ho, rfl, rfl⟩
  | finished => exact ⟨sound_finished h _, rfl, rfl⟩
  | loaded _ loads => exact ⟨loads.load_sound, rfl, rfl⟩
  | started _ loads =>
    refine ⟨.of_named fun o ho => ?_, rfl, rfl⟩
    obtain ⟨c, hc, rfl⟩ := Option.map_eq_some_iff.mp ho
    have hid := loads.load_sound.current_named hc
    exact hid
  | refused _ loads => exact ⟨sound_finished loads.load_sound _, rfl, rfl⟩

/-- What a session makes of a row: nothing of any other than its own, and of its own the status at
most, as far as these columns go. -/
structure RowStep {ρ : Type} (op : RunnerOp ρ) (own : Prop) (o o' : Operation) : Prop where
  type : o'.operationType = o.operationType
  workload : o'.workloadId = o.workloadId
  status : o'.status = o.status ∨ own ∧ StatusStep op o.status o'.status

theorem RowStep.refl (own : Prop) (o : Operation) : RowStep op own o o := ⟨rfl, rfl, Or.inl rfl⟩

/-- What the rows become under a flush that makes a step of its own row. -/
theorem flush_row {own : Prop} {k : Uuid} (named : ∀ l, θ.loaded.operation = some l → l.id = k → own)
    (h : ∀ l c o, θ.loaded.operation = some l → θ.current.operation = some c → l.id = k →
      db.operations.get? k = some o → own → RowStep op own o (Operation.merge l c o)) :
    ∃ g : Operation → Operation, (θ.flush db).operations.get? k = (db.operations.get? k).map g ∧
      ∀ o, db.operations.get? k = some o → RowStep op own o (g o) := by
  have hflush := flush_operation θ db k
  have same (hsame : (θ.flush db).operations.get? k = db.operations.get? k) :
      ∃ g : Operation → Operation, (θ.flush db).operations.get? k = (db.operations.get? k).map g ∧
        ∀ o, db.operations.get? k = some o → RowStep op own o (g o) :=
    ⟨id, by rw [hsame, Option.map_id, id_eq], fun o _ => .refl own o⟩
  cases hl : θ.loaded.operation with
  | none =>
    rw [hl] at hflush
    exact same hflush
  | some l =>
    cases hc : θ.current.operation with
    | none =>
      rw [hl, hc] at hflush
      exact same hflush
    | some c =>
      rw [hl, hc] at hflush
      by_cases hk : l.id = k
      · simp only [if_pos hk] at hflush
        exact ⟨Operation.merge l c, hflush, fun o ho => h l c o hl hc hk ho (named l hl hk)⟩
      · simp only [if_neg hk] at hflush
        exact same hflush

theorem finish_row (h : θ.Sound) (k : Uuid) {f : Finish}
    (hstep : ∀ l o, θ.loaded.operation = some l → db.operations.get? k = some o → l.id = k →
      f.status ≠ l.status → StatusStep op o.status f.status) :
    ∃ g : Operation → Operation,
      (finishedDb θ f db).operations.get? k = (db.operations.get? k).map g ∧
      ∀ o, db.operations.get? k = some o → RowStep op (θ.operationId = k) o (g o) := by
  obtain ⟨t, held⟩ := h.held
  refine flush_row (θ := θ.finished f) (fun l hl hk => (h.named l hl).symm.trans hk)
    fun l c o hl hc hk ho hown => ⟨rfl, rfl, ?_⟩
  have hcur : (θ.current.operation.map (finishedOperation θ.kind f)) = some c := hc
  have hl' : θ.loaded.operation = some l := hl
  rw [held, hl'] at hcur
  cases hcur
  show written l.status f.status o.status = o.status ∨ _
  by_cases hne : f.status = l.status
  · left
    rw [hne, written_unchanged]
  · right
    have hstatus : (Operation.merge l (finishedOperation θ.kind f (beat t l)) o).status = f.status :=
      written_of_ne _ hne
    rw [hstatus]
    exact ⟨hown, hstep l o hl' ho hk hne⟩

/-- **What an effect does to a row**: the status of its own operation makes one of the listed
steps, any other row keeps its status. -/
theorem effect_row (he : OpEffect now op θ db θ' db') (h : θ.Sound) (k : Uuid) :
    ∃ g : Operation → Operation, db'.operations.get? k = (db.operations.get? k).map g ∧
      ∀ o, db.operations.get? k = some o → RowStep op (θ.operationId = k) o (g o) := by
  have hnamed {l : Operation} (hl : θ.loaded.operation = some l) (hk : l.id = k) :
      θ.operationId = k := (h.named l hl).symm.trans hk
  have same : ∃ g : Operation → Operation, db.operations.get? k = (db.operations.get? k).map g ∧
      ∀ o, db.operations.get? k = some o → RowStep op (θ.operationId = k) o (g o) :=
    ⟨id, by rw [Option.map_id, id_eq], fun o _ => .refl _ o⟩
  have beaten : ∃ g : Operation → Operation,
      (θ.flush db).operations.get? k = (db.operations.get? k).map g ∧
      ∀ o, db.operations.get? k = some o → RowStep op (θ.operationId = k) o (g o) := by
    obtain ⟨t, held⟩ := h.held
    refine flush_row (fun l hl hk => hnamed hl hk) fun l c o hl hc _ _ _ => ?_
    rw [held, hl] at hc
    cases hc
    obtain ⟨b, hb⟩ := merge_beat t l o
    rw [hb]
    exact ⟨rfl, rfl, Or.inl rfl⟩
  cases he with
  | assigned | rolledBack | loaded => exact same
  | saved | submitted => exact beaten
  | finished hf => exact finish_row h k fun _ _ _ _ _ _ => .finished hf
  | @started enters s o loads =>
    refine flush_row (fun l hl hk => ?_) fun l c o' hl hc hk ho hown =>
      ⟨rfl, rfl, Or.inr ⟨hown, ?_⟩⟩
    · exact (loads.load_sound.named l hl).symm.trans hk
    · have hs : s.operation = some l := hl
      rw [loads.row] at hs
      cases hs
      have hcur : s.operation.map (startedOperation now) = some c := hc
      rw [loads.row] at hcur
      cases hcur
      have : o = o' := Option.some.inj (loads.found.symm.trans (by rw [hk]; exact ho))
      cases this
      have hrunning : (Operation.merge o (startedOperation now o) o).status = .running :=
        (merge_fresh _ _).1
      rw [hrunning]
      exact .started enters loads.unfinished
  | @refused enters s o loads f failed =>
    refine finish_row loads.load_sound k fun l o' hl ho hk _ => ?_
    have hs : s.operation = some l := hl
    rw [loads.row] at hs
    cases hs
    have : o = o' := Option.some.inj (loads.found.symm.trans (by rw [hk]; exact ho))
    cases this
    rw [failed]
    exact .refused enters loads.unfinished

/-- The operation is there and not `QUEUED`. -/
def begun (db : Db) (k : Uuid) : Bool := (db.operations.get? k).any (·.status != .queued)

theorem begun_iff {k : Uuid} :
    begun db k = true ↔ ∃ o, db.operations.get? k = some o ∧ o.status ≠ .queued := by
  unfold begun
  cases db.operations.get? k <;> simp

/-- No step leads back to `QUEUED`. -/
theorem effect_begun {k : Uuid} (he : OpEffect now op θ db θ' db') (hs : θ.Sound)
    (h : begun db k = true) : begun db' k = true := by
  obtain ⟨o, ho, hq⟩ := begun_iff.mp h
  obtain ⟨g, hg, hrow⟩ := effect_row he hs k
  refine begun_iff.mpr ⟨g o, by rw [hg, ho]; rfl, ?_⟩
  rcases (hrow o ho).status with hkept | ⟨-, hstep⟩
  · rw [hkept]
    exact hq
  · generalize (g o).status = status at hstep
    cases hstep with
    | kept => exact hq
    | started => nofun
    | refused => nofun
    | @finished f _ =>
      intro heq
      have := f.terminal
      rw [heq] at this
      cases this

/-- A row that an admission has started. -/
theorem started_row {s : OpSession} {o : Operation} (row : s.operation = some o)
    (found : db.operations.get? o.id = some o) :
    (((θ.load s).started now).flush db).operations.get? o.id =
      some (Operation.merge o (startedOperation now o) o) := by
  have hcur : ((θ.load s).started now).current.operation = some (startedOperation now o) := by
    show s.operation.map _ = _
    rw [row]
    rfl
  exact flush_own row hcur found

theorem begun_started {s : OpSession} {o : Operation} (row : s.operation = some o)
    (found : db.operations.get? o.id = some o) :
    begun (((θ.load s).started now).flush db) o.id = true := by
  refine begun_iff.mpr ⟨_, started_row row found, ?_⟩
  rw [(merge_fresh _ _).1]
  nofun

end Rows

/-! ### Admission -/

section Admission
variable {rt : Runtime} {i : Input} {θ θ' : OpState} {w w' : World} {b : Bool}

theorem commitStart_ok {a a' : Admission} (h : commitStart a i θ w = (θ', w', .ok a')) :
    a' = a ∧ θ' = (θ.started w.clock).saved ∧ w' = w.setDb ((θ.started w.clock).flush w.db) := by
  unfold commitStart commitEdits at h
  rcases commitTo_cases i (θ.started w.clock) w ((θ.started w.clock).flush w.db) with ⟨e, hc⟩ | hc
  · rw [hc] at h
    cases h
  · rw [hc] at h
    cases h
    exact ⟨rfl, rfl, rfl⟩

theorem refuse_ok {code : String} {a : Admission} (h : refuse code i θ w = (θ', w', .ok a)) :
    a = .ended := by
  unfold refuse at h
  generalize commitFinish _ i θ w = out at h
  obtain ⟨θ₁, w₁, r⟩ := out
  cases r with
  | ok u =>
    cases h
    rfl
  | error e => cases h

end Admission

end PveMaster
