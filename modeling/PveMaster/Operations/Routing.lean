import PveMaster.Foundation.RelyGuarantee
import PveMaster.Operations.Effects

/-! Which runner an operation is sent to, and which one can touch it.

The two recovery queries split the operations by type, and `recover_power_operations`
names only the backups as foreign: a restore is in both halves. The backup and restore
runners check the type of the row they find, the power runner does not. -/
namespace PveMaster.Routing

/-! ### Recovery -/

/-- The messages a recovery publishes for one operation, each of which is delivered to the runner
it names. -/
def published (db : Db) (k : Uuid) : List OpMessage :=
  (recoverOperations db).filter (·.operationId == k)

/-- What one recovery query publishes for one of the rows. -/
theorem published_query (t : Table Operation) (kind : RunnerKind) (p : Operation → Bool)
    {o : Operation} (ho : o ∈ t) :
    ((t.select p).map (fun q => OpMessage.mk kind q.id)).filter (·.operationId == o.id) =
      if p o then [⟨kind, o.id⟩] else [] := by
  rw [List.filter_map]
  have hkeyed : ((fun m : OpMessage => m.operationId == o.id) ∘ fun q => OpMessage.mk kind q.id) =
      fun q : Operation => Keyed.key q == Keyed.key o := rfl
  rw [hkeyed, Table.filter_select t p ho]
  cases p o <;> rfl

/-- A restore is published twice, every other operation once, to its own runner. -/
theorem published_eq {db : Db} {o : Operation} (ho : o ∈ db.operations)
    (hopen : o.status.terminal = false) :
    published db o.id =
      if o.operationType = .workloadRestore then [⟨.power, o.id⟩, ⟨.restore, o.id⟩]
      else [⟨o.operationType.runner, o.id⟩] := by
  unfold published recoverOperations recoverPowerOperations recoverBackupOperations
  rw [List.filter_append, List.filter_append, published_query _ _ _ ho, published_query _ _ _ ho,
    published_query _ _ _ ho]
  have hincomplete : o.status.incomplete = true := by rw [OperationStatus.incomplete_eq, hopen]; rfl
  simp only [hincomplete, Bool.and_true]
  cases o.operationType <;> rfl

theorem published_own_iff {db : Db} {o : Operation} (ho : o ∈ db.operations)
    (hopen : o.status.terminal = false) :
    published db o.id = [⟨o.operationType.runner, o.id⟩] ↔ o.operationType ≠ .workloadRestore := by
  rw [published_eq ho hopen]
  by_cases hrestore : o.operationType = .workloadRestore
  · simp [hrestore]
  · simp [hrestore]

/-! ### Runners and rows -/

variable {k : Uuid} {type : OperationType}

/-- The operation's row, if there is one, has this type. Nobody changes the type of a row that is
there. -/
def OfType (k : Uuid) (type : OperationType) (db : Db) : Prop :=
  ∀ o, db.operations.get? k = some o → o.operationType = type

/-- The committed status of an operation. -/
def statusOf (db : Db) (k : Uuid) : Option OperationStatus :=
  (db.operations.get? k).map Operation.status

theorem begun_status (db : Db) (k : Uuid) : begun db k = (statusOf db k).any (· != .queued) := by
  unfold begun statusOf
  cases db.operations.get? k <;> rfl

/-- What a request does to an operation: it is there as it was, or new. -/
theorem begun_outside {db db' : Db} {k : Uuid} (h : statusOf db' k = statusOf db k ∨
    statusOf db k = none ∧ statusOf db' k = some .queued) (hb : begun db k = true) :
    begun db' k = true := by
  rw [begun_status] at hb ⊢
  rcases h with hsame | ⟨hnone, -⟩
  · rwa [hsame]
  · rw [hnone] at hb
    cases hb

/-- A runner of the operation's type is the only one that holds its row. -/
structure Holds (k : Uuid) (type : OperationType) (θ : OpState) : Prop where
  asked : θ.operationId = k → θ.kind = .power → type.runner = .power
  loaded : ∀ o, θ.loaded.operation = some o → o.id = k → θ.kind = type.runner
  current : ∀ o, θ.current.operation = some o → o.id = k → θ.kind = type.runner

theorem Holds.load {θ : OpState} {s : OpSession} (h : Holds k type θ)
    (hs : ∀ o, s.operation = some o → o.id = k → θ.kind = type.runner) :
    Holds k type (θ.load s) := ⟨h.asked, hs, hs⟩

/-- What a runner loads is of the type it accepts. -/
theorem Holds.of_loads {θ : OpState} {db : Db} {s : OpSession} {o : Operation}
    (h : Holds k type θ) (ht : OfType k type db) (loads : Loads θ db s o) (hk : o.id = k) :
    θ.kind = type.runner := by
  have htype : o.operationType = type := ht o (by rw [← hk, loads.found])
  have haccepts := loads.accepts
  rw [htype] at haccepts
  cases hkind : θ.kind with
  | power => exact (h.asked (loads.named.symm.trans hk) hkind).symm
  | backup =>
    rw [hkind] at haccepts
    have : type = .workloadBackup := haccepts
    rw [this]
    rfl
  | restore =>
    rw [hkind] at haccepts
    have : type = .workloadRestore := haccepts
    rw [this]
    rfl

theorem Holds.of_load {θ : OpState} {db : Db} {s : OpSession} {o : Operation}
    (h : Holds k type θ) (ht : OfType k type db) (loads : Loads θ db s o) :
    Holds k type (θ.load s) := by
  refine h.load fun o' ho' hk => ?_
  have : o = o' := Option.some.inj (loads.row.symm.trans ho')
  exact h.of_loads ht loads (this ▸ hk)

/-- A flush keeps the types, and the rows that are not its own. -/
theorem flush_keeps {θ : OpState} {db : Db} (h : Holds k type θ) (ht : OfType k type db) :
    OfType k type (θ.flush db) ∧
      (θ.kind ≠ type.runner → statusOf (θ.flush db) k = statusOf db k) := by
  have hflush := flush_operation θ db k
  have same (hsame : (θ.flush db).operations.get? k = db.operations.get? k) :
      OfType k type (θ.flush db) ∧
        (θ.kind ≠ type.runner → statusOf (θ.flush db) k = statusOf db k) := by
    unfold OfType statusOf
    rw [hsame]
    exact ⟨ht, fun _ => rfl⟩
  cases hl : θ.loaded.operation with
  | none =>
    rw [hl] at hflush
    exact same hflush
  | some l =>
    cases hc : θ.current.operation with
    | none =>
      rw [hl, hc] at hflush
      exact same hflush
    | some c =>
      rw [hl, hc] at hflush
      by_cases hk : l.id = k
      · simp only [if_pos hk] at hflush
        refine ⟨fun o ho => ?_, fun hforeign => absurd (h.loaded l hl hk) hforeign⟩
        rw [hflush] at ho
        obtain ⟨s, hs, rfl⟩ := Option.map_eq_some_iff.mp ho
        exact ht s hs
      · simp only [if_neg hk] at hflush
        exact same hflush

theorem holds_finished {θ : OpState} (h : Holds k type θ) (f : Finish) :
    Holds k type (θ.finished f) := by
  refine ⟨h.asked, h.loaded, fun o ho hk => ?_⟩
  obtain ⟨c, hc, rfl⟩ := Option.map_eq_some_iff.mp ho
  exact h.current c hc hk

theorem holds_started {θ : OpState} (h : Holds k type θ) (now : Instant) :
    Holds k type (θ.started now) := by
  refine ⟨h.asked, h.loaded, fun o ho hk => ?_⟩
  obtain ⟨c, hc, rfl⟩ := Option.map_eq_some_iff.mp ho
  exact h.current c hc hk

/-- **The step lemma**: an operation of a runner keeps every type, and the status of an
operation that belongs to another runner. -/
theorem effect_keeps {now : Instant} {ρ : Type} {op : RunnerOp ρ} {θ θ' : OpState} {db db' : Db}
    (he : OpEffect now op θ db θ' db') (h : Holds k type θ) (ht : OfType k type db) :
    OfType k type db' ∧ Holds k type θ' ∧
      (θ.kind ≠ type.runner → statusOf db' k = statusOf db k) := by
  cases he with
  | @assigned e _ =>
    refine ⟨ht, ⟨h.asked, h.loaded, fun o ho hk => ?_⟩, fun _ => rfl⟩
    obtain ⟨c, hc, rfl⟩ := Option.map_eq_some_iff.mp ho
    exact h.current c hc ((beat_id _ _).symm.trans hk)
  | rolledBack => exact ⟨ht, h.load h.loaded, fun _ => rfl⟩
  | saved | submitted _ _ =>
    obtain ⟨htypes, hstatus⟩ := flush_keeps h ht
    exact ⟨htypes, h.load h.current, hstatus⟩
  | @finished f _ =>
    have hfinished := holds_finished h f
    obtain ⟨htypes, hstatus⟩ := flush_keeps hfinished ht
    exact ⟨htypes, hfinished.load hfinished.current, hstatus⟩
  | loaded _ loads => exact ⟨ht, h.of_load ht loads, fun _ => rfl⟩
  | started _ loads =>
    have hstarted := holds_started (h.of_load ht loads) now
    obtain ⟨htypes, hstatus⟩ := flush_keeps hstarted ht
    exact ⟨htypes, hstarted.load hstarted.current, hstatus⟩
  | @refused _ _ _ loads f _ =>
    have hfinished := holds_finished (h.of_load ht loads) f
    obtain ⟨htypes, hstatus⟩ := flush_keeps hfinished ht
    exact ⟨htypes, hfinished.load hfinished.current, hstatus⟩

/-! ### Runs -/

/-- The power task is not called with an operation that another runner implements. An
operation keeps its type. -/
def rightlyCalled (k : Uuid) (type : OperationType) :
    Conditions Exn RunnerOp OpState World Input OpMessage where
  spawn m _ := m.operationId = k → m.task = .power → type.runner = .power
  env _ w' := OfType k type w'.db

/-- An action of another runner than the operation's own does not change its status. -/
def OwnRunnerOnly (rt : Runtime) (k : Uuid) (type : OperationType) (s : OpSys) : OpAction → Prop
  | .step pid i => ∀ θ p, s.procs pid = some (θ, p) → θ.kind ≠ type.runner →
      statusOf (s.next (opMachine rt) (.step pid i)).shared.db k = statusOf s.shared.db k
  | _ => True

variable (rt : Runtime)

theorem holds_start {m : OpMessage}
    (hm : m.operationId = k → m.task = .power → type.runner = .power) :
    Holds k type { kind := m.task, operationId := m.operationId } := by
  have unloaded (o : Operation) (ho : (none : Option Operation) = some o) :
      o.id = k → m.task = type.runner := by cases ho
  exact ⟨hm, unloaded, unloaded⟩

theorem protocol (k : Uuid) (type : OperationType) :
    Protocol (opMachine rt) (rightlyCalled k type) (fun w => OfType k type w.db)
      (fun θ _ _ => Holds k type θ) (fun _ _ => True) where
  refl _ := trivial
  start _ _ _ hm := holds_start hm
  step o rest i θ θ' w w' r hI hL _ hexec := by
    obtain ⟨htypes, hholds, -⟩ := effect_keeps (exec_effect rt hexec) hL hI
    exact ⟨htypes, trivial, hholds⟩
  drop _ _ w hI _ _ := ⟨hI, trivial⟩
  env w w' _ h := ⟨h, trivial⟩
  stable _ _ _ _ _ h := h

theorem ownRunner_next {s : OpSys}
    (hs : s.Holds (fun w => OfType k type w.db) (fun θ _ _ => Holds k type θ)) (a : OpAction) :
    OwnRunnerOnly rt k type s a := by
  cases a with
  | step pid i =>
    intro θ p hp hforeign
    cases p with
    | done r => simp only [Sys.next, hp]; rfl
    | node o rest =>
      cases hexec : (opMachine rt).exec o i θ s.shared with
      | none => simp only [Sys.next, hp, hexec]
      | some out =>
        obtain ⟨θ', w', r⟩ := out
        simp only [Sys.next, hp, hexec]
        exact (effect_keeps (exec_effect rt hexec) (hs.each pid θ _ hp) hs.shared).2.2 hforeign
  | _ => trivial

/-- **Recovery routing.** A recovery publishes an operation once, to its own runner, unless
it is a restore; and in every run that does not call the power task with a backup or a
restore, only the operation's own runner changes its status. -/
theorem recovery_routing :
    (∀ (db : Db) (o : Operation), o ∈ db.operations → o.status.terminal = false →
      (published db o.id = [⟨o.operationType.runner, o.id⟩] ↔
        o.operationType ≠ .workloadRestore)) ∧
    ∀ (k : Uuid) (type : OperationType) (w : World) (actions : List OpAction),
      OfType k type w.db →
      Along (Sys.next (opMachine rt)) (rightlyCalled k type).Met (Sys.idle w) actions →
      Along (Sys.next (opMachine rt)) (OwnRunnerOnly rt k type) (Sys.idle w) actions := by
  refine ⟨fun db o ho hopen => published_own_iff ho hopen, fun k type w actions hw hrun => ?_⟩
  have step : ∀ s a, s.Holds (fun w => OfType k type w.db) (fun θ _ _ => Holds k type θ) →
      (rightlyCalled k type).Met s a →
      (Sys.next (opMachine rt) s a).Holds (fun w => OfType k type w.db)
        (fun θ _ _ => Holds k type θ) :=
    fun _ _ hs ha => ((protocol rt k type).holds_next hs ha).1
  exact along_of_invariant step (fun s a hs _ => ownRunner_next rt hs a) (Sys.holds_idle hw) hrun

/-- A requested restore, and the power message its recovery publishes. -/
def restoreRun : List OpAction := .spawn 0 ⟨.power, 1⟩ :: steps 0 1 "stopped"

theorem routing_of_start :
    published (sampleWorld (.power .start)).db 1 = [⟨.power, 1⟩] ∧
      Along (Sys.next (opMachine asciiRuntime)) (OwnRunnerOnly asciiRuntime 1 (.power .start))
        (Sys.idle (sampleWorld (.power .start))) restoreRun := by
  obtain ⟨recovery, runs⟩ := recovery_routing asciiRuntime
  refine ⟨(recovery (sampleWorld (.power .start)).db (requested 1 1 (.power .start))
    (List.mem_singleton.mpr rfl) rfl).mpr (by decide), runs 1 (.power .start) _ _ ?_ ?_⟩
  · intro o ho
    have : some (requested 1 1 (.power .start)) = some o := ho
    cases this
    rfl
  · exact ⟨fun _ _ => rfl, trivial, trivial⟩

/-- **A restore is sent to both runners**, and the power runner sets it `RUNNING`. -/
theorem restore_misrouted :
    published (sampleWorld .workloadRestore).db 1 = [⟨.power, 1⟩, ⟨.restore, 1⟩] ∧
      ¬ Along (Sys.next (opMachine asciiRuntime)) (OwnRunnerOnly asciiRuntime 1 .workloadRestore)
        (Sys.idle (sampleWorld .workloadRestore)) restoreRun := by
  refine ⟨by decide, fun h => ?_⟩
  have hstep := h.2.1 _ _ rfl (by decide)
  revert hstep
  decide +kernel

end PveMaster.Routing
