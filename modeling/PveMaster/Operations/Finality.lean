import PveMaster.Foundation.RelyGuarantee
import PveMaster.Operations.Effects

/-! When the result of an operation is final.

`_finish` overwrites the status without looking at it, and the row lock of a run is
gone since its first commit. So the first result of an operation is kept, with its
one audit event, as long as no `_finish` meets a row that has ended; two pollers of
one task are enough to break that (`two_pollers`). -/
namespace PveMaster.Finality

/-- What a client reads of an operation that has ended, and takes for its result. -/
structure Verdict where
  status : OperationStatus
  errorCode : Option String
  finishedAt : Option Instant
  result : Dict
  deriving DecidableEq

def verdictOf (o : Operation) : Verdict := ⟨o.status, o.errorCode, o.finishedAt, o.result⟩

def verdict (db : Db) (k : Uuid) : Option Verdict := (db.operations.get? k).map verdictOf

/-- The committed status of the operation is terminal, so the API shows a result. -/
def ended (db : Db) (k : Uuid) : Bool := (verdict db k).any (·.status.terminal)

def terminalAudit (k : Uuid) (a : AuditLog) : Bool :=
  a.operationId == some k && (a.outcome == .succeeded || a.outcome == .failed)

/-- The terminal audit events of an operation, in their order. There should be one, of the result
that stays. -/
def terminalAudits (db : Db) (k : Uuid) : List AuditLog := db.auditLogs.filter (terminalAudit k)

/-! ### What a step does to one operation -/

variable {k : Uuid}

/-- The changes an operation's verdict and audit go through: they stay, the operation is still
going on, or it ends with one more event. -/
inductive Progress (k : Uuid) (db db' : Db) : Prop
  | keeps (kept : verdict db' k = verdict db k)
      (audits : terminalAudits db' k = terminalAudits db k)
  | unfinished (before : ended db k = false) (after : ended db' k = false)
      (row : (verdict db k).isSome = true → (verdict db' k).isSome = true)
      (audits : terminalAudits db' k = terminalAudits db k)
  | ends (before : ended db k = false) (after : ended db' k = true)
      (audits : ∃ a, terminalAudits db' k = terminalAudits db k ++ [a])

theorem Progress.refl (db : Db) : Progress k db db := .keeps rfl rfl

/-- An operation that has ended stays as it is. -/
theorem Progress.final {db db' : Db} (h : Progress k db db') (he : ended db k = true) :
    verdict db' k = verdict db k := by
  cases h with
  | keeps kept => exact kept
  | unfinished before => rw [he] at before; cases before
  | ends before => rw [he] at before; cases before

theorem Progress.ended_mono {db db' : Db} (h : Progress k db db') (he : ended db k = true) :
    ended db' k = true := by
  unfold ended at he ⊢
  rwa [h.final he]

theorem Progress.isSome_mono {db db' : Db} (h : Progress k db db')
    (hr : (verdict db k).isSome = true) : (verdict db' k).isSome = true := by
  cases h with
  | keeps kept => rwa [kept]
  | unfinished _ _ row => exact row hr
  | ends _ after =>
    unfold ended at after
    cases hv : verdict db' k with
    | none => rw [hv] at after; cases after
    | some v => rfl

/-- An ended operation has one terminal audit event, any other has none. -/
def Audited (k : Uuid) (db : Db) : Prop :=
  (terminalAudits db k).length = if ended db k then 1 else 0

instance (k : Uuid) (db : Db) : Decidable (Audited k db) :=
  inferInstanceAs (Decidable (_ = _))

theorem Progress.audited {db db' : Db} (h : Progress k db db') (ha : Audited k db) :
    Audited k db' := by
  unfold Audited at ha ⊢
  cases h with
  | keeps kept audits =>
    have : ended db' k = ended db k := by unfold ended; rw [kept]
    rw [audits, this, ha]
  | unfinished before after _ audits =>
    rw [before] at ha
    rw [audits, after, ha]
  | ends before after audits =>
    obtain ⟨a, audits⟩ := audits
    rw [before] at ha
    rw [audits, after, List.length_append, ha]
    rfl

/-! ### What a runner knows of its operation -/

/-- A runner has assigned no more than a heartbeat since it last read its operation, and what it
read as ended has ended. It may well hold a row that somebody else has ended since. -/
structure Tracks (k : Uuid) (θ : OpState) (db : Db) : Prop where
  held : ∃ t, θ.current.operation = θ.loaded.operation.map (beat t)
  known : ∀ o, θ.loaded.operation = some o → o.id = k →
    (verdict db k).isSome = true ∧ (o.status.terminal = true → ended db k = true)

theorem Tracks.mono {θ : OpState} {db db' : Db} (h : Tracks k θ db) (hp : Progress k db db') :
    Tracks k θ db' := by
  refine ⟨h.held, fun o ho hk => ?_⟩
  obtain ⟨hrow, hended⟩ := h.known o ho hk
  exact ⟨hp.isSome_mono hrow, fun ht => hp.ended_mono (hended ht)⟩

theorem tracks_start (m : OpMessage) (db : Db) :
    Tracks k { kind := m.task, operationId := m.operationId } db := by
  refine ⟨⟨none, rfl⟩, fun o ho => ?_⟩
  have : (none : Option Operation) = some o := ho
  cases this

/-- A session just loaded or saved holds its rows as they are. -/
theorem tracks_load {θ : OpState} {s : OpSession} {db : Db}
    (known : ∀ o, s.operation = some o → o.id = k →
      (verdict db k).isSome = true ∧ (o.status.terminal = true → ended db k = true)) :
    Tracks k (θ.load s) db := by
  refine ⟨⟨none, ?_⟩, known⟩
  show s.operation = s.operation.map (beat none)
  cases s.operation <;> rfl

theorem map_beat {x : Option Operation} {t : Option Instant} {c : Operation}
    (h : x.map (beat t) = some c) : ∃ l, x = some l ∧ beat t l = c :=
  Option.map_eq_some_iff.mp h

theorem verdict_beat (h : Option Instant) (o : Operation) :
    verdictOf { o with heartbeatAt := h } = verdictOf o := rfl

/-- A flush of no more than a heartbeat leaves every verdict. -/
theorem verdict_flush {θ : OpState} {t : Option Instant}
    (held : θ.current.operation = θ.loaded.operation.map (beat t)) (db : Db) :
    verdict (θ.flush db) k = verdict db k := by
  unfold verdict
  rw [flush_operation, held]
  cases θ.loaded.operation with
  | none => rfl
  | some l =>
    simp only [Option.map_some]
    split
    · rw [Option.map_map]
      congr 1
      funext o
      obtain ⟨h, hmerge⟩ := merge_beat t l o
      rw [Function.comp_apply, hmerge, verdict_beat]
    · rfl

theorem terminalAudits_append {db db' : Db} {extra : List AuditLog}
    (h : db'.auditLogs = db.auditLogs ++ extra) :
    terminalAudits db' k = terminalAudits db k ++ extra.filter (terminalAudit k) := by
  unfold terminalAudits
  rw [h, List.filter_append]

theorem finishAudit_terminal (θ : OpState) (f : Finish) (o : Operation) :
    terminalAudit k (finishAudit θ f o) = (o.id == k) := by
  have houtcome : ((finishAudit θ f o).outcome == AuditOutcome.succeeded ||
      (finishAudit θ f o).outcome == AuditOutcome.failed) = true := by
    unfold finishAudit
    split <;> rfl
  unfold terminalAudit
  rw [houtcome, Bool.and_true]
  show (some o.id == some k) = (o.id == k)
  rfl

/-! ### The effects -/

section Effects
variable {θ : OpState} {db : Db}

/-- The commit of a `_finish` that finds its row not ended. -/
theorem finish_progress (f : Finish) (ht : Tracks k θ db)
    (hopen : ∀ o, θ.loaded.operation = some o → o.id = k → ended db k = false) :
    Progress k db (finishedDb θ f db) ∧ Tracks k (θ.finished f).saved (finishedDb θ f db) := by
  obtain ⟨t, held⟩ := ht.held
  have hflush := flush_operation (θ.finished f) db k
  cases hl : θ.loaded.operation with
  | none =>
    have hc : θ.current.operation = none := by rw [held, hl]; rfl
    have hlog : terminalAudits (finishedDb θ f db) k = terminalAudits db k := by
      have := terminalAudits_append (k := k)
        (show (finishedDb θ f db).auditLogs = db.auditLogs ++ [] by simp [finishedDb, hc])
      simpa using this
    refine ⟨.keeps ?_ hlog, tracks_load fun o ho => ?_⟩
    · show (((θ.finished f).flush db).operations.get? k).map verdictOf = _
      rw [hflush]
      simp only [OpState.finished, hl]
      rfl
    · rw [show ((θ.finished f).current).operation = none by simp [OpState.finished, hc]] at ho
      cases ho
  | some l =>
    have hc : θ.current.operation = some (beat t l) := by rw [held, hl]; rfl
    have hcur : (θ.finished f).current.operation = some (finishedOperation θ.kind f (beat t l)) := by
      simp [OpState.finished, hc]
    have hlog : terminalAudits (finishedDb θ f db) k = terminalAudits db k ++
        [finishAudit θ f (beat t l)].filter (terminalAudit k) :=
      terminalAudits_append (by simp [finishedDb, hc])
    have hrow : (finishedDb θ f db).operations.get? k = if l.id = k then
        (db.operations.get? k).map (Operation.merge l (finishedOperation θ.kind f (beat t l)))
        else db.operations.get? k := by
      show ((θ.finished f).flush db).operations.get? k = _
      rw [hflush, hcur]
      simp only [OpState.finished, hl]
    by_cases hk : l.id = k
    · obtain ⟨hsome, hterm⟩ := ht.known l hl hk
      have hbefore := hopen l hl hk
      have hlopen : l.status.terminal = false := by
        cases hlt : l.status.terminal with
        | false => rfl
        | true => rw [hterm hlt] at hbefore; cases hbefore
      -- the result is written, since it differs from the status that was loaded
      have hafter : ended (finishedDb θ f db) k = true := by
        obtain ⟨s, hs⟩ : ∃ s, db.operations.get? k = some s := by
          unfold verdict at hsome
          cases hg : db.operations.get? k with
          | none => rw [hg] at hsome; cases hsome
          | some s => exact ⟨s, rfl⟩
        have hne : f.status ≠ l.status := fun he => by
          have := f.terminal
          rw [he, hlopen] at this
          cases this
        unfold ended verdict
        rw [hrow, if_pos hk, hs]
        show (written l.status f.status s.status).terminal = true
        rw [written_of_ne _ hne, f.terminal]
      refine ⟨.ends hbefore hafter ⟨finishAudit θ f (beat t l), ?_⟩, tracks_load fun o _ _ => ?_⟩
      · rw [hlog]
        simp [finishAudit_terminal, hk]
      · refine ⟨?_, fun _ => hafter⟩
        unfold ended at hafter
        cases hv : verdict (finishedDb θ f db) k with
        | none => rw [hv] at hafter; cases hafter
        | some v => rfl
    · refine ⟨.keeps ?_ ?_, tracks_load fun o ho hok => ?_⟩
      · unfold verdict
        rw [hrow, if_neg hk]
      · rw [hlog]
        simp [finishAudit_terminal, hk]
      · rw [hcur] at ho
        cases ho
        exact absurd (by simpa [finishedOperation] using hok) hk

/-- The commit that sets an operation `RUNNING`. -/
theorem start_progress {s : OpSession} {o : Operation} (now : Instant)
    (loads : Loads θ db s o) :
    Progress k db (((θ.load s).started now).flush db) ∧
      Tracks k ((θ.load s).started now).saved (((θ.load s).started now).flush db) := by
  have hcur : ((θ.load s).started now).current.operation = some (startedOperation now o) := by
    simp [OpState.started, OpState.load, loads.row]
  have hflush := flush_operation ((θ.load s).started now) db k
  rw [hcur, show ((θ.load s).started now).loaded.operation = some o from loads.row] at hflush
  simp only at hflush
  by_cases hk : o.id = k
  · rw [if_pos hk] at hflush
    have hrow : db.operations.get? k = some o := by rw [← hk, loads.found]
    have hbefore : ended db k = false := by
      unfold ended verdict
      rw [hrow]
      exact loads.unfinished
    have hafter : verdict (((θ.load s).started now).flush db) k =
        some (verdictOf (Operation.merge o (startedOperation now o) o)) := by
      unfold verdict
      rw [hflush, hrow]
      rfl
    have hrunning : (Operation.merge o (startedOperation now o) o).status = .running :=
      (merge_fresh _ _).1
    have hended : ended (((θ.load s).started now).flush db) k = false := by
      unfold ended
      rw [hafter]
      show (Operation.merge o (startedOperation now o) o).status.terminal = false
      rw [hrunning]
      rfl
    refine ⟨.unfinished hbefore hended (fun _ => by rw [hafter]; rfl) rfl,
      tracks_load fun o' ho' _ => ⟨by rw [hafter]; rfl, fun hterm => ?_⟩⟩
    rw [hcur] at ho'
    cases ho'
    cases hterm
  · rw [if_neg hk] at hflush
    refine ⟨.keeps (by unfold verdict; rw [hflush]) rfl, tracks_load fun o' ho' hok => ?_⟩
    rw [hcur] at ho'
    cases ho'
    exact absurd hok hk

theorem tracks_loaded {s : OpSession} {o : Operation} (loads : Loads θ db s o) :
    Tracks k (θ.load s) db := by
  refine tracks_load fun o' ho' hk => ?_
  rw [loads.row] at ho'
  cases ho'
  refine ⟨?_, fun hterm => ?_⟩
  · unfold verdict
    rw [← hk, loads.found]
    rfl
  · rw [loads.unfinished] at hterm
    cases hterm

/-- **The step lemma**: whatever an operation of a runner does, it does one of the
allowed things to the operation's verdict, if its `_finish` finds it not ended. -/
theorem effect_progress {now : Instant} {ρ : Type} {op : RunnerOp ρ} {θ' : OpState} {db' : Db}
    (he : OpEffect now op θ db θ' db') (ht : Tracks k θ db)
    (hopen : op.finishes = true → ∀ o, θ.loaded.operation = some o → o.id = k → ended db k = false) :
    Progress k db db' ∧ Tracks k θ' db' := by
  obtain ⟨t, held⟩ := ht.held
  have kept {s : OpSession} (hs : s.operation = θ.current.operation) {db' : Db}
      (hkept : verdict db' k = verdict db k) : Tracks k (θ.load s) db' := by
    refine tracks_load fun o ho hk => ?_
    obtain ⟨l, hl, rfl⟩ := map_beat (held.symm.trans (hs.symm.trans ho))
    rw [beat_id] at hk
    obtain ⟨hsome, hterm⟩ := ht.known l hl hk
    rw [beat_status]
    unfold ended
    rw [hkept]
    exact ⟨hsome, hterm⟩
  cases he with
  | @assigned e _ =>
    refine ⟨.refl db, ⟨e.heartbeatAt.or t, ?_⟩, ht.known⟩
    show θ.current.operation.map (beat e.heartbeatAt) = θ.loaded.operation.map (beat _)
    rw [held, Option.map_map]
    congr 1
    funext o
    exact beat_beat t e.heartbeatAt o
  | rolledBack =>
    refine ⟨.refl db, ⟨none, ?_⟩, ht.known⟩
    show θ.loaded.operation = θ.loaded.operation.map (beat none)
    cases θ.loaded.operation <;> rfl
  | saved => exact ⟨.keeps (verdict_flush held db) rfl, kept rfl (verdict_flush held db)⟩
  | @submitted t tasks _ _ =>
    have hkept : verdict { θ.flush db with pveTasks := tasks } k = verdict db k :=
      verdict_flush held db
    have hsame : (θ.withTask t).current.operation = θ.current.operation := rfl
    exact ⟨.keeps hkept rfl, kept hsame hkept⟩
  | finished h => exact finish_progress _ ht (hopen (finishes_of_finishWith h))
  | loaded _ loads => exact ⟨.refl db, tracks_loaded loads⟩
  | started _ loads => exact start_progress now loads
  | @refused _ s o loads f _ =>
    refine finish_progress f (tracks_loaded loads) fun o' ho' hk => ?_
    have : o = o' := Option.some.inj (loads.row.symm.trans ho')
    unfold ended verdict
    rw [← hk, ← this, loads.found]
    exact loads.unfinished

end Effects

/-! ### Runs -/

/-- Whether a process is about to commit a `_finish` of the operation. -/
def finishing (k : Uuid) (θ : OpState) : OpProg Unit → Bool
  | .node o _ => o.finishes && θ.loaded.operation.any (·.id == k)
  | .done _ => false

/-- What the rest of the program may do to the operation: nothing to its verdict and
audit, but it can be requested. -/
def Outside (k : Uuid) (db db' : Db) : Prop :=
  (verdict db' k = verdict db k ∨ verdict db k = none ∧ ended db' k = false) ∧
    terminalAudits db' k = terminalAudits db k

/-- Every `_finish` of the operation finds its committed row not ended. Of what the rest of the
program does it asks no more than that the operation is left alone. -/
def inTime (k : Uuid) : Conditions Exn RunnerOp OpState World Input OpMessage where
  step θ p _ w := finishing k θ p = true → ended w.db k = false
  env w w' := Outside k w.db w'.db

theorem Outside.progress {db db' : Db} (h : Outside k db db') : Progress k db db' := by
  obtain ⟨hkept | ⟨hnew, hopen⟩, haudits⟩ := h
  · exact .keeps hkept haudits
  · refine .unfinished ?_ hopen (fun hrow => ?_) haudits
    · unfold ended
      rw [hnew]
      rfl
    · rw [hnew] at hrow
      cases hrow

variable (rt : Runtime)

theorem protocol (k : Uuid) : Protocol (opMachine rt) (inTime k) (fun w => Audited k w.db)
    (fun θ _ w => Tracks k θ w.db) (fun w w' => Progress k w.db w'.db) where
  refl w := .refl w.db
  start m w _ _ := tracks_start m w.db
  step o rest i θ θ' w w' r hI hL hc hexec := by
    obtain ⟨hp, ht⟩ := effect_progress (exec_effect rt hexec) hL fun hf l hl hk => hc (by
      show (o.finishes && θ.loaded.operation.any (·.id == k)) = true
      simp [hf, hl, hk])
    exact ⟨hp.audited hI, hp, ht⟩
  drop _ _ w hI _ _ := ⟨hI, .refl w.db⟩
  env w w' hI h := ⟨h.progress.audited hI, h.progress⟩
  stable _ _ _ _ hp ht := ht.mono hp

/-- The committed database after a run of deliveries. -/
def reached (w : World) (actions : List OpAction) : Db :=
  (runFrom (Sys.next (opMachine rt)) (Sys.idle w) actions).shared.db

/-- A result that is committed after some actions is the same after some more, and has one
terminal audit event. -/
def Final (k : Uuid) (w : World) (before after : List OpAction) : Prop :=
  ended (reached rt w before) k = true →
    verdict (reached rt w (before ++ after)) k = verdict (reached rt w before) k ∧
      (terminalAudits (reached rt w (before ++ after)) k).length = 1

instance (k : Uuid) (w : World) (before after : List OpAction) :
    Decidable (Final rt k w before after) := by
  unfold Final
  infer_instance

/-- **Terminal results are final** in every run, cut anywhere, whose `_finish`es come in
time: deliveries of any messages, interleaved at their commits and calls. -/
theorem final_run (k : Uuid) (w : World) (hw : Audited k w.db) (before after : List OpAction)
    (hrun : Along (Sys.next (opMachine rt)) (inTime k).Met (Sys.idle w) (before ++ after)) :
    Final rt k w before after := by
  intro hended
  rw [along_append] at hrun
  have hP := protocol rt k
  have hs := hP.holds_run (Sys.holds_idle hw) hrun.1
  have hs' := hP.holds_run hs hrun.2
  rw [← runFrom_append] at hs'
  have hkept : verdict (reached rt w (before ++ after)) k = verdict (reached rt w before) k := by
    unfold reached
    rw [runFrom_append]
    refine hP.keeps_run (J := fun w' => verdict w'.db k = verdict (reached rt w before) k)
      (fun v v' hp hv => ?_) hs rfl hrun.2
    rw [hp.final (by unfold ended; rw [hv]; exact hended), hv]
  have haudited : Audited k (reached rt w (before ++ after)) := hs'.shared
  have hstill : ended (reached rt w (before ++ after)) k = true := by
    unfold ended
    rw [hkept]
    exact hended
  refine ⟨hkept, ?_⟩
  unfold Audited at haudited
  rw [haudited, if_pos hstill]

instance (k : Uuid) (m : OpMessage) (w : World) : Decidable ((inTime k).spawn m w) :=
  .isTrue trivial

instance (k : Uuid) (θ : OpState) (p : OpProg Unit) (i : Input) (w : World) :
    Decidable ((inTime k).step θ p i w) :=
  inferInstanceAs (Decidable (finishing k θ p = true → ended w.db k = false))

instance (k : Uuid) (θ : OpState) (p : OpProg Unit) (w : World) :
    Decidable ((inTime k).crash θ p w) := .isTrue trivial

instance (k : Uuid) (w w' : World) : Decidable ((inTime k).env w w') :=
  inferInstanceAs (Decidable ((_ ∨ _) ∧ _))

/-- A delivery that has submitted its action. -/
def submitted : List OpAction := .spawn 0 ⟨.power, 1⟩ :: steps 0 17 "stopped"

theorem final_one_delivery :
    ended (reached asciiRuntime (sampleWorld (.power .start))
      (submitted ++ steps 0 20 "running")) 1 = true ∧
    Final asciiRuntime 1 (sampleWorld (.power .start)) (submitted ++ steps 0 20 "running")
      (steps 0 1 "running") :=
  ⟨by decide +kernel, final_run asciiRuntime 1 _ (by decide) _ _ (by decide +kernel)⟩

/-- The redelivery finds the task and is admitted before the first delivery has polled it. -/
def redelivered : List OpAction := submitted ++ .spawn 1 ⟨.power, 1⟩ :: steps 1 10 "running"

/-- **Two pollers of one task**: the guest has stopped again when the second looks, and its
`FAILED` replaces the `SUCCEEDED` of the first. -/
theorem two_pollers : Audited 1 (sampleWorld (.power .start)).db ∧
    ¬ Final asciiRuntime 1 (sampleWorld (.power .start)) (redelivered ++ steps 0 20 "running")
      (steps 1 20 "stopped") := by
  decide +kernel

end PveMaster.Finality
