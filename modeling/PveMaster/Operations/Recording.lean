import PveMaster.Operations.Snapshots
import PveMaster.Operations.Submission

/-! What a backup run records as its snapshot.

The runner's program is followed from the listing it is answered with to its `_finish`: if
the listing shows the run its own snapshot, that is what the session records, and a success
reports it or says that the metadata are pending. -/
namespace PveMaster.Snapshots
open Prog OpProg
open Conduct
open Routing (OfType)
open Truthfulness (enter_started)

/-! ### What a delivery may do -/

/-- A condition on the listing that an operation is answered with. -/
def Answered (P : OpState → List Dict → Int → Prop) {ρ : Type} : RunnerOp ρ → Input → OpState → Prop
  | .call (.getBackupContent host storage vmid), i, θ =>
    match i.answers (.getBackupContent host storage vmid) with
    | .ok content => P θ content vmid
    | .error _ => True
  | _, _, _ => True

/-- The listing dates the snapshots of the session's run. -/
def Archive.Dates (a : Archive) (θ : OpState) (content : List Dict) (_ : Int) : Prop :=
  a.Dated θ.operationId (θ.current.backupRun.bind BackupRun.startedAt) content

/-- It shows the run its own snapshot besides. -/
def Archive.Shows (a : Archive) (θ : OpState) (content : List Dict) (vmid : Int) : Prop :=
  a.Shown θ.operationId content vmid ∧ a.Dates θ content vmid

/-- What a delivery has to take care of: what it assigns of a snapshot is its own, and what it
finishes with is what it has recorded. Nothing is counted, so there is no cost. -/
def care (a : Archive) : Budget RunnerOp OpState World Input PUnit where
  may _ o i θ w := OfType θ.operationId .workloadBackup w.db ∧ Settled a w.db ∧ Answered a.Shows o i θ
  allowed o θ := Assigns a o θ ∧ Finishes o θ
  cost _ _ _ _ := 0

/-- The session of a run that has been admitted for an operation. -/
structure Serving (k : Uuid) (θ : OpState) : Prop where
  sound : θ.Sound
  named : θ.operationId = k
  row : ∃ l, θ.loaded.operation = some l ∧ l.status = .running ∧ l.result.get? "metadata_pending" = none
  loaded : ∀ r, θ.loaded.backupRun = some r → r.startedAt.isSome = true
  current : ∀ r, θ.current.backupRun = some r → r.startedAt.isSome = true

variable {a : Archive} {rt : Runtime} {α β ρ : Type} {k : Uuid} {J : OpState → Prop} {n : PUnit} {θ : OpState}

/-! Rules. -/

/-- An operation that assigns nothing and finishes nothing needs no care. -/
theorem allowed_plain {o : RunnerOp ρ} (hfinish : o.finishWith = none) (hassign : o.assigned = none) :
    (care a).allowed o θ := by
  refine ⟨fun e he => ?_, fun f hf => ?_⟩
  · rw [hassign] at he
    cases he
  · rw [hfinish] at hf
    cases hf

theorem spares_plain {o : RunnerOp ρ} (hfinish : o.finishWith = none) (hassign : o.assigned = none) :
    Spares (care a) o := fun _ => ⟨allowed_plain hfinish hassign, fun _ _ => rfl⟩

/-- A failure records nothing. -/
theorem spares_failed {f : Finish} (h : f.status ≠ .succeeded) (hresult : f.result = id) :
    Spares (care a) (.finish f) := by
  refine fun θ => ⟨⟨fun e he => ?_, fun f' hf => ?_⟩, fun _ _ => rfl⟩
  · cases he
  · cases hf
    exact ⟨fun _ => hresult, fun hs => absurd hs h⟩

/-- An assignment that improves what is known of the snapshot is allowed. -/
theorem spares_edit {e : Edit} (h : ∀ k c, Improves a k c (e.backupRun c)) : Spares (care a) (.assign e) := by
  refine fun θ => ⟨⟨fun e' he c _ => ?_, fun f hf => ?_⟩, fun _ _ => rfl⟩
  · cases he
    exact h _ c
  · cases hf

/-- So is one that leaves the run alone. -/
theorem spares_assign {e : Edit} (h : e.backupRun = id) : Spares (care a) (.assign e) := by
  apply spares_edit
  intro k c
  rw [h]
  exact .refl a k c

/-- What neither admits nor finishes serves on. -/
theorem serving_effect {now : Instant} {o : RunnerOp ρ} {θ' : OpState} {db db' : Db} (he : OpEffect now o θ db θ' db')
    (henters : o.enters = false) (hfinish : o.finishWith = none)
    (hassign : ∀ e, o.assigned = some e → ∀ r, (e.backupRun r).startedAt = r.startedAt) (h : Serving k θ) :
    Serving k θ' := by
  obtain ⟨hsound, hid, -⟩ := effect_sound he h.sound
  obtain ⟨l, hl, hrunning, huntold⟩ := h.row
  have hnamed := hid.trans h.named
  -- the row that the session would load by a commit
  have hbeaten : ∃ l', θ.current.operation = some l' ∧ l'.status = .running ∧ l'.result.get? "metadata_pending" = none := by
    obtain ⟨t, held⟩ := h.sound.held
    rw [hl] at held
    refine ⟨beat t l, held, ?_, ?_⟩
    · rw [beat_status, hrunning]
    · cases t <;> exact huntold
  cases he with
  | @assigned e hassigned =>
    refine ⟨hsound, hnamed, ⟨l, hl, hrunning, huntold⟩, h.loaded, fun r' hr' => ?_⟩
    obtain ⟨r, hr, rfl⟩ := Option.map_eq_some_iff.mp hr'
    rcases hassigned with rfl | hassigned
    · exact h.current r hr
    · rw [hassign e hassigned]
      exact h.current r hr
  | rolledBack => exact ⟨hsound, hnamed, ⟨l, hl, hrunning, huntold⟩, h.loaded, h.loaded⟩
  | saved => exact ⟨hsound, hnamed, hbeaten, h.current, h.current⟩
  | submitted => exact ⟨hsound, hnamed, hbeaten, h.current, h.current⟩
  | finished hf =>
    rw [hfinish] at hf
    cases hf
  | loaded enters | started enters | refused enters =>
    rw [henters] at enters
    cases enters

/-- The run in the session keeps its start, whatever else is assigned. -/
theorem keeps_serving {o : RunnerOp ρ} (hB : Spares (care a) o) (henters : o.enters = false)
    (hfinish : o.finishWith = none)
    (hassign : ∀ e, o.assigned = some e → ∀ r, (e.backupRun r).startedAt = r.startedAt) :
    (care a).Keeps (opMachine rt) (Serving k) o :=
  fun θ hJ => ⟨(hB θ).1, fun i w _ _ _ hx =>
    ⟨(hB θ).2 i w, serving_effect (exec_effect rt hx) henters hfinish hassign hJ⟩⟩

theorem keeping_op {o : RunnerOp ρ} (h : still o = true) : Keeping rt (care a) J (op o) := by
  apply only_op
  apply keeps_still h
  apply spares_plain
  · cases o <;> first | rfl | cases h
  · cases o <;> first | rfl | cases h

theorem keeping_now : Keeping rt (care a) J now := keeping_op rfl

/-- Asking Proxmox changes nothing in the session. -/
theorem keeping_call (r : Request) : Keeping rt (care a) J (perform (.call r)) :=
  only_perform (keeps_still rfl (spares_plain rfl rfl))

theorem spares_session : Spares (care a) .session := spares_plain rfl rfl

theorem keeping_assign {e : Edit} (h : e.backupRun = id) : Keeping rt (care a) (Serving k) (assign e) := by
  apply only_op
  apply keeps_serving (spares_assign h) rfl rfl
  intro e' he r
  cases he
  rw [h]
  rfl

theorem keeping_anyAssign {e : Edit} (h : e.backupRun = id) : Keeping rt (care a) Any (assign e) :=
  only_op (keeps_any (spares_assign h))

/-- What is not an assignment serves on. -/
theorem keeps_plain {o : RunnerOp ρ} (henters : o.enters = false) (hfinish : o.finishWith = none)
    (hassign : o.assigned = none) : (care a).Keeps (opMachine rt) (Serving k) o := by
  apply keeps_serving (spares_plain hfinish hassign) henters hfinish
  intro e he
  rw [hassign] at he
  cases he

theorem keeping_commit : Keeping rt (care a) (Serving k) commit := only_perform (keeps_plain rfl rfl rfl)

theorem keeping_failed {f : Finish} (h : f.status ≠ .succeeded) (hresult : f.result = id) :
    Keeping rt (care a) Any (finish f) := only_perform (keeps_any (spares_failed h hresult))

/-! ### The programs -/

/-- The program records and reports nothing that is not the run's own. -/
abbrev Careful (a : Archive) (rt : Runtime) (p : OpProg α) (θ : OpState) : Prop := Safe rt (care a) p PUnit.unit θ

section Programs

/-- Failing records nothing. -/
theorem keeping_fail (code : String) (withTask : Bool) :
    Keeping rt (care a) Any (SubmissionRunner.fail code withTask) :=
  only_bind keeping_now fun _ => keeping_failed OperationStatus.failed_ne rfl

theorem keeping_submissionFailed (e : AppError) :
    Keeping rt (care a) Any (SubmissionRunner.submissionFailed e) := by
  refine only_bind keeping_now fun _ => ?_
  split
  · exact keeping_failed OperationStatus.timeout_ne rfl
  · exact keeping_failed OperationStatus.failed_ne rfl

theorem keeping_timeOut : Keeping rt (care a) Any PowerRunner.timeOut :=
  only_bind (keeping_anyAssign rfl) fun _ => only_bind keeping_now fun _ => keeping_failed nofun rfl

/-- The task of Proxmox is recorded; the snapshot is not known yet. -/
theorem keeping_recordTask (operation : Operation) (clusterId workloadId : Uuid) (stepName node upid : String) :
    Keeping rt (care a) (Serving k)
      (SubmissionRunner.recordTask operation clusterId workloadId stepName node upid) := by
  refine only_bind (keeping_op rfl) fun _ => only_bind keeping_now fun _ => only_bind keeping_now fun _ =>
    only_bind (keeping_assign rfl) fun _ => only_perform (keeps_plain rfl rfl rfl)

/-- A poll that finds a success goes on with a session that serves. -/
theorem careful_poll {success : PveTask → OpProg Unit}
    (hs : ∀ task θ, Serving k θ → Careful a rt (success task) θ) (deadline : Instant) (polls : Nat) (θ : OpState)
    (h : Serving k θ) : Careful a rt (SubmissionRunner.poll rt success deadline polls) θ := by
  induction polls generalizing θ with
  | zero => exact safe_only keeping_timeOut trivial
  | succ polls ih =>
    apply safe_then keeping_now h
    intro time θ h
    split
    · exact safe_only keeping_timeOut trivial
    apply safe_then keeping_now h
    intro polled θ h
    apply safe_then (keeping_assign rfl) h
    intro _ θ h
    apply safe_session spares_session
    apply safe_row
    intro task _
    apply safe_then (only_attempt (keeping_call _)) h
    intro answer θ h
    have again : Careful a rt (commit >>= fun _ => SubmissionRunner.poll rt success deadline polls) θ :=
      safe_then keeping_commit h fun _ θ h => ih θ h
    have failed (e : Edit) (he : e.backupRun = id) (code : String) :
        Careful a rt (assign e >>= fun _ => SubmissionRunner.fail code) θ :=
      safe_only (only_bind (keeping_anyAssign he) fun _ => keeping_fail code true) trivial
    cases answer with
    | error e =>
      cases e with
      | app error =>
        dsimp only
        split
        · exact again
        · exact failed _ rfl _
      | _ => trivial
    | ok status =>
      dsimp only
      split
      · exact again
      apply safe_then keeping_now h
      intro completed θ h
      apply safe_then (keeping_assign rfl) h
      intro _ θ h
      split
      · exact safe_only (only_bind (keeping_anyAssign rfl) fun _ => keeping_fail _ true) trivial
      · exact safe_then (keeping_assign rfl) h fun _ θ h => hs task θ h

/-- Polling goes on until the task has ended, and success is what it leads to. -/
theorem careful_startPoll {success : PveTask → OpProg Unit}
    (hs : ∀ task θ, Serving k θ → Careful a rt (success task) θ) (θ : OpState) (h : Serving k θ) :
    Careful a rt (SubmissionRunner.startPoll rt success) θ := by
  apply safe_session spares_session
  apply safe_row
  intro task _
  apply safe_then keeping_now h
  intro time θ h
  exact careful_poll hs _ _ θ h

/-- The session's run has a volume. -/
def Recorded (θ : OpState) : Prop := ∀ c, θ.current.backupRun = some c → c.snapshotVolumeId ≠ none

/-- A run that serves and has a volume, or whose metadata are pending. -/
def Filed (k : Uuid) (pending : Bool) (θ : OpState) : Prop := Serving k θ ∧ (pending = false → Recorded θ)

/-- An assignment, and what follows on the session it leaves. -/
theorem within_assign {e : Edit} {f : Unit → OpProg β} {Q : Except Exn β → PUnit → OpState → Prop}
    (hallowed : (care a).allowed (.assign e) θ) (h : within (opMachine rt) (care a) (f ()) Q n (θ.assign e)) :
    within (opMachine rt) (care a) (assign e >>= f) Q n θ := by
  refine ⟨hallowed, fun i w θ' w' r _ hexec => ⟨n, trivial, ?_⟩⟩
  have hout : (RunnerOp.assign e).exec rt i θ w = (θ', w', r) := Option.some.inj hexec
  cases hout
  exact h

theorem serving_assign {e : Edit} (hassign : ∀ r, (e.backupRun r).startedAt = r.startedAt) (h : Serving k θ) :
    Serving k (θ.assign e) := by
  have he : OpEffect 0 (RunnerOp.assign e) θ .empty (θ.assign e) .empty := .assigned (Or.inr rfl)
  refine serving_effect he rfl rfl (fun e' he' => ?_) h
  cases he'
  exact hassign

/-- An assignment to a run that has a volume leaves it one. -/
theorem Filed.assign {e : Edit} {pending : Bool} (hassign : ∀ r, (e.backupRun r).startedAt = r.startedAt)
    (hvolume : ∀ r, (e.backupRun r).snapshotVolumeId = r.snapshotVolumeId) (h : Filed k pending θ) :
    Filed k pending (θ.assign e) := by
  refine ⟨serving_assign hassign h.1, fun hp c' hc' => ?_⟩
  obtain ⟨c, hc, rfl⟩ := Option.map_eq_some_iff.mp hc'
  rw [hvolume]
  exact h.2 hp c hc

/-- The size and the measurement of a run are no concern of its snapshot. -/
theorem keeping_filed {e : Edit} {pending : Bool} (hedit : ∀ k c, Improves a k c (e.backupRun c))
    (hvolume : ∀ r, (e.backupRun r).snapshotVolumeId = r.snapshotVolumeId) :
    Keeping rt (care a) (Filed k pending) (assign e) :=
  only_op (keeps_assign (fun _ h => h.assign (fun r => (hedit k r).started) hvolume) (spares_edit hedit))

/-- **The metadata of a run's own snapshot.** -/
theorem within_recordSnapshot {snapshot : Dict} {start : Option Instant} (hmade : a.makerOf snapshot = some k)
    (hdated : ∀ c, (snapshot.get? "ctime").bind Json.number? = some c → ∀ s, start = some s → notBefore s c = true)
    (h : Serving k θ) (hstart : θ.current.backupRun.bind BackupRun.startedAt = start) :
    within (opMachine rt) (care a) (BackupRunner.recordSnapshot snapshot)
      (fun r _ θ => ∀ u, r = .ok u → Filed k false θ) n θ := by
  unfold BackupRunner.recordSnapshot
  unfold Archive.makerOf at hmade
  cases hvolid : (snapshot.get? "volid").bind Json.asStr? with
  | none => exact fun _ h => by cases h
  | some volid =>
    rw [hvolid] at hmade
    have hmade : a volid = some k := hmade
    apply within_assign
    · refine ⟨fun e he c _ => ?_, fun f hf => by cases hf⟩
      cases he
      refine ⟨rfl, rfl, rfl, fun h => (by cases h), fun hown hc => ⟨fun v hv => ?_, hc.2⟩⟩
      obtain rfl : volid = v := Option.some.inj hv
      show a volid = some c.operationId
      rw [hown, h.named]
      exact hmade
    generalize hθ₁ : θ.assign _ = θ₁
    have hfiled : Filed k false θ₁ := by
      rw [← hθ₁]
      refine ⟨serving_assign (fun _ => rfl) h, fun _ c' hc' => ?_⟩
      obtain ⟨c, hc, rfl⟩ := Option.map_eq_some_iff.mp hc'
      intro hnone
      cases hnone
    have hstart₁ : θ₁.current.backupRun.bind BackupRun.startedAt = start := by
      rw [← hstart, ← hθ₁]
      show (θ.current.backupRun.map _).bind _ = _
      cases θ.current.backupRun <;> rfl
    have sized (size : Int) : Keeping rt (care a) (Filed k false)
        (if 0 ≤ size then assign { backupRun := fun r => { r with sizeBytes := some size } } else return ()) := by
      split
      · exact keeping_filed (fun _ _ => ⟨rfl, rfl, rfl, fun h => h, fun _ h => h⟩) fun _ => rfl
      · exact only_done
    cases hctime : (snapshot.get? "ctime").bind Json.number? with
    | none =>
      refine within_of_only (J := Filed k false) ?_ hfiled fun _ _ h _ _ => h
      split
      · exact sized _
      · exact only_done
    | some ctime =>
      dsimp only
      cases htime : fromTimestamp ctime with
      | error e => exact fun _ h => by cases h
      | ok time =>
        apply within_assign
        · refine ⟨fun e he c hc => ?_, fun f hf => by cases hf⟩
          cases he
          refine ⟨rfl, rfl, rfl, fun h => h, fun _ hown => ⟨hown.1, fun t ht => ?_⟩⟩
          obtain rfl : time = t := Option.some.inj ht
          obtain ⟨s, hs⟩ := Option.isSome_iff_exists.mp (hfiled.1.current c hc)
          rw [hc] at hstart₁
          refine ⟨s, hs, ?_⟩
          exact le_fromTimestamp htime (hdated ctime hctime s (hstart₁.symm.trans hs))
        · have hfiled := hfiled.assign (e := { backupRun := fun r => { r with snapshotTime := some time } })
            (fun _ => rfl) fun _ => rfl
          refine within_of_only (J := Filed k false) ?_ hfiled fun _ _ h _ _ => h
          split
          · exact sized _
          · exact only_done

/-- **The listing**: an answer that shows the run its own snapshot is recorded, or nothing is. -/
theorem within_readMetadata (workload : Workload) (target : BackupTarget) (h : Serving k θ) :
    within (opMachine rt) (care a) (BackupRunner.readMetadata workload target)
      (fun r _ θ => ∀ pending, r = .ok pending → Filed k pending θ) n θ := by
  refine ⟨allowed_plain rfl rfl, fun i w θ' w' answer hmay hexec => ⟨n, trivial, ?_⟩⟩
  obtain ⟨-, -, hshows⟩ := hmay
  have hout : (RunnerOp.call (.getBackupContent workload.node target.storageId workload.vmid)).exec rt i θ w =
    (θ', w', answer) := Option.some.inj hexec
  cases hout
  have pending : ∀ p, (Except.ok true : Except Exn Bool) = .ok p → Filed k p θ := by
    intro p hp
    cases hp
    exact ⟨h, fun hp => by cases hp⟩
  unfold Answered at hshows
  dsimp only at hshows
  cases hanswer : i.answers (.getBackupContent workload.node target.storageId workload.vmid) with
  | error e =>
    cases e with
    | app error => exact pending
    | _ => exact fun _ h => by cases h
  | ok content =>
    rw [hanswer] at hshows
    obtain ⟨hshown, hdated⟩ := hshows
    unfold Archive.Dates at hdated
    rw [h.named] at hshown hdated
    simp only [andThen]
    rcases hlatest : BackupRunner.latestSnapshot content workload.vmid with e | latest
    · exact fun _ h => by cases h
    cases latest with
    | none => exact pending
    | some snapshot =>
      have hmade := Archive.shown_iff.mp hshown snapshot hlatest
      show within (opMachine rt) (care a) (BackupRunner.recordSnapshot snapshot >>= fun _ => return false) _ n θ
      apply within_bind
      refine within_mono ?_ (within_recordSnapshot hmade (hdated snapshot (latestSnapshot_mem hlatest) hmade) h rfl)
      intro r n θ hfiled
      cases r with
      | error e => exact fun _ h => by cases h
      | ok u =>
        intro p hp
        cases hp
        exact hfiled u rfl

theorem keeping_measureTransfer (task : PveTask) (pending : Bool) :
    Keeping rt (care a) (Filed k pending) (BackupRunner.measureTransfer rt task) := by
  refine only_bind (only_attempt (keeping_call _)) fun answer => ?_
  split
  · refine only_bind only_done fun _ => only_bind (keeping_filed ?_ fun _ => rfl) fun _ => only_done
    exact fun _ _ => ⟨rfl, rfl, rfl, fun h => h, fun _ h => h⟩
  · exact only_done
  · exact only_done

/-- What `succeed` merges into a result. -/
theorem get?_merged (result : Dict) (volid pending measuring : Json) :
    (result.merge [("snapshot_volume_id", volid), ("metadata_pending", pending),
      ("transfer_measurement_pending", measuring)]).get? "snapshot_volume_id" = some volid ∧
    (result.merge [("snapshot_volume_id", volid), ("metadata_pending", pending),
      ("transfer_measurement_pending", measuring)]).get? "metadata_pending" = some pending := by
  have hmerge : result.merge [("snapshot_volume_id", volid), ("metadata_pending", pending),
      ("transfer_measurement_pending", measuring)] =
    ((Dict.set result "snapshot_volume_id" volid).set "metadata_pending" pending).set
      "transfer_measurement_pending" measuring := rfl
  rw [hmerge]
  constructor
  · rw [Dict.get?_set_of_ne _ _ (by decide), Dict.get?_set_of_ne _ _ (by decide)]
    exact Dict.get?_set_self _ _ _
  · rw [Dict.get?_set_of_ne _ _ (by decide)]
    exact Dict.get?_set_self _ _ _

/-- The success of a backup: the metadata is read, the transfer measured, and the result says of
both whether they are still to come. -/
theorem careful_succeed (workload : Workload) (target : BackupTarget) (task : PveTask) (θ : OpState)
    (h : Serving k θ) : Careful a rt (BackupRunner.succeed rt workload target task) θ := by
  apply within_bind
  apply within_mono _ (within_readMetadata workload target h)
  intro r n θ hfiled
  cases r with
  | error e => trivial
  | ok pending =>
    have hfiled := hfiled pending rfl
    apply safe_then (keeping_measureTransfer task pending) hfiled
    intro measuring θ hfiled
    apply safe_session spares_session
    apply safe_row
    intro run hrun
    apply safe_then (J := fun θ' => θ' = θ) keeping_now rfl
    rintro time _ rfl
    refine ⟨⟨fun e he => (by cases he), fun f hf => ?_⟩, fun _ _ _ _ _ _ _ => ⟨PUnit.unit, trivial, trivial⟩⟩
    cases hf
    refine ⟨fun hs => absurd rfl hs, fun _ => ?_⟩
    obtain ⟨l, hl, hrunning, huntold⟩ := hfiled.1.row
    refine ⟨l, run, hl, hrunning, huntold, hrun, fun result => ?_⟩
    cases hvolume : run.snapshotVolumeId with
    | none =>
      have hpending : pending = true := by
        by_contra hnot
        exact hfiled.2 (by simpa using hnot) run hrun hvolume
      obtain ⟨hvolid, htold⟩ := get?_merged result .null (.bool pending) (.bool measuring)
      subst hpending
      exact ⟨htold, hvolid⟩
    | some volid =>
      obtain ⟨hvolid, htold⟩ := get?_merged result (.str volid) (.bool pending) (.bool measuring)
      exact ⟨hvolid, pending, htold⟩

theorem keeping_openRunnerClient (message : String) (cluster : Option Cluster) (credential : Option ClusterCredential) :
    Keeping rt (care a) J (openRunnerClient message cluster credential) := by
  unfold openRunnerClient
  split
  · split
    · exact only_bind (keeping_op rfl) fun _ => only_done
    · exact only_done
  · exact only_done

/-- A run that has been admitted, with its client opened. -/
theorem careful_body (operation : Operation) (workload : Workload) (target : BackupTarget) (run : BackupRun)
    (h : Serving k θ) : Careful a rt (BackupRunner.body rt operation workload target run) θ := by
  apply safe_then (keeping_op rfl) h
  intro cluster θ h
  apply safe_then (keeping_op rfl) h
  intro credential θ h
  apply safe_then (keeping_openRunnerClient _ _ _) h
  intro _ θ h
  apply safe_session spares_session
  have polled (θ : OpState) (h : Serving k θ) :
      Careful a rt (SubmissionRunner.startPoll rt (BackupRunner.succeed rt workload target)) θ :=
    careful_startPoll (fun task θ h => careful_succeed workload target task θ h) θ h
  split
  · exact polled θ h
  · apply safe_then (only_attempt (keeping_call _)) h
    intro answer θ h
    split
    · exact safe_only (keeping_submissionFailed _) trivial
    · trivial
    · exact safe_then (keeping_recordTask _ _ _ _ _ _) h fun _ θ h => polled θ h

/-- The admission leaves the session with the run it serves, started. -/
theorem serving_started {s : OpSession} {o : Operation} {w : World} (hk : θ.operationId = k) (hs : θ.Sound)
    (htype : OfType k .workloadBackup w.db) (hsettled : Settled a w.db) (loads : Loads θ w.db s o) :
    Serving k ((θ.load s).started w.clock).saved := by
  have he : OpEffect w.clock RunnerOp.enter θ w.db ((θ.load s).started w.clock).saved
      (((θ.load s).started w.clock).flush w.db) := .started rfl loads
  obtain ⟨hsound, hid, -⟩ := effect_sound he hs
  have hfound : w.db.operations.get? k = some o := by rw [← hk, ← loads.named, loads.found]
  have hrow : s.operation.map (startedOperation w.clock) = some (startedOperation w.clock o) := by
    rw [loads.row]
    rfl
  have hstarted : ∀ r, s.backupRun.map (startedRun w.clock) = some r → r.startedAt.isSome = true := by
    intro r hr
    obtain ⟨r₀, -, rfl⟩ := Option.map_eq_some_iff.mp hr
    rfl
  exact ⟨hsound, hid.trans hk, ⟨_, hrow, rfl, hsettled.untold k o hfound (htype o hfound) loads.unfinished⟩,
    hstarted, hstarted⟩

/-- **A delivery** to the backup runner. -/
theorem careful_backup : Careful a rt (BackupRunner.run rt) { kind := .backup, operationId := k } := by
  refine ⟨allowed_plain rfl rfl, fun i w θ' w' r hmay hexec => ⟨PUnit.unit, trivial, ?_⟩⟩
  obtain ⟨htype, hsettled, -⟩ := hmay
  have hentered : enter rt i { kind := .backup, operationId := k } w = (θ', w', r) := Option.some.inj hexec
  cases r with
  | error e => trivial
  | ok r =>
    cases r with
    | ended | admin => trivial
    | proceed recovering =>
      obtain ⟨s, o, loads, rfl⟩ := enter_started hentered nofun
      have h := serving_started rfl (sound_start _ _) htype hsettled loads
      apply safe_session spares_session
      apply safe_row
      intro operation _
      apply safe_row
      intro workload _
      apply safe_row
      intro target _
      apply safe_row
      intro run _
      apply safe_attempt (careful_body operation workload target run h)
      intro r n θ
      split
      · trivial
      · exact safe_session spares_session (safe_only (keeping_fail _ _) trivial)
      · trivial

/-- The power runner goes no further with a backup. -/
theorem careful_power : Careful a rt (PowerRunner.run rt) { kind := .power, operationId := k } := by
  refine ⟨allowed_plain rfl rfl, fun i w θ' w' r hmay hexec => ⟨PUnit.unit, trivial, ?_⟩⟩
  obtain ⟨htype, -, -⟩ := hmay
  have hentered : enter rt i { kind := .power, operationId := k } w = (θ', w', r) := Option.some.inj hexec
  have hs : OpState.Sound { kind := .power, operationId := k } := sound_start _ _
  have haction (s : OpSession) (o : Operation) (loads : Loads { kind := .power, operationId := k } w.db s o)
      (q : Operation) (hq : ((OpState.load { kind := .power, operationId := k } s).started w.clock).saved.current.operation =
        some q) : q.action = .backup := by
    have hfound : w.db.operations.get? k = some o := by
      have hnamed : o.id = k := loads.named
      rw [← hnamed, loads.found]
    have hrow : s.operation.map (startedOperation w.clock) = some q := hq
    rw [loads.row] at hrow
    obtain rfl := Option.some.inj hrow
    rw [(startedOperation w.clock o).consistent]
    show o.operationType.action = _
    rw [htype o hfound]
    rfl
  cases r with
  | error e => trivial
  | ok r =>
    cases r with
    | ended => trivial
    | admin =>
      obtain ⟨s, o, loads, rfl⟩ := enter_started hentered nofun
      apply safe_session spares_session
      apply safe_row
      intro operation hrow
      rw [haction s o loads operation hrow]
      trivial
    | proceed recovering =>
      obtain ⟨s, o, loads, rfl⟩ := enter_started hentered nofun
      apply safe_session spares_session
      apply safe_row
      intro operation hrow
      rw [haction s o loads operation hrow]
      trivial

/-- The restore runner leaves the metadata of backups alone. -/
theorem careful_restore : Careful a rt (RestoreRunner.run rt) { kind := .restore, operationId := k } := by
  refine ⟨allowed_plain rfl rfl, fun i w θ' w' r hmay hexec => ⟨PUnit.unit, trivial, ?_⟩⟩
  obtain ⟨htype, -, -⟩ := hmay
  have hentered : enter rt i { kind := .restore, operationId := k } w = (θ', w', r) := Option.some.inj hexec
  cases r with
  | error e => trivial
  | ok r =>
    by_cases hr : r = .ended
    · subst hr
      trivial
    · obtain ⟨s, o, loads, -⟩ := enter_started hentered hr
      have hfound : w.db.operations.get? k = some o := by
        have hnamed : o.id = k := loads.named
        rw [← hnamed, loads.found]
      have haccepts : o.operationType = .workloadRestore := loads.accepts
      rw [htype o hfound] at haccepts
      cases haccepts

/-- Whichever runner a delivery goes to. -/
theorem careful_program (kind : RunnerKind) :
    Careful a rt (OpMessage.program rt ⟨kind, k⟩) { kind := kind, operationId := k } := by
  cases kind with
  | power => exact careful_power
  | backup => exact careful_backup
  | restore => exact careful_restore

end Programs

/-! ### Runs -/

/-- What the rest of the program may do to operations and runs: request them. -/
structure Outside (w w' : World) : Prop where
  row : ∀ k o, w.db.operations.get? k = some o → ∃ o', w'.db.operations.get? k = some o' ∧
    o'.operationType = o.operationType ∧ o'.status = o.status ∧ o'.result = o.result
  requested : ∀ k o', w.db.operations.get? k = none → w'.db.operations.get? k = some o' →
    o'.status = .queued ∧ o'.result.get? "metadata_pending" = none
  kept : ∀ r ∈ w.db.backupRuns, ∃ r' ∈ w'.db.backupRuns, r'.id = r.id ∧ r'.operationId = r.operationId ∧
    r'.snapshotVolumeId = r.snapshotVolumeId ∧ r'.snapshotTime = r.snapshotTime ∧ r'.startedAt = r.startedAt
  planned : ∀ r' ∈ w'.db.backupRuns, (∃ r ∈ w.db.backupRuns, r.id = r'.id) ∨
    r'.snapshotVolumeId = none ∧ r'.snapshotTime = none ∧ w.db.operations.get? r'.operationId = none
  once : Table.Once BackupRun.operationId w'.db.backupRuns

/-- Deliveries whose listings meet a condition, and requests. -/
def listings (P : OpState → List Dict → Int → Prop) : Conditions Exn RunnerOp OpState World Input OpMessage where
  step θ p i _ := match p with
    | .node o _ => Answered P o i θ
    | .done _ => True
  env w w' := Outside w w'

/-- What holds of a delivery at any of its points, with what it still has to do. -/
structure Local (a : Archive) (rt : Runtime) (θ : OpState) (p : OpProg Unit) (w : World) : Prop where
  sound : θ.Sound
  carries : Carries a θ w.db
  careful : OfType θ.operationId .workloadBackup w.db → Careful a rt p θ

/-- What an action keeps for the others. -/
structure Stays (w w' : World) : Prop where
  typed : Typed w.db w'.db
  runs : Remain w.db.backupRuns w'.db.backupRuns

/-- A row that was there already is the one that was kept. -/
theorem Outside.settled {w w' : World} (h : Outside w w') (hs : Settled a w.db) : Settled a w'.db := by
  have of_run (r' : BackupRun) (hr' : r' ∈ w'.db.backupRuns) :
      (∃ r ∈ w.db.backupRuns, r'.operationId = r.operationId ∧ r'.snapshotVolumeId = r.snapshotVolumeId ∧
        r'.snapshotTime = r.snapshotTime ∧ r'.startedAt = r.startedAt) ∨
      r'.snapshotVolumeId = none ∧ r'.snapshotTime = none ∧ w.db.operations.get? r'.operationId = none := by
    rcases h.planned r' hr' with ⟨r, hr, hid⟩ | hnew
    · obtain ⟨r₁, hr₁, hid₁, hkept⟩ := h.kept r hr
      obtain rfl : r₁ = r' := Table.eq_of_key hr₁ hr' (hid₁.trans hid)
      exact Or.inl ⟨r, hr, hkept⟩
    · exact Or.inr hnew
  refine ⟨h.once, fun r' hr' => ?_, fun k o' ho' htype hopen => ?_, fun k o' ho' htype hsucceeded => ?_⟩
  · rcases of_run r' hr' with ⟨r, hr, hoperation, hvolume, htime, hstarted⟩ | ⟨hvolume, htime, -⟩
    · unfold Own
      rw [hoperation, hvolume, htime, hstarted]
      exact hs.own r hr
    · unfold Own
      rw [hvolume, htime]
      exact ⟨nofun, nofun⟩
  · cases ho : w.db.operations.get? k with
    | none => exact (h.requested k o' ho ho').2
    | some o =>
      obtain ⟨o₁, ho₁, htype₁, hstatus, hresult⟩ := h.row k o ho
      obtain rfl := Option.some.inj (ho₁.symm.trans ho')
      rw [hresult]
      rw [hstatus] at hopen
      exact hs.untold k o ho (htype₁.symm.trans htype) hopen
  · cases ho : w.db.operations.get? k with
    | none =>
      rw [(h.requested k o' ho ho').1] at hsucceeded
      cases hsucceeded
    | some o =>
      obtain ⟨o₁, ho₁, htype₁, hstatus, hresult⟩ := h.row k o ho
      obtain rfl := Option.some.inj (ho₁.symm.trans ho')
      rw [hstatus] at hsucceeded
      obtain ⟨volid, htold, hmade, hstored⟩ := hs.told k o ho (htype₁.symm.trans htype) hsucceeded
      rw [← hresult] at htold
      refine ⟨volid, htold, hmade, fun r' hr' hown hnone => ?_⟩
      rcases of_run r' hr' with ⟨r, hr, hoperation, hvolume, -⟩ | ⟨-, -, habsent⟩
      · exact hstored r hr (hoperation.symm.trans hown) (hvolume.symm.trans hnone)
      · rw [hown, ho] at habsent
        cases habsent

theorem Outside.stays {w w' : World} (h : Outside w w') : Stays w w' := by
  refine ⟨fun k o ho => ?_, fun r hr => ?_⟩
  · obtain ⟨o', ho', htype, -⟩ := h.row k o ho
    exact ⟨o', ho', htype⟩
  · obtain ⟨r', hr', hid, hoperation, hvolume, -, hstarted⟩ := h.kept r hr
    exact ⟨r', hr', hid, hoperation, fun hv => hvolume.symm.trans hv, fun x hx => hstarted.trans hx⟩

/-- An operation keeps its type. -/
theorem Typed.ofType {db db' : Db} (h : Typed db db') (htype : OfType k .workloadBackup db') :
    OfType k .workloadBackup db := by
  intro o ho
  obtain ⟨o', ho', hkept⟩ := h k o ho
  rw [← hkept]
  exact htype o' ho'

/-- What the deliveries keep, and what they rely on. -/
theorem protocol (a : Archive) (rt : Runtime) : Protocol (opMachine rt) (listings a.Shows) (fun w => Settled a w.db)
    (Local a rt) Stays where
  refl w := ⟨fun _ o ho => ⟨o, ho, rfl⟩, fun r hr => ⟨r, hr, .refl r⟩⟩
  start m w _ _ := ⟨sound_start m.task m.operationId, .nothing rfl rfl, fun _ => careful_program m.task⟩
  step o kont i θ θ' w w' r hs hL hshows hexec := by
    have he := exec_effect rt hexec
    obtain ⟨hsound, hid, -⟩ := effect_sound he hL.sound
    have ht := effect_typed he hL.sound
    -- a session with a run belongs to a backup operation
    have hassigns : Assigns a o θ := by
      intro e hassigned c hc
      cases hL.carries with
      | nothing _ current =>
        rw [hc] at current
        cases current
      | run _ _ backup _ =>
        obtain ⟨q, hq, hbackup⟩ := backup
        have htype : OfType θ.operationId .workloadBackup w.db := by
          intro o' ho'
          obtain rfl := Option.some.inj (hq.symm.trans ho')
          exact hbackup
        exact (hL.careful htype).1.1 e hassigned c hc
    obtain ⟨hbecomes, hcarries⟩ := effect_runs he hL.sound hs.own hL.carries hassigns
    refine ⟨effect_settled he hL.sound hs hL.carries hassigns fun htype => (hL.careful htype).1.2,
      ⟨ht, hbecomes.remain⟩, hsound, hcarries, fun htype => ?_⟩
    rw [hid] at htype
    have htype := ht.ofType htype
    obtain ⟨n', -, hnext⟩ := (hL.careful htype).2 i w θ' w' r ⟨htype, hs, hshows⟩ hexec
    exact hnext
  drop _ _ w hs _ _ := ⟨hs, fun _ o ho => ⟨o, ho, rfl⟩, fun r hr => ⟨r, hr, .refl r⟩⟩
  env w w' hs h := ⟨h.settled hs, h.stays⟩
  stable θ p w w' hG hL := ⟨hL.sound, hL.carries.stepped hG.typed hG.runs, fun htype => hL.careful (hG.typed.ofType htype)⟩

/-- The state after a run of deliveries. -/
abbrev reached (rt : Runtime) (w : World) (actions : List OpAction) : World :=
  (runFrom (Sys.next (opMachine rt)) (Sys.idle w) actions).shared

/-- The backups are requested, and none has run yet. -/
structure Unstarted (db : Db) : Prop where
  once : Table.Once BackupRun.operationId db.backupRuns
  runs : ∀ r ∈ db.backupRuns, r.snapshotVolumeId = none ∧ r.snapshotTime = none
  operations : ∀ o ∈ db.operations, o.operationType = .workloadBackup →
    o.status = .queued ∧ o.result.get? "metadata_pending" = none

/-- Before anything has been started, nothing is recorded. -/
theorem Unstarted.settled {db : Db} (h : Unstarted db) : Settled a db := by
  refine ⟨h.once, fun r hr => ?_, fun k o ho htype _ => ?_, fun k o ho htype hsucceeded => ?_⟩
  · obtain ⟨hvolume, htime⟩ := h.runs r hr
    unfold Own
    rw [hvolume, htime]
    exact ⟨nofun, nofun⟩
  · exact (h.operations o (Table.get?_mem ho) htype).2
  · rw [(h.operations o (Table.get?_mem ho) htype).1] at hsucceeded
    cases hsucceeded

/-- Every backup run that has succeeded records its own snapshot, in its row and in its operation's
result, or says that the metadata are pending. -/
def RecordsOwn (a : Archive) (db : Db) : Prop :=
  ∀ o ∈ db.operations, o.operationType = .workloadBackup → o.status = .succeeded →
    (∀ v, o.result.get? "snapshot_volume_id" = some (.str v) → a v = some o.id) ∧
    ∀ r ∈ db.backupRuns, r.operationId = o.id →
      match r.snapshotVolumeId with
      | none => Pending o.result
      | some v => a v = some o.id ∧ (∀ t, r.snapshotTime = some t → ∃ s, r.startedAt = some s ∧ s ≤ t) ∧
          ∀ r' ∈ db.backupRuns, r'.snapshotVolumeId = some v → r' = r

/-- What is settled is the run's own. -/
theorem Settled.recordsOwn {db : Db} (h : Settled a db) : RecordsOwn a db := by
  intro o ho htype hsucceeded
  obtain ⟨volid, htold, hmade, hstored⟩ := h.told o.id o (Table.get?_of_mem ho) htype hsucceeded
  refine ⟨fun v hv => ?_, fun r hr hown => ?_⟩
  · cases volid with
    | none =>
      rw [htold.2] at hv
      cases hv
    | some v' =>
      rw [htold.1] at hv
      cases hv
      exact hmade v rfl
  · cases hvolume : r.snapshotVolumeId with
    | none =>
      obtain rfl := hstored r hr hown hvolume
      exact htold
    | some v =>
      have hmine := (h.own r hr).1 v hvolume
      refine ⟨hmine.trans (congrArg some hown), (h.own r hr).2, fun r' hr' hv => ?_⟩
      have hother := (h.own r' hr').1 v hv
      exact h.once r' hr' r hr (Option.some.inj (hother.symm.trans hmine))

/-- **A backup run records its own snapshot**: over every run of deliveries, with crashes anywhere
and any answers whose listings show a run its own snapshot. -/
theorem records_own (a : Archive) (rt : Runtime) (w : World) (hw : Unstarted w.db) (actions : List OpAction)
    (hrun : Along (Sys.next (opMachine rt)) (listings a.Shows).Met (Sys.idle w) actions) :
    RecordsOwn a (reached rt w actions).db :=
  ((protocol a rt).holds_run (Sys.holds_idle hw.settled) hrun).shared.recordsOwn

/-! A guest with an older snapshot that was taken outside the platform. -/

section Samples
open Submission (backupWorld backupInput)

instance (a : Archive) (θ : OpState) (content : List Dict) (vmid : Int) : Decidable (a.Dates θ content vmid) := by
  unfold Archive.Dates
  infer_instance

instance (a : Archive) (θ : OpState) (content : List Dict) (vmid : Int) : Decidable (a.Shows θ content vmid) := by
  unfold Archive.Shows
  infer_instance

variable {P : OpState → List Dict → Int → Prop}

instance [h : ∀ θ content vmid, Decidable (P θ content vmid)] (o : RunnerOp ρ) (i : Input) (θ : OpState) :
    Decidable (Answered P o i θ) := by
  cases o with
  | call r =>
    cases r with
    | getBackupContent host storage vmid =>
      unfold Answered
      dsimp only
      cases i.answers (.getBackupContent host storage vmid) with
      | ok content => exact h θ content vmid
      | error _ => exact .isTrue trivial
    | _ => exact .isTrue trivial
  | _ => exact .isTrue trivial

instance (m : OpMessage) (w : World) : Decidable ((listings P).spawn m w) := .isTrue trivial

instance [∀ θ content vmid, Decidable (P θ content vmid)] (θ : OpState) (p : OpProg Unit) (i : Input) (w : World) :
    Decidable ((listings P).step θ p i w) :=
  match p with
  | .node o _ => inferInstanceAs (Decidable (Answered P o i θ))
  | .done _ => .isTrue trivial

instance (θ : OpState) (p : OpProg Unit) (w : World) : Decidable ((listings P).crash θ p w) := .isTrue trivial

/-- The sample world, a minute after the epoch. -/
def nightlyWorld : World := { backupWorld with clock := 60 * second }

theorem nightly_unstarted : Unstarted nightlyWorld.db := by
  have of_run (r : BackupRun) (hr : r ∈ nightlyWorld.db.backupRuns) : r = Submission.backupRequested :=
    List.mem_singleton.mp hr
  refine ⟨fun r hr r' hr' _ => ?_, fun r hr => ?_, fun o ho _ => ?_⟩
  · rw [of_run r hr, of_run r' hr']
  · rw [of_run r hr]
    exact ⟨rfl, rfl⟩
  · obtain rfl := List.mem_singleton.mp ho
    exact ⟨rfl, rfl⟩

/-- The operation's task makes one volume. -/
def nightlyArchive : Archive := fun volid => if volid = "pbs:backup/vm/100/nightly" then some 1 else none

/-- A snapshot that somebody has made by hand. -/
def manualEntry : Dict := [("volid", .str "pbs:backup/vm/100/manual"), ("ctime", .int 1), ("vmid", .int 100)]

/-- The snapshot of the run. -/
def nightlyEntry : Dict := [("volid", .str "pbs:backup/vm/100/nightly"), ("ctime", .int 61), ("vmid", .int 100)]

def listing (content : List Dict) : Input :=
  { backupInput with
    answers
      | .submitGuestBackup .. => .ok "UPID:1"
      | .getBackupContent .. => .ok content
      | r => sampleAnswers "stopped" r }

/-- A backup whose task has ended well, and a listing after it. -/
def nightlyRun (content : List Dict) : List OpAction :=
  .spawn 0 ⟨.backup, 1⟩ :: List.replicate 30 (.step 0 (listing content))

/-- A foreign snapshot half a second later than the run's own is the latest. -/
example : ¬ nightlyArchive.Shown 1 [nightlyEntry, [("volid", .str "pbs:backup/vm/100/manual"),
    ("ctime", .float (.finite false (123 * (unitsPerOne / 2)) ⟨by decide +kernel, by decide +kernel⟩))]] 100 := by
  decide +kernel

/-- The status of each run that is left, and its volume. -/
def volumes (content : List Dict) : List (OperationStatus × Option String) :=
  (reached asciiRuntime nightlyWorld (nightlyRun content)).db.backupRuns.rows.map fun r => (r.status, r.snapshotVolumeId)

theorem nightly_recorded :
    volumes [manualEntry, nightlyEntry] = [(.succeeded, some "pbs:backup/vm/100/nightly")] ∧
      RecordsOwn nightlyArchive (reached asciiRuntime nightlyWorld (nightlyRun [manualEntry, nightlyEntry])).db :=
  ⟨by decide +kernel, records_own nightlyArchive asciiRuntime nightlyWorld nightly_unstarted _
    (Conditions.along_inside (by decide +kernel))⟩

/-- **A foreign snapshot recorded**: a listing that lags behind shows the older snapshot only. -/
theorem manual_recorded : Unstarted nightlyWorld.db ∧
    Along (Sys.next (opMachine asciiRuntime)) (listings nightlyArchive.Dates).Met (Sys.idle nightlyWorld)
      (nightlyRun [manualEntry]) ∧
    ¬ RecordsOwn nightlyArchive (reached asciiRuntime nightlyWorld (nightlyRun [manualEntry])).db := by
  refine ⟨nightly_unstarted, Conditions.along_inside (by decide +kernel), fun h => ?_⟩
  have hrow : ((reached asciiRuntime nightlyWorld (nightlyRun [manualEntry])).db.operations.get? 1).map
      (fun o => (o.id, o.operationType, o.status, o.result.get? "snapshot_volume_id")) =
      some (1, .workloadBackup, .succeeded, some (.str "pbs:backup/vm/100/manual")) := by decide +kernel
  obtain ⟨o, ho, hfields⟩ := Option.map_eq_some_iff.mp hrow
  simp only [Prod.mk.injEq] at hfields
  obtain ⟨hid, htype, hstatus, hvolume⟩ := hfields
  obtain ⟨hreported, -⟩ := h o (Table.get?_mem ho) htype hstatus
  have hmade := hreported _ hvolume
  rw [hid] at hmade
  exact absurd hmade (by decide)

end Samples

end PveMaster.Snapshots
