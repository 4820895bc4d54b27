import PveMaster.Operations.Truthfulness

/-! What a backup run's row says of its snapshot.

The runner knows its snapshot only as the latest entry of a listing. A listing that shows
the run's own snapshot as the latest one gives it (`Shown`); one that lags, that has newer
snapshots of others or entries without a time gives another. What is recorded is followed
from the session to the row (`Carried`): a flush writes what differs from what was loaded,
and nobody else writes those columns. -/
namespace PveMaster.Snapshots
open Routing (OfType)
open Truthfulness (effect_changes effect_absent)

/-! ### Listings -/

/-- The entries that `_latest_snapshot` compares, each with its timestamp; what the comparison of
one raises is raised for all. -/
def timedCandidates (content : List Dict) (vmid : Int) : Except Exn (List (Double × Dict)) := do
  let candidates ← content.filterM (BackupRunner.isCandidate vmid)
  candidates.mapM fun item => (BackupRunner.timestamp item).map (·, item)

/-- What the entries are compared by; an entry whose time is `nan` has nothing to be compared by.
-/
def entryTime (entry : Double × Dict) : Option (WithBot (WithTop ℤ)) := entry.1.value?

theorem latestSnapshot_eq (content : List Dict) (vmid : Int) :
    BackupRunner.latestSnapshot content vmid =
      (timedCandidates content vmid).map fun timed => (firstGreatest entryTime timed).map Prod.snd := by
  unfold BackupRunner.latestSnapshot timedCandidates
  cases content.filterM (BackupRunner.isCandidate vmid) <;> rfl

section Filters
variable {α β : Type} {p : α → Except Exn Bool} {f : α → Except Exn β}

theorem mem_of_filterAuxM {l acc kept : List α} (h : l.filterAuxM p acc = .ok kept) :
    ∀ x ∈ kept, x ∈ l ∨ x ∈ acc := by
  induction l generalizing acc with
  | nil =>
    cases h
    exact fun x hx => Or.inr hx
  | cons y rest ih =>
    obtain ⟨keep, -, h⟩ := bind_ok.mp h
    intro x hx
    rcases ih h x hx with hrest | hacc
    · exact Or.inl (List.mem_cons_of_mem y hrest)
    · cases keep with
      | false => exact Or.inr hacc
      | true =>
        rcases List.mem_cons.mp hacc with rfl | hacc
        · exact Or.inl List.mem_cons_self
        · exact Or.inr hacc

theorem mem_of_filterM {l kept : List α} (h : l.filterM p = .ok kept) : ∀ x ∈ kept, x ∈ l := by
  obtain ⟨reversed, hkept, h⟩ := bind_ok.mp h
  cases h
  intro x hx
  rcases mem_of_filterAuxM hkept x (List.mem_reverse.mp hx) with hl | hnil
  · exact hl
  · exact absurd hnil List.not_mem_nil

theorem exists_of_mapM {l : List α} {images : List β} (h : l.mapM f = .ok images) :
    ∀ y ∈ images, ∃ x ∈ l, f x = .ok y := by
  induction l generalizing images with
  | nil =>
    cases h
    exact fun y hy => absurd hy List.not_mem_nil
  | cons x rest ih =>
    rw [List.mapM_cons] at h
    obtain ⟨image, hx, h⟩ := bind_ok.mp h
    obtain ⟨others, hrest, h⟩ := bind_ok.mp h
    cases h
    intro y hy
    rcases List.mem_cons.mp hy with rfl | hy
    · exact ⟨x, List.mem_cons_self, hx⟩
    · obtain ⟨x', hx', hy⟩ := ih hrest y hy
      exact ⟨x', List.mem_cons_of_mem x hx', hy⟩

end Filters

theorem mem_of_timedCandidates {content : List Dict} {vmid : Int} {timed : List (Double × Dict)}
    (h : timedCandidates content vmid = .ok timed) : ∀ entry ∈ timed, entry.2 ∈ content := by
  obtain ⟨candidates, hcandidates, htimed⟩ := bind_ok.mp h
  intro entry hentry
  obtain ⟨item, hitem, htime⟩ := exists_of_mapM htimed entry hentry
  cases hstamp : BackupRunner.timestamp item with
  | error e =>
    rw [hstamp] at htime
    cases htime
  | ok time =>
    rw [hstamp] at htime
    cases htime
    exact mem_of_filterM hcandidates item hitem

/-- Whose task has made a volume, if an operation's has. Only Proxmox knows it, and no runner
asks. -/
abbrev Archive : Type := String → Option Uuid

/-- The operation that made the volume of an entry. -/
def Archive.makerOf (a : Archive) (item : Dict) : Option Uuid :=
  ((item.get? "volid").bind Json.asStr?).bind a

/-- A time in seconds is not before an instant, compared exactly. -/
def notBefore (start : Instant) : Number → Bool
  | .int seconds => start ≤ seconds * second
  | .float (.finite negative units _) => start * unitsPerOne ≤ Double.signed negative units * second
  | .float (.infinite negative) => !negative
  | .float .nan => true

/-- What a time is stored as is not before what the time itself is not before. -/
theorem le_fromTimestamp {value : Number} {start time : Instant} (h : fromTimestamp value = .ok time)
    (hstart : notBefore start value = true) : start ≤ time := by
  unfold fromTimestamp at h
  obtain ⟨htime, -⟩ := Option.filter_eq_some_iff.mp (orRaise_ok.mp h)
  cases value with
  | int seconds =>
    cases htime
    exact of_decide_eq_true hstart
  | float x =>
    cases x with
    | finite negative units fits =>
      cases htime
      exact Double.le_signed_millionths (of_decide_eq_true hstart)
    | infinite negative => cases htime
    | nan => cases htime

/-- No snapshot of the run is older than its start, so far as the listing dates them. -/
def Archive.Dated (a : Archive) (k : Uuid) (start : Option Instant) (content : List Dict) : Prop :=
  ∀ item ∈ content, a.makerOf item = some k → ∀ c, (item.get? "ctime").bind Json.number? = some c →
    ∀ s, start = some s → notBefore s c = true

/-- A listing shows a run its own snapshot: if it has candidates at all, the first of the latest is one that the
run has made. -/
def Archive.Shown (a : Archive) (k : Uuid) (content : List Dict) (vmid : Int) : Prop :=
  ∀ timed, timedCandidates content vmid = .ok timed → timed = [] ∨
    ∃ before own after, timed = before ++ own :: after ∧ a.makerOf own.2 = some k ∧
      FirstGreatest entryTime before own after

/-- **The condition is exact** for one listing. -/
theorem Archive.shown_iff {a : Archive} {k : Uuid} {content : List Dict} {vmid : Int} :
    a.Shown k content vmid ↔
      ∀ item, BackupRunner.latestSnapshot content vmid = .ok (some item) → a.makerOf item = some k := by
  unfold Archive.Shown
  rw [latestSnapshot_eq]
  cases timedCandidates content vmid with
  | error e =>
    constructor
    · intro _ item h
      cases h
    · intro _ timed h
      cases h
  | ok timed =>
    constructor
    · rintro h item hlatest
      obtain ⟨entry, hfound, rfl⟩ := Option.map_eq_some_iff.mp (Except.ok.inj hlatest)
      rcases h timed rfl with rfl | ⟨before, own, after, hlist, hown, hgreatest⟩
      · cases hfound
      · have hchosen := firstGreatest_eq_some.mpr ⟨before, after, hlist, hgreatest⟩
        obtain rfl := Option.some.inj (hchosen.symm.trans hfound)
        exact hown
    · rintro h _ ⟨⟩
      cases hfound : firstGreatest entryTime timed with
      | none => exact Or.inl (firstGreatest_eq_none.mp hfound)
      | some own =>
        obtain ⟨before, after, hlist, hgreatest⟩ := firstGreatest_eq_some.mp hfound
        refine Or.inr ⟨before, own, after, hlist, h own.2 ?_, hgreatest⟩
        show Except.ok ((firstGreatest entryTime timed).map Prod.snd) = _
        rw [hfound]
        rfl

instance (a : Archive) (k : Uuid) (content : List Dict) (vmid : Int) : Decidable (a.Shown k content vmid) :=
  decidable_of_iff ((BackupRunner.latestSnapshot content vmid).toOption.all
      (fun item => item.all fun item => a.makerOf item == some k) = true) (by
    rw [Archive.shown_iff]
    rcases BackupRunner.latestSnapshot content vmid with _ | _ | item <;> simp [Except.toOption])

instance (a : Archive) (k : Uuid) (start : Option Instant) (content : List Dict) :
    Decidable (a.Dated k start content) :=
  decidable_of_iff (∀ item ∈ content, a.makerOf item = some k →
      (((item.get? "ctime").bind Json.number?).all fun c => start.all fun s => notBefore s c) = true) (by
    unfold Archive.Dated
    simp [Option.all_eq_true])

/-- The entry the runner takes from a listing is one of it. -/
theorem latestSnapshot_mem {content : List Dict} {vmid : Int} {item : Dict}
    (h : BackupRunner.latestSnapshot content vmid = .ok (some item)) : item ∈ content := by
  rw [latestSnapshot_eq] at h
  cases htimed : timedCandidates content vmid with
  | error e =>
    rw [htimed] at h
    cases h
  | ok timed =>
    rw [htimed] at h
    obtain ⟨entry, hfound, rfl⟩ := Option.map_eq_some_iff.mp (Except.ok.inj h)
    obtain ⟨before, after, rfl, -⟩ := firstGreatest_eq_some.mp hfound
    exact mem_of_timedCandidates htimed entry (List.mem_append_right _ List.mem_cons_self)

/-! ### Rows -/

section Rows
variable {a : Archive} {k : Uuid} {t : Table BackupRun} {l c r : BackupRun}

/-- What is recorded of a run is its own snapshot, and that is no older than the run. -/
def Own (a : Archive) (r : BackupRun) : Prop :=
  (∀ v, r.snapshotVolumeId = some v → a v = some r.operationId) ∧
    ∀ t, r.snapshotTime = some t → ∃ s, r.startedAt = some s ∧ s ≤ t

/-- What a session may make of its copy of a run: it fills in what is not recorded yet, with what
is the run's own. -/
structure Improves (a : Archive) (k : Uuid) (c c' : BackupRun) : Prop where
  id : c'.id = c.id
  operation : c'.operationId = c.operationId
  started : c'.startedAt = c.startedAt
  volume : c'.snapshotVolumeId = none → c.snapshotVolumeId = none
  own : c.operationId = k → Own a c → Own a c'

theorem Improves.refl (a : Archive) (k : Uuid) (c : BackupRun) : Improves a k c c :=
  ⟨rfl, rfl, rfl, fun h => h, fun _ h => h⟩

/-- What stays of a stored run, whoever writes it: it belongs to its operation, and nothing
recorded is taken out again. -/
structure RunKept (r r' : BackupRun) : Prop where
  id : r'.id = r.id
  operation : r'.operationId = r.operationId
  volume : r'.snapshotVolumeId = none → r.snapshotVolumeId = none
  started : ∀ x, r.startedAt = some x → r'.startedAt = some x

theorem RunKept.refl (r : BackupRun) : RunKept r r := ⟨rfl, rfl, fun h => h, fun _ h => h⟩

/-- What becomes of a stored run in one step: it is kept, and what is recorded in it is its own.
-/
structure RunStep (a : Archive) (r r' : BackupRun) : Prop extends RunKept r r' where
  own : Own a r'

theorem RunStep.refl (h : Own a r) : RunStep a r r := ⟨.refl r, h⟩

/-- No run is lost. -/
def Remain (t t' : Table BackupRun) : Prop := ∀ r ∈ t, ∃ r' ∈ t', RunKept r r'

/-- The table of runs, every row stepped: no row is lost and none is added. -/
def Becomes (a : Archive) (t t' : Table BackupRun) : Prop :=
  ∃ step : BackupRun → BackupRun, (∀ r', r' ∈ t' ↔ ∃ r ∈ t, step r = r') ∧ ∀ r ∈ t, RunStep a r (step r)

theorem Becomes.refl (h : ∀ r ∈ t, Own a r) : Becomes a t t :=
  ⟨id, fun r' => ⟨fun hr => ⟨r', hr, rfl⟩, fun ⟨_, hr, he⟩ => he ▸ hr⟩, fun r hr => .refl (h r hr)⟩

theorem Becomes.remain {t' : Table BackupRun} (h : Becomes a t t') : Remain t t' := by
  obtain ⟨step, hmem, hstep⟩ := h
  exact fun r hr => ⟨step r, (hmem _).mpr ⟨r, hr, rfl⟩, (hstep r hr).toRunKept⟩

/-- A session's copies of the run of its operation, as loaded and as assigned to, beside the
stored one. -/
structure Carried (a : Archive) (k : Uuid) (t : Table BackupRun) (l c : BackupRun) : Prop where
  same : c.id = l.id
  operation : l.operationId = k ∧ c.operationId = k
  own : Own a l ∧ Own a c
  volume : c.snapshotVolumeId = none → l.snapshotVolumeId = none
  started : c.startedAt = l.startedAt
  stored : ∃ r ∈ t, r.id = l.id ∧ r.operationId = k ∧ (r.snapshotVolumeId = none → l.snapshotVolumeId = none) ∧
    ∀ x, l.startedAt = some x → r.startedAt = some x

theorem Carried.fresh (hr : r ∈ t) (h : Own a r) : Carried a r.operationId t r r :=
  ⟨rfl, ⟨rfl, rfl⟩, ⟨h, h⟩, id, rfl, r, hr, rfl, rfl, id, fun _ h => h⟩

theorem Carried.improved {c' : BackupRun} (h : Carried a k t l c) (hc : Improves a k c c') : Carried a k t l c' :=
  ⟨hc.id.trans h.same, ⟨h.operation.1, hc.operation.trans h.operation.2⟩,
    ⟨h.own.1, hc.own h.operation.2 h.own.2⟩, fun hv => h.volume (hc.volume hv), hc.started.trans h.started, h.stored⟩

theorem Carried.rolledBack (h : Carried a k t l c) : Carried a k t l l :=
  ⟨rfl, ⟨h.operation.1, h.operation.1⟩, ⟨h.own.1, h.own.1⟩, id, rfl, h.stored⟩

/-- The copies outlive what others make of the row. -/
theorem Carried.stepped {t' : Table BackupRun} (h : Carried a k t l c) (ht : Remain t t') : Carried a k t' l c := by
  obtain ⟨r, hr, hid, hoperation, hvolume, hstarted⟩ := h.stored
  obtain ⟨r', hmem, hkept⟩ := ht r hr
  exact ⟨h.same, h.operation, h.own, h.volume, h.started, r', hmem, hkept.id.trans hid,
    hkept.operation.trans hoperation, fun hv => hvolume (hkept.volume hv), fun x hx => hkept.started x (hstarted x hx)⟩

theorem Carried.merged (h : Carried a k t l c) (hr : r ∈ t) (hid : r.id = l.id) (hown : Own a r) :
    RunStep a r (BackupRun.merge l c r) := by
  obtain ⟨r₀, hr₀, hid₀, hoperation, hvolume, hstarted⟩ := h.stored
  obtain rfl : r₀ = r := Table.eq_of_key hr₀ hr (hid₀.trans hid.symm)
  have hsame : (BackupRun.merge l c r₀).startedAt = r₀.startedAt := by
    show written l.startedAt c.startedAt r₀.startedAt = _
    rw [h.started, written_unchanged]
  refine ⟨⟨rfl, rfl, fun hv => ?_, fun x hx => hsame.trans hx⟩, fun v hv => ?_, fun x hx => ?_⟩
  · have hv : written l.snapshotVolumeId c.snapshotVolumeId r₀.snapshotVolumeId = none := hv
    by_cases hkept : c.snapshotVolumeId = l.snapshotVolumeId
    · rwa [hkept, written_unchanged] at hv
    · rw [written_of_ne _ hkept] at hv
      exact absurd (hv.trans (h.volume hv).symm) hkept
  · have hv : written l.snapshotVolumeId c.snapshotVolumeId r₀.snapshotVolumeId = some v := hv
    by_cases hkept : c.snapshotVolumeId = l.snapshotVolumeId
    · rw [hkept, written_unchanged] at hv
      exact hown.1 v hv
    · rw [written_of_ne _ hkept] at hv
      have hmade := h.own.2.1 v hv
      rw [h.operation.2, ← hoperation] at hmade
      exact hmade
  · have hx : written l.snapshotTime c.snapshotTime r₀.snapshotTime = some x := hx
    rw [hsame]
    by_cases hkept : c.snapshotTime = l.snapshotTime
    · rw [hkept, written_unchanged] at hx
      exact hown.2 x hx
    · rw [written_of_ne _ hkept] at hx
      obtain ⟨s, hs, hle⟩ := h.own.2.2 x hx
      rw [h.started] at hs
      exact ⟨s, hstarted s hs, hle⟩

/-- **A flush** of a session's copies, and what it leaves the session with. -/
theorem Carried.flushed (h : Carried a k t l c) (hown : ∀ r ∈ t, Own a r) :
    Becomes a t (flushRow BackupRun.merge (some l) (some c) t) ∧
      Carried a k (flushRow BackupRun.merge (some l) (some c) t) c c := by
  have hmem (r' : BackupRun) : r' ∈ flushRow BackupRun.merge (some l) (some c) t ↔
      ∃ r ∈ t, PveMaster.flushed BackupRun.merge (some l) (some c) r = r' :=
    mem_flushRow (f := BackupRun.merge) fun _ _ _ => rfl
  have hstep (r : BackupRun) (hr : r ∈ t) : RunStep a r (PveMaster.flushed BackupRun.merge (some l) (some c) r) := by
    unfold PveMaster.flushed
    dsimp only
    split
    · next hkey => exact h.merged hr hkey.symm (hown r hr)
    · exact .refl (hown r hr)
  refine ⟨⟨_, hmem, hstep⟩, rfl, ⟨h.operation.2, h.operation.2⟩, ⟨h.own.2, h.own.2⟩, id, rfl, ?_⟩
  obtain ⟨r, hr, hid, hoperation, hvolume, hstarted⟩ := h.stored
  have hrow : PveMaster.flushed BackupRun.merge (some l) (some c) r = BackupRun.merge l c r := if_pos hid.symm
  refine ⟨BackupRun.merge l c r, (hmem _).mpr ⟨r, hr, hrow⟩, hid.trans h.same.symm, hoperation, fun hv => ?_,
    fun x hx => ?_⟩
  · have hv : written l.snapshotVolumeId c.snapshotVolumeId r.snapshotVolumeId = none := hv
    by_cases hkept : c.snapshotVolumeId = l.snapshotVolumeId
    · rw [hkept, written_unchanged] at hv
      rw [hkept]
      exact hvolume hv
    · rwa [written_of_ne _ hkept] at hv
  · have hst : (BackupRun.merge l c r).startedAt = written l.startedAt c.startedAt r.startedAt := rfl
    rw [hst, h.started, written_unchanged]
    rw [h.started] at hx
    exact hstarted x hx

/-- What the admitting commit assigns to a run. A run that is taken up again keeps its first
start. -/
def startedRun (now : Instant) (r : BackupRun) : BackupRun :=
  { r with status := .running, startedAt := some (r.startedAt.getD now) }

theorem startedRun_step (now : Instant) (h : Own a r) : RunStep a r (startedRun now r) := by
  have hkept (x : Instant) (hx : r.startedAt = some x) : (startedRun now r).startedAt = some x := by
    show some (r.startedAt.getD now) = _
    rw [hx]
    rfl
  refine ⟨⟨rfl, rfl, fun h => h, hkept⟩, h.1, fun t ht => ?_⟩
  obtain ⟨s, hs, hle⟩ := h.2 t ht
  exact ⟨s, hkept s hs, hle⟩

/-- **The admission's flush** of a run that was read in the same transaction. -/
theorem flush_started (now : Instant) (hr : r ∈ t) (hown : ∀ r ∈ t, Own a r) :
    Becomes a t (flushRow BackupRun.merge (some r) (some (startedRun now r)) t) ∧
      Carried a r.operationId (flushRow BackupRun.merge (some r) (some (startedRun now r)) t)
        (startedRun now r) (startedRun now r) := by
  have hmem (r' : BackupRun) : r' ∈ flushRow BackupRun.merge (some r) (some (startedRun now r)) t ↔
      ∃ q ∈ t, PveMaster.flushed BackupRun.merge (some r) (some (startedRun now r)) q = r' :=
    mem_flushRow (f := BackupRun.merge) fun _ _ _ => rfl
  have hmerge : BackupRun.merge r (startedRun now r) r = startedRun now r := by
    simp [BackupRun.merge, startedRun]
  have hrow : PveMaster.flushed BackupRun.merge (some r) (some (startedRun now r)) r = startedRun now r :=
    (if_pos rfl).trans hmerge
  have hstarted := startedRun_step now (hown r hr)
  have hstep (q : BackupRun) (hq : q ∈ t) :
      RunStep a q (PveMaster.flushed BackupRun.merge (some r) (some (startedRun now r)) q) := by
    by_cases hkey : Keyed.key r = Keyed.key q
    · obtain rfl : r = q := Table.eq_of_key hr hq hkey
      rw [hrow]
      exact hstarted
    · have hsame : PveMaster.flushed BackupRun.merge (some r) (some (startedRun now r)) q = q := if_neg hkey
      rw [hsame]
      exact .refl (hown q hq)
  exact ⟨⟨_, hmem, hstep⟩, .fresh ((hmem _).mpr ⟨r, hr, hrow⟩) hstarted.own⟩

end Rows

/-! ### Sessions -/

section Sessions
variable {a : Archive} {now : Instant} {ρ : Type} {op : RunnerOp ρ} {θ θ' : OpState} {db db' : Db}

/-- A session without a run, or with that of a backup operation. -/
inductive Carries (a : Archive) (θ : OpState) (db : Db) : Prop
  | nothing (loaded : θ.loaded.backupRun = none) (current : θ.current.backupRun = none)
  | run {l c : BackupRun} (loaded : θ.loaded.backupRun = some l) (current : θ.current.backupRun = some c)
      (backup : ∃ o, db.operations.get? θ.operationId = some o ∧ o.operationType = .workloadBackup)
      (carried : Carried a θ.operationId db.backupRuns l c)

/-- The run a session has loaded: none, or that of its operation, which then is a backup. -/
inductive Loaded (θ : OpState) (db : Db) (s : OpSession) : Prop
  | nothing (run : s.backupRun = none)
  | run {r : BackupRun} (run : s.backupRun = some r) (stored : r ∈ db.backupRuns) (own : r.operationId = θ.operationId)
      (backup : ∃ o, db.operations.get? θ.operationId = some o ∧ o.operationType = .workloadBackup)

theorem loads_run {s : OpSession} {o : Operation} (loads : Loads θ db s o) : Loaded θ db s := by
  have hrun := loads.backupRun
  split at hrun
  · next hkind =>
    cases hfirst : db.backupRuns.first (fun r => r.operationId == o.id) with
    | none => exact .nothing (hrun.trans hfirst)
    | some r =>
      obtain ⟨hmem, hp⟩ := Table.first_some hfirst
      have hown : r.operationId = o.id := beq_iff_eq.mp hp
      have haccepts := loads.accepts
      rw [hkind] at haccepts
      have hfound := loads.found
      rw [loads.named] at hfound
      exact .run (hrun.trans hfirst) hmem (hown.trans loads.named) ⟨o, hfound, haccepts⟩
  · exact .nothing hrun

/-- The types of the operations stay. -/
def Typed (db db' : Db) : Prop :=
  ∀ k o, db.operations.get? k = some o → ∃ o', db'.operations.get? k = some o' ∧ o'.operationType = o.operationType

theorem effect_typed (he : OpEffect now op θ db θ' db') (hs : θ.Sound) : Typed db db' := by
  intro k o ho
  obtain ⟨o', ho', htype, -⟩ := effect_changes he hs ho
  exact ⟨o', ho', htype⟩

theorem Typed.backup (h : Typed db db') {k : Uuid}
    (hb : ∃ o, db.operations.get? k = some o ∧ o.operationType = .workloadBackup) :
    ∃ o, db'.operations.get? k = some o ∧ o.operationType = .workloadBackup := by
  obtain ⟨o, ho, htype⟩ := hb
  obtain ⟨o', ho', htype'⟩ := h k o ho
  exact ⟨o', ho', htype'.trans htype⟩

/-- What others do leaves a session's copies what they are. -/
theorem Carries.stepped (h : Carries a θ db) (ht : Typed db db') (hb : Remain db.backupRuns db'.backupRuns) :
    Carries a θ db' := by
  cases h with
  | nothing loaded current => exact .nothing loaded current
  | run loaded current backup carried => exact .run loaded current (ht.backup backup) (carried.stepped hb)

/-- What an operation may assign to the run: an improvement of it. -/
def Assigns (a : Archive) (op : RunnerOp ρ) (θ : OpState) : Prop :=
  ∀ e, op.assigned = some e → ∀ c, θ.current.backupRun = some c → Improves a θ.operationId c (e.backupRun c)

/-- A commit of the session. -/
theorem carries_flush (h : Carries a θ db) (hown : ∀ r ∈ db.backupRuns, Own a r) (θ₁ : OpState)
    (hid : θ₁.operationId = θ.operationId) (hloaded : θ₁.loaded.backupRun = θ.loaded.backupRun)
    (hcurrent : ∃ g : BackupRun → BackupRun, θ₁.current.backupRun = θ.current.backupRun.map g ∧
      ∀ c, Improves a θ.operationId c (g c))
    (hdb : db'.backupRuns = flushRow BackupRun.merge θ₁.loaded.backupRun θ₁.current.backupRun db.backupRuns)
    (ht : Typed db db') : Becomes a db.backupRuns db'.backupRuns ∧ Carries a θ₁.saved db' := by
  obtain ⟨g, hcurrent, hg⟩ := hcurrent
  cases h with
  | nothing loaded current =>
    rw [current, Option.map_none] at hcurrent
    rw [hloaded, loaded] at hdb
    refine ⟨?_, .nothing hcurrent hcurrent⟩
    rw [hdb]
    exact .refl hown
  | @run l c loaded current backup carried =>
    rw [current, Option.map_some] at hcurrent
    rw [hloaded, loaded, hcurrent] at hdb
    obtain ⟨hbecomes, hcarried⟩ := (carried.improved (hg c)).flushed hown
    rw [hdb]
    refine ⟨hbecomes, .run hcurrent hcurrent ?_ ?_⟩
    · show ∃ o, db'.operations.get? θ₁.operationId = some o ∧ _
      rw [hid]
      exact ht.backup backup
    · show Carried a θ₁.operationId db'.backupRuns (g c) (g c)
      rw [hid, hdb]
      exact hcarried

theorem improves_finished (a : Archive) (k : Uuid) (f : Finish) (c : BackupRun) :
    Improves a k c { c with status := f.status, finishedAt := some f.time } :=
  ⟨rfl, rfl, rfl, fun h => h, fun _ h => h⟩

/-- **What an effect does to the runs**, and to the copies in its session. -/
theorem effect_runs (he : OpEffect now op θ db θ' db') (hs : θ.Sound) (hown : ∀ r ∈ db.backupRuns, Own a r)
    (h : Carries a θ db) (hassigns : Assigns a op θ) :
    Becomes a db.backupRuns db'.backupRuns ∧ Carries a θ' db' := by
  have ht := effect_typed he hs
  have carries_loaded {s : OpSession} {o : Operation} (loads : Loads θ db s o) : Carries a (θ.load s) db := by
    cases loads_run loads with
    | nothing run => exact .nothing run run
    | run run stored own backup =>
      have hfresh := Carried.fresh stored (hown _ stored)
      rw [own] at hfresh
      exact .run run run backup hfresh
  cases he with
  | @assigned e hassigned =>
    refine ⟨.refl hown, ?_⟩
    cases h with
    | nothing loaded current =>
      refine .nothing loaded ?_
      show θ.current.backupRun.map e.backupRun = none
      rw [current]
      rfl
    | @run l c loaded current backup carried =>
      have himproves : Improves a θ.operationId c (e.backupRun c) := by
        rcases hassigned with rfl | hassigned
        · exact .refl a _ c
        · exact hassigns e hassigned c current
      refine .run loaded ?_ backup (carried.improved himproves)
      show θ.current.backupRun.map e.backupRun = _
      rw [current]
      rfl
  | rolledBack =>
    refine ⟨.refl hown, ?_⟩
    cases h with
    | nothing loaded current => exact .nothing loaded loaded
    | run loaded current backup carried => exact .run loaded loaded backup carried.rolledBack
  | saved => exact carries_flush h hown θ rfl rfl ⟨id, (Option.map_id_apply).symm, .refl a _⟩ rfl ht
  | @submitted t tasks hadded inserted =>
    exact carries_flush h hown (θ.withTask t) rfl rfl ⟨id, (Option.map_id_apply).symm, .refl a _⟩ rfl ht
  | @finished f hf => exact carries_flush h hown (θ.finished f) rfl rfl ⟨_, rfl, improves_finished a _ f⟩ rfl ht
  | loaded _ loads => exact ⟨.refl hown, carries_loaded loads⟩
  | @refused _ s o loads f failed plain =>
    exact carries_flush (carries_loaded loads) hown ((θ.load s).finished f) rfl rfl
      ⟨_, rfl, improves_finished a _ f⟩ rfl ht
  | @started _ s o loads =>
    have hcurrent : ((θ.load s).started now).current.backupRun = s.backupRun.map (startedRun now) := rfl
    have hdb : (((θ.load s).started now).flush db).backupRuns =
        flushRow BackupRun.merge s.backupRun (s.backupRun.map (startedRun now)) db.backupRuns := rfl
    cases loads_run loads with
    | nothing run =>
      rw [run, Option.map_none] at hcurrent
      rw [run] at hdb
      refine ⟨?_, .nothing hcurrent hcurrent⟩
      rw [hdb]
      exact .refl hown
    | @run r run stored own backup =>
      rw [run, Option.map_some] at hcurrent
      rw [run, Option.map_some] at hdb
      obtain ⟨hbecomes, hcarried⟩ := flush_started now stored hown
      rw [own, ← hdb] at hcarried
      rw [← hdb] at hbecomes
      exact ⟨hbecomes, .run hcurrent hcurrent (ht.backup backup) hcarried⟩

end Sessions

/-! ### What a success says -/

/-- The result says that no snapshot is known yet, in both of its entries. -/
def Pending (result : Dict) : Prop :=
  result.get? "metadata_pending" = some (.bool true) ∧ result.get? "snapshot_volume_id" = some .null

/-- The result of a run that has recorded a volume, or has none to record. -/
def Says (result : Dict) : Option String → Prop
  | none => Pending result
  | some v => result.get? "snapshot_volume_id" = some (.str v) ∧ ∃ b, result.get? "metadata_pending" = some (.bool b)

theorem Says.marked {result : Dict} {volid : Option String} (h : Says result volid) :
    result.get? "metadata_pending" ≠ none := by
  cases volid with
  | none =>
    rw [h.1]
    nofun
  | some v =>
    obtain ⟨-, b, hb⟩ := h
    rw [hb]
    nofun

/-- What holds of every backup run, and of the results of the operations. -/
structure Settled (a : Archive) (db : Db) : Prop where
  once : Table.Once BackupRun.operationId db.backupRuns
  own : ∀ r ∈ db.backupRuns, Own a r
  untold : ∀ k o, db.operations.get? k = some o → o.operationType = .workloadBackup → o.status.terminal = false →
    o.result.get? "metadata_pending" = none
  told : ∀ k o, db.operations.get? k = some o → o.operationType = .workloadBackup → o.status = .succeeded →
    ∃ volid, Says o.result volid ∧ (∀ v, volid = some v → a v = some k) ∧
      ∀ r ∈ db.backupRuns, r.operationId = k → r.snapshotVolumeId = none → volid = none

/-- The success of an admitted run reports the volume in its session. -/
def Reports (θ : OpState) (f : Finish) : Prop :=
  ∃ l c, θ.loaded.operation = some l ∧ l.status = .running ∧ l.result.get? "metadata_pending" = none ∧
    θ.current.backupRun = some c ∧ ∀ result, Says (f.result result) c.snapshotVolumeId

/-- A result other than success is left alone, and a success reports what is recorded. -/
def Finishes {ρ : Type} (o : RunnerOp ρ) (θ : OpState) : Prop :=
  ∀ f, o.finishWith = some f → (f.status ≠ .succeeded → f.result = id) ∧ (f.status = .succeeded → Reports θ f)

theorem Becomes.once {a : Archive} {t t' : Table BackupRun} (h : Becomes a t t')
    (ht : Table.Once BackupRun.operationId t) : Table.Once BackupRun.operationId t' := by
  obtain ⟨step, hmem, hstep⟩ := h
  intro r₁ h₁ r₂ h₂ heq
  obtain ⟨q₁, hq₁, rfl⟩ := (hmem r₁).mp h₁
  obtain ⟨q₂, hq₂, rfl⟩ := (hmem r₂).mp h₂
  rw [(hstep q₁ hq₁).operation, (hstep q₂ hq₂).operation] at heq
  rw [ht q₁ hq₁ q₂ hq₂ heq]

theorem Becomes.own {a : Archive} {t t' : Table BackupRun} (h : Becomes a t t') : ∀ r ∈ t', Own a r := by
  obtain ⟨step, hmem, hstep⟩ := h
  intro r' hr'
  obtain ⟨r, hr, rfl⟩ := (hmem r').mp hr'
  exact (hstep r hr).own

section Effects
variable {a : Archive} {now : Instant} {ρ : Type} {op : RunnerOp ρ} {θ θ' : OpState} {db db' : Db}

/-- A session that finishes with a success, and what is stored of its run. -/
theorem told_finished (hsettled : Settled a db) (hcarries : Carries a θ db) {f : Finish} {k : Uuid} {l q q' : Operation}
    (hreports : Reports θ f) (hk : θ.operationId = k) (hl : θ.loaded.operation = some l)
    (hresult : q'.result = written l.result (f.result l.result) q.result)
    (ht : Typed db (finishedDb θ f db)) (honce : Table.Once BackupRun.operationId (finishedDb θ f db).backupRuns) :
    ∃ volid, Says q'.result volid ∧ (∀ v, volid = some v → a v = some k) ∧
      ∀ r ∈ (finishedDb θ f db).backupRuns, r.operationId = k → r.snapshotVolumeId = none → volid = none := by
  obtain ⟨l', c, hl', -, huntold, hcurrent, htold⟩ := hreports
  obtain rfl : l = l' := Option.some.inj (hl.symm.trans hl')
  have hchanged : f.result l.result ≠ l.result := by
    intro hsame
    have hmarked := (htold l.result).marked
    rw [hsame] at hmarked
    exact hmarked huntold
  rw [written_of_ne _ hchanged] at hresult
  refine ⟨c.snapshotVolumeId, ?_, fun v hv => ?_, fun r hr hown hnone => ?_⟩
  · rw [hresult]
    exact htold l.result
  · cases hcarries with
    | nothing _ current =>
      rw [hcurrent] at current
      cases current
    | run _ current _ carried =>
      obtain rfl := Option.some.inj (hcurrent.symm.trans current)
      have hmade := carried.own.2.1 v hv
      rw [carried.operation.2, hk] at hmade
      exact hmade
  · obtain ⟨-, hafter⟩ := carries_flush hcarries hsettled.own (θ.finished f) rfl rfl
      ⟨_, rfl, improves_finished a _ f⟩ rfl ht
    have hstored : (θ.finished f).saved.current.backupRun =
        some { c with status := f.status, finishedAt := some f.time } := by
      show θ.current.backupRun.map _ = _
      rw [hcurrent]
      rfl
    cases hafter with
    | nothing _ current =>
      rw [hstored] at current
      cases current
    | @run l₁ c₁ loaded current _ carried =>
      have hboth : some l₁ = some c₁ := loaded.symm.trans current
      obtain rfl := Option.some.inj hboth
      obtain rfl := Option.some.inj (hstored.symm.trans current)
      obtain ⟨r₁, hr₁, -, hown₁, hvolume, -⟩ := carried.stored
      have hown₁ : r₁.operationId = k := hown₁.trans hk
      obtain rfl := honce r hr r₁ hr₁ (hown.trans hown₁.symm)
      exact hvolume hnone

/-- **What an effect keeps**: every record stays a run's own, every success says what is recorded. -/
theorem effect_settled (he : OpEffect now op θ db θ' db') (hs : θ.Sound) (hsettled : Settled a db)
    (hcarries : Carries a θ db) (hassigns : Assigns a op θ)
    (hfinishes : OfType θ.operationId .workloadBackup db → Finishes op θ) : Settled a db' := by
  have ht := effect_typed he hs
  obtain ⟨hbecomes, -⟩ := effect_runs he hs hsettled.own hcarries hassigns
  have honce := hbecomes.once hsettled.once
  have of_row (k : Uuid) (q' : Operation) (hq' : db'.operations.get? k = some q')
      (htype : q'.operationType = .workloadBackup) :
      (q'.status.terminal = false → q'.result.get? "metadata_pending" = none) ∧
      (q'.status = .succeeded → ∃ volid, Says q'.result volid ∧ (∀ v, volid = some v → a v = some k) ∧
        ∀ r ∈ db'.backupRuns, r.operationId = k → r.snapshotVolumeId = none → volid = none) := by
    cases hq : db.operations.get? k with
    | none =>
      rw [effect_absent he hs hq] at hq'
      cases hq'
    | some q =>
      obtain ⟨q₁, hq₁, htype₁, -, hchange⟩ := effect_changes he hs hq
      obtain rfl := Option.some.inj (hq₁.symm.trans hq')
      have hbackup : q.operationType = .workloadBackup := htype₁.symm.trans htype
      -- a row that keeps its status and its result
      have same (status : q₁.status = q.status) (result : q₁.result = q.result) :
          (q₁.status.terminal = false → q₁.result.get? "metadata_pending" = none) ∧
          (q₁.status = .succeeded → ∃ volid, Says q₁.result volid ∧ (∀ v, volid = some v → a v = some k) ∧
            ∀ r ∈ db'.backupRuns, r.operationId = k → r.snapshotVolumeId = none → volid = none) := by
        rw [status, result]
        refine ⟨hsettled.untold k q hq hbackup, fun hsucceeded => ?_⟩
        obtain ⟨volid, htold, hmade, hstored⟩ := hsettled.told k q hq hbackup hsucceeded
        refine ⟨volid, htold, hmade, fun r' hr' hown hnone => ?_⟩
        obtain ⟨step, hmem, hstep⟩ := hbecomes
        obtain ⟨r, hr, rfl⟩ := (hmem r').mp hr'
        exact hstored r hr ((hstep r hr).operation.symm.trans hown) ((hstep r hr).volume hnone)
      cases hchange with
      | kept status result => exact same status result
      | started unfinished status result =>
        refine ⟨fun _ => ?_, fun hsucceeded => ?_⟩
        · rw [result]
          exact hsettled.untold k q hq hbackup unfinished
        · rw [status] at hsucceeded
          cases hsucceeded
      | refused status result =>
        refine ⟨fun hopen => ?_, fun hsucceeded => ?_⟩
        · rw [status] at hopen
          cases hopen
        · rw [status] at hsucceeded
          cases hsucceeded
      | @finished f l hf own row status result committed =>
        have hk : θ.operationId = k := own.trans (Table.get?_key hq)
        have hoftype : OfType θ.operationId .workloadBackup db := by
          intro o ho
          rw [hk, hq] at ho
          obtain rfl := Option.some.inj ho
          exact hbackup
        obtain ⟨hplain, hreports⟩ := hfinishes hoftype f hf
        by_cases hsucceeded : f.status = .succeeded
        · have hrunning : l.status = .running := by
            obtain ⟨l', -, hl', hrunning, -⟩ := hreports hsucceeded
            rw [Option.some.inj (row.symm.trans hl')]
            exact hrunning
          have hstatus : q₁.status = .succeeded := by
            rw [status, hsucceeded]
            apply written_of_ne
            rw [hrunning]
            nofun
          refine ⟨fun hopen => ?_, fun _ => ?_⟩
          · rw [hstatus] at hopen
            cases hopen
          · subst committed
            exact told_finished hsettled hcarries (hreports hsucceeded) hk row result ht honce
        · rw [hplain hsucceeded, id_eq, written_unchanged] at result
          by_cases hsame : f.status = l.status
          · rw [hsame, written_unchanged] at status
            exact same status result
          · rw [written_of_ne _ hsame] at status
            refine ⟨fun hopen => ?_, fun hwon => ?_⟩
            · rw [status, f.terminal] at hopen
              cases hopen
            · exact absurd (status.symm.trans hwon) hsucceeded
  exact ⟨honce, hbecomes.own, fun k q' hq' htype => (of_row k q' hq' htype).1,
    fun k q' hq' htype => (of_row k q' hq' htype).2⟩

end Effects

end PveMaster.Snapshots
