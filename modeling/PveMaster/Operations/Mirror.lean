import PveMaster.Operations.Assignments
import PveMaster.Operations.Routing
import PveMaster.Requests.Acceptances

/-! The runs that mirror their operation.

A backup or restore run repeats the status of the operation it belongs to, and the index
that keeps one restore per target reads the copy. The two runners write both in one commit;
the power runner knows the operation only, and looks at its action after the commit that
admits it: then it ends. So the copy is in step exactly as long as no such commit changes the
status of a backup or a restore, which is told from the state it finds (`spared_iff`). -/
namespace PveMaster.Mirror

open Assignments (Gentle Tame gentle_nothing program_enters)

/-! ### Rows that repeat a status -/

/-- A row that belongs to an operation and repeats its status. -/
class RunRow (ρ : Type) [Keyed ρ Uuid] where
  operationId : ρ → Uuid
  status : ρ → OperationStatus
  /-- The operations that have such a row. -/
  type : OperationType
  merge : ρ → ρ → ρ → ρ
  merge_key : ∀ l c r, Keyed.key (merge l c r) = Keyed.key r
  merge_operationId : ∀ l c r, operationId (merge l c r) = operationId r
  merge_status : ∀ l c r, status (merge l c r) = written (status l) (status c) (status r)

instance : RunRow BackupRun where
  operationId := BackupRun.operationId
  status := BackupRun.status
  type := .workloadBackup
  merge := BackupRun.merge
  merge_key _ _ _ := rfl
  merge_operationId _ _ _ := rfl
  merge_status _ _ _ := rfl

instance : RunRow RestoreRun where
  operationId := RestoreRun.operationId
  status := RestoreRun.status
  type := .workloadRestore
  merge := RestoreRun.merge
  merge_key _ _ _ := rfl
  merge_operationId _ _ _ := rfl
  merge_status _ _ _ := rfl

open Keyed (key)
open RunRow (operationId status merge)

section Rows
variable {ρ : Type} [Keyed ρ Uuid] [RunRow ρ] {ops ops' : Table Operation} {runs runs' : Table ρ}

/-- Every run has its operation, with the same status, and every operation of the type has
one run. -/
structure Mirrored (ops : Table Operation) (runs : Table ρ) : Prop where
  same : ∀ r ∈ runs, ∃ o, ops.get? (operationId r) = some o ∧
    o.operationType = RunRow.type ρ ∧ status r = o.status
  once : ∀ r ∈ runs, ∀ r' ∈ runs, operationId r = operationId r' → r = r'
  run : ∀ o ∈ ops, o.operationType = RunRow.type ρ → ∃ r ∈ runs, operationId r = o.id

/-- What others may do to the tables: rows stay, and a new run belongs to a new operation. -/
structure Grows (ops : Table Operation) (runs : Table ρ) (ops' : Table Operation) (runs' : Table ρ) :
    Prop where
  operations : ∀ k o, ops.get? k = some o →
    ∃ o', ops'.get? k = some o' ∧ o'.operationType = o.operationType
  kept : ∀ r ∈ runs, ∃ r' ∈ runs', key r' = key r ∧ operationId r' = operationId r
  new : ∀ r' ∈ runs', (ops.get? (operationId r')).isSome = true →
    ∃ r ∈ runs, key r = key r' ∧ operationId r = operationId r'

theorem Grows.refl (ops : Table Operation) (runs : Table ρ) : Grows ops runs ops runs :=
  ⟨fun _ o h => ⟨o, h, rfl⟩, fun r h => ⟨r, h, rfl, rfl⟩, fun r h _ => ⟨r, h, rfl, rfl⟩⟩

/-- A session holds an operation and the run that belongs to it, if there is one. -/
structure Follows (o : Option Operation) (run : Option ρ) (ops : Table Operation) (runs : Table ρ) :
    Prop where
  known : ∀ l, o = some l → ∃ s, ops.get? l.id = some s ∧ s.operationType = l.operationType
  complete : ∀ l, o = some l → ∀ r ∈ runs, operationId r = l.id → ∃ c, run = some c ∧ key c = key r
  equal : ∀ c, run = some c → ∃ l, o = some l ∧ operationId c = l.id ∧ status c = l.status ∧
    ∃ r ∈ runs, key r = key c ∧ operationId r = operationId c

theorem follows_none : Follows none (none : Option ρ) ops runs where
  known l hl := by cases hl
  complete l hl := by cases hl
  equal c hc := by cases hc

theorem Follows.mono {o : Option Operation} {run : Option ρ} (h : Follows o run ops runs)
    (hg : Grows ops runs ops' runs') : Follows o run ops' runs' where
  known l hl := by
    obtain ⟨s, hs, htype⟩ := h.known l hl
    obtain ⟨s', hs', htype'⟩ := hg.operations _ s hs
    exact ⟨s', hs', htype'.trans htype⟩
  complete l hl r' hr' hid := by
    obtain ⟨s, hs, -⟩ := h.known l hl
    obtain ⟨r, hr, hkey, hop⟩ := hg.new r' hr' (by rw [hid, hs]; rfl)
    obtain ⟨c, hc, hck⟩ := h.complete l hl r hr (hop.trans hid)
    exact ⟨c, hc, hck.trans hkey⟩
  equal c hc := by
    obtain ⟨l, hl, hid, hstatus, r, hr, hkey, hop⟩ := h.equal c hc
    obtain ⟨r', hr', hkey', hop'⟩ := hg.kept r hr
    exact ⟨l, hl, hid, hstatus, r', hr', hkey'.trans hkey, hop'.trans hop⟩

/-- The same rows, with statuses that are the same again. -/
theorem Follows.map {o : Option Operation} {run : Option ρ} (h : Follows o run ops runs)
    {f : Operation → Operation} {g : ρ → ρ}
    (hf : ∀ l, (f l).id = l.id ∧ (f l).operationType = l.operationType)
    (hg : ∀ c, key (g c) = key c ∧ operationId (g c) = operationId c)
    (hs : ∀ l c, status c = l.status → status (g c) = (f l).status) :
    Follows (o.map f) (run.map g) ops runs where
  known l' hl' := by
    obtain ⟨l, hl, rfl⟩ := Option.map_eq_some_iff.mp hl'
    rw [(hf l).1, (hf l).2]
    exact h.known l hl
  complete l' hl' r hr hid := by
    obtain ⟨l, hl, rfl⟩ := Option.map_eq_some_iff.mp hl'
    rw [(hf l).1] at hid
    obtain ⟨c, hc, hck⟩ := h.complete l hl r hr hid
    exact ⟨g c, by rw [hc]; rfl, (hg c).1.trans hck⟩
  equal c' hc' := by
    obtain ⟨c, hc, rfl⟩ := Option.map_eq_some_iff.mp hc'
    obtain ⟨l, hl, hid, hstatus, r, hr, hkey, hop⟩ := h.equal c hc
    refine ⟨f l, by rw [hl]; rfl, ?_, hs l c hstatus, r, hr, hkey.trans (hg c).1.symm,
      hop.trans (hg c).2.symm⟩
    rw [(hg c).2, (hf l).1, hid]

/-- An operation without a run, because of its type. -/
theorem follows_other {o : Operation} (hm : Mirrored ops runs) (ho : ops.get? o.id = some o)
    (htype : o.operationType ≠ RunRow.type ρ) : Follows (some o) (none : Option ρ) ops runs where
  known l hl := by
    cases hl
    exact ⟨o, ho, rfl⟩
  complete l hl r hr hid := by
    cases hl
    obtain ⟨o', ho', htype', -⟩ := hm.same r hr
    rw [hid, ho] at ho'
    cases ho'
    exact absurd htype' htype
  equal c hc := by cases hc

/-- An operation with the run a query finds for it. -/
theorem follows_first {o : Operation} (hm : Mirrored ops runs) (ho : ops.get? o.id = some o) :
    Follows (some o) (runs.first (fun r => operationId r == o.id)) ops runs where
  known l hl := by
    cases hl
    exact ⟨o, ho, rfl⟩
  complete l hl r hr hid := by
    cases hl
    cases hfirst : runs.first (fun r => operationId r == o.id) with
    | none =>
      have := Table.first_none hfirst hr
      simp [hid] at this
    | some c =>
      obtain ⟨hmem, hc⟩ := Table.first_some hfirst
      have hc : operationId c = o.id := by simpa using hc
      exact ⟨c, rfl, by rw [hm.once c hmem r hr (hc.trans hid.symm)]⟩
  equal c hc := by
    obtain ⟨hmem, hid⟩ := Table.first_some hc
    have hid : operationId c = o.id := by simpa using hid
    obtain ⟨o', ho', -, hstatus⟩ := hm.same c hmem
    rw [hid, ho] at ho'
    cases ho'
    exact ⟨o, rfl, hid, hstatus, c, hmem, rfl, rfl⟩

/-! ### Flushes -/

/-- What a session has loaded and what it holds now. -/
structure Held (lo co : Option Operation) (lr cr : Option ρ) (ops : Table Operation)
    (runs : Table ρ) : Prop where
  loaded : Follows lo lr ops runs
  current : Follows co cr ops runs
  operation : co.map Operation.id = lo.map Operation.id
  run : cr.map key = lr.map (key : ρ → Uuid)

theorem Held.mono {lo co : Option Operation} {lr cr : Option ρ} (h : Held lo co lr cr ops runs)
    (hg : Grows ops runs ops' runs') : Held lo co lr cr ops' runs' :=
  ⟨h.loaded.mono hg, h.current.mono hg, h.operation, h.run⟩

theorem Follows.held {o : Option Operation} {run : Option ρ} (h : Follows o run ops runs) :
    Held o o run run ops runs := ⟨h, h, rfl, rfl⟩

theorem Held.map {lo co : Option Operation} {lr cr : Option ρ} (h : Held lo co lr cr ops runs)
    {f : Operation → Operation} {g : ρ → ρ}
    (hf : ∀ l, (f l).id = l.id ∧ (f l).operationType = l.operationType)
    (hg : ∀ c, key (g c) = key c ∧ operationId (g c) = operationId c)
    (hs : ∀ l c, status c = l.status → status (g c) = (f l).status) :
    Held lo (co.map f) lr (cr.map g) ops runs := by
  refine ⟨h.loaded, h.current.map hf hg hs, ?_, ?_⟩
  · rw [Option.map_map, ← h.operation]
    congr 1
    funext l
    exact (hf l).1
  · rw [Option.map_map, ← h.run]
    congr 1
    funext c
    exact (hg c).1

variable {lo co : Option Operation} {lr cr : Option ρ}

theorem key_merge (l c r : Operation) : key (Operation.merge l c r) = key r := rfl

/-- The operation after a flush. -/
abbrev flushedOperation (lo co : Option Operation) : Operation → Operation :=
  flushed Operation.merge lo co

theorem get?_flushOperation (k : Uuid) : (flushRow Operation.merge lo co ops).get? k =
    (ops.get? k).map (flushedOperation lo co) := get?_flushRow key_merge k

theorem flushedOperation_names (o : Operation) : (flushedOperation lo co o).id = o.id ∧
    (flushedOperation lo co o).operationType = o.operationType := by
  unfold flushedOperation flushed
  split
  · split <;> exact ⟨rfl, rfl⟩
  · exact ⟨rfl, rfl⟩

theorem operationId_flushed (r : ρ) : operationId (flushed merge lr cr r) = operationId r := by
  unfold flushed
  split
  · split
    · exact RunRow.merge_operationId _ _ r
    · rfl
  · rfl

theorem grows_flush (lo co : Option Operation) (lr cr : Option ρ) (ops : Table Operation)
    (runs : Table ρ) : Grows ops runs (flushRow Operation.merge lo co ops) (flushRow merge lr cr runs) where
  operations k o ho := by
    refine ⟨flushedOperation lo co o, ?_, (flushedOperation_names o).2⟩
    rw [get?_flushOperation, ho]
    rfl
  kept r hr := ⟨_, (mem_flushRow RunRow.merge_key).mpr ⟨r, hr, rfl⟩,
    key_flushed RunRow.merge_key r, operationId_flushed r⟩
  new r' hr' _ := by
    obtain ⟨r, hr, rfl⟩ := (mem_flushRow RunRow.merge_key).mp hr'
    exact ⟨r, hr, (key_flushed RunRow.merge_key r).symm, (operationId_flushed r).symm⟩

/-- A flush of both rows writes the same status to them. -/
theorem status_flushed (h : Held lo co lr cr ops runs) {r : ρ} {o : Operation} (hr : r ∈ runs)
    (ho : ops.get? (operationId r) = some o) (hs : status r = o.status) :
    status (flushed merge lr cr r) = (flushedOperation lo co o).status := by
  have hid : key o = operationId r := Table.get?_key ho
  -- both rows are loaded, or none of them
  by_cases hloaded : ∃ l, lo = some l ∧ l.id = operationId r
  · obtain ⟨l, rfl, hl⟩ := hloaded
    obtain ⟨lrun, rfl, hkey⟩ := h.loaded.complete l rfl r hr hl.symm
    obtain ⟨c, rfl, -⟩ := Option.map_eq_some_iff.mp h.operation
    obtain ⟨crun, rfl, -⟩ := Option.map_eq_some_iff.mp h.run
    obtain ⟨l', hl', -, hls, -⟩ := h.loaded.equal lrun rfl
    obtain ⟨c', hc', -, hcs, -⟩ := h.current.equal crun rfl
    cases hl'
    cases hc'
    have hrun : flushed merge (some lrun) (some crun) r = merge lrun crun r := if_pos hkey
    have hop : flushedOperation (some l) (some c) o = Operation.merge l c o :=
      if_pos (hl.trans hid.symm)
    rw [hrun, hop, RunRow.merge_status, hls, hcs, hs]
    rfl
  · have hop : flushedOperation lo co o = o := by
      unfold flushedOperation flushed
      split
      · next l c =>
        refine if_neg fun hk => hloaded ⟨l, rfl, ?_⟩
        exact hk.trans hid
      · rfl
    have hrun : flushed merge lr cr r = r := by
      unfold flushed
      split
      · next l c =>
        refine if_neg fun hk => hloaded ?_
        obtain ⟨lop, rfl, hlid, -, q, hq, hqkey, hqop⟩ := h.loaded.equal l rfl
        have hqr : q = r := Table.eq_of_key hq hr (hqkey.trans hk)
        exact ⟨lop, rfl, by rw [← hlid, ← hqop, hqr]⟩
      · rfl
    rw [hop, hrun, hs]

/-- **A flush of both rows** keeps them alike. -/
theorem mirrored_flush (hm : Mirrored ops runs) (h : Held lo co lr cr ops runs) :
    Mirrored (flushRow Operation.merge lo co ops) (flushRow merge lr cr runs) where
  same r' hr' := by
    obtain ⟨r, hr, rfl⟩ := (mem_flushRow RunRow.merge_key).mp hr'
    obtain ⟨o, ho, htype, hstatus⟩ := hm.same r hr
    refine ⟨flushedOperation lo co o, ?_, (flushedOperation_names o).2.trans htype,
      status_flushed h hr ho hstatus⟩
    rw [operationId_flushed, get?_flushOperation, ho]
    rfl
  once r₁ h₁ r₂ h₂ hop := by
    obtain ⟨q₁, hq₁, rfl⟩ := (mem_flushRow RunRow.merge_key).mp h₁
    obtain ⟨q₂, hq₂, rfl⟩ := (mem_flushRow RunRow.merge_key).mp h₂
    rw [operationId_flushed, operationId_flushed] at hop
    rw [hm.once q₁ hq₁ q₂ hq₂ hop]
  run o' ho' htype := by
    obtain ⟨o, ho, rfl⟩ := (mem_flushRow key_merge).mp ho'
    rw [(flushedOperation_names o).2] at htype
    obtain ⟨r, hr, hop⟩ := hm.run o ho htype
    refine ⟨_, (mem_flushRow RunRow.merge_key).mpr ⟨r, hr, rfl⟩, ?_⟩
    rw [operationId_flushed, (flushedOperation_names o).1, hop]

/-- **A flush of the operations alone** keeps them alike if it leaves the statuses. -/
theorem mirrored_statuses (hm : Mirrored ops runs) (hs : ∀ o ∈ ops, (flushedOperation lo co o).status = o.status) :
    Mirrored (flushRow Operation.merge lo co ops) runs where
  same r hr := by
    obtain ⟨o, ho, htype, hstatus⟩ := hm.same r hr
    refine ⟨flushedOperation lo co o, ?_, (flushedOperation_names o).2.trans htype,
      hstatus.trans (hs o (Table.get?_mem ho)).symm⟩
    rw [get?_flushOperation, ho]
    rfl
  once := hm.once
  run o' ho' htype := by
    obtain ⟨o, ho, rfl⟩ := (mem_flushRow key_merge).mp ho'
    rw [(flushedOperation_names o).2] at htype
    obtain ⟨r, hr, hop⟩ := hm.run o ho htype
    exact ⟨r, hr, hop.trans (flushedOperation_names o).1.symm⟩

/-- What a session has committed it holds as it is stored. -/
theorem held_flush (h : Held lo co lr cr ops runs) :
    Held co co cr cr (flushRow Operation.merge lo co ops) (flushRow merge lr cr runs) :=
  (h.current.mono (grows_flush lo co lr cr ops runs)).held

end Rows

/-! ### Sessions -/

/-- Both kinds of runs mirror their operations. -/
structure Kept (db : Db) : Prop where
  backup : Mirrored db.operations db.backupRuns
  restore : Mirrored db.operations db.restoreRuns

structure Extends (db db' : Db) : Prop where
  backup : Grows db.operations db.backupRuns db'.operations db'.backupRuns
  restore : Grows db.operations db.restoreRuns db'.operations db'.restoreRuns

/-- A session holds its operation with the run that belongs to it, of either kind. -/
structure Knows (θ : OpState) (db : Db) : Prop where
  backup : Held θ.loaded.operation θ.current.operation θ.loaded.backupRun θ.current.backupRun
    db.operations db.backupRuns
  restore : Held θ.loaded.operation θ.current.operation θ.loaded.restoreRun θ.current.restoreRun
    db.operations db.restoreRuns

theorem Extends.refl (db : Db) : Extends db db := ⟨.refl _ _, .refl _ _⟩

section Sessions
variable {now : Instant} {ρ : Type} {op : RunnerOp ρ} {θ θ' : OpState} {db db' : Db}

theorem Knows.mono (h : Knows θ db) (he : Extends db db') : Knows θ db' :=
  ⟨h.backup.mono he.backup, h.restore.mono he.restore⟩

theorem knows_start (m : OpMessage) (db : Db) :
    Knows { kind := m.task, operationId := m.operationId } db :=
  ⟨follows_none.held, follows_none.held⟩

/-- A commit of what a session holds. -/
theorem kept_saved (hI : Kept db) (h : Knows θ db) (hops : db'.operations = (θ.flush db).operations)
    (hbackup : db'.backupRuns = (θ.flush db).backupRuns)
    (hrestore : db'.restoreRuns = (θ.flush db).restoreRuns) :
    Kept db' ∧ Extends db db' ∧ Knows θ.saved db' := by
  have hbackups := mirrored_flush hI.backup h.backup
  have hrestores := mirrored_flush hI.restore h.restore
  have hheldBackup := held_flush h.backup
  have hheldRestore := held_flush h.restore
  have hgrownBackup := grows_flush θ.loaded.operation θ.current.operation θ.loaded.backupRun
    θ.current.backupRun db.operations db.backupRuns
  have hgrownRestore := grows_flush θ.loaded.operation θ.current.operation θ.loaded.restoreRun
    θ.current.restoreRun db.operations db.restoreRuns
  refine ⟨⟨?_, ?_⟩, ⟨?_, ?_⟩, ⟨?_, ?_⟩⟩
  · rw [hops, hbackup]
    exact hbackups
  · rw [hops, hrestore]
    exact hrestores
  · rw [hops, hbackup]
    exact hgrownBackup
  · rw [hops, hrestore]
    exact hgrownRestore
  · rw [hops, hbackup]
    exact hheldBackup
  · rw [hops, hrestore]
    exact hheldRestore

theorem Knows.finished (h : Knows θ db) (f : Finish) : Knows (θ.finished f) db :=
  ⟨h.backup.map (fun _ => ⟨rfl, rfl⟩) (fun _ => ⟨rfl, rfl⟩) (fun _ _ _ => rfl),
    h.restore.map (fun _ => ⟨rfl, rfl⟩) (fun _ => ⟨rfl, rfl⟩) (fun _ _ _ => rfl)⟩

theorem Knows.started (h : Knows θ db) (now : Instant) : Knows (θ.started now) db :=
  ⟨h.backup.map (fun _ => ⟨rfl, rfl⟩) (fun _ => ⟨rfl, rfl⟩) (fun _ _ _ => rfl),
    h.restore.map (fun _ => ⟨rfl, rfl⟩) (fun _ => ⟨rfl, rfl⟩) (fun _ _ _ => rfl)⟩

theorem Knows.assign (h : Knows θ db) {e : Edit} (he : Gentle e) : Knows (θ.assign e) db := by
  refine ⟨h.backup.map (fun l => ⟨beat_id _ l, beat_operationType _ l⟩)
    (fun c => ⟨(he.backupRun c).1, (he.backupRun c).2.1⟩) fun l c hs => ?_, ?_⟩
  · rw [beat_status, ← hs]
    exact (he.backupRun c).2.2
  · have hrestore := h.restore.map (f := beat e.heartbeatAt) (g := id)
      (fun l => ⟨beat_id _ l, beat_operationType _ l⟩) (fun _ => ⟨rfl, rfl⟩) (fun l _ hs => by
        rw [beat_status]
        exact hs)
    rw [Option.map_id, id_eq] at hrestore
    exact hrestore

/-- The session an admission loads, unless it is the power runner's and the operation is one
of a run. -/
theorem Knows.of_loads {s : OpSession} {o : Operation} (hI : Kept db) (loads : Loads θ db s o)
    (hpower : θ.kind = .power → o.operationType.runner = .power) : Knows (θ.load s) db := by
  have hbackup : Follows (some o) s.backupRun db.operations db.backupRuns := by
    rw [loads.backupRun]
    split
    · exact follows_first hI.backup loads.found
    · next hkind =>
      refine follows_other hI.backup loads.found fun htype => ?_
      have htype : o.operationType = .workloadBackup := htype
      have haccepts := loads.accepts
      cases hk : θ.kind with
      | power =>
        have := hpower hk
        rw [htype] at this
        cases this
      | backup => exact hkind hk
      | restore =>
        rw [hk, htype] at haccepts
        cases haccepts
  have hrestore : Follows (some o) s.restoreRun db.operations db.restoreRuns := by
    rw [loads.restoreRun]
    split
    · exact follows_first hI.restore loads.found
    · next hkind =>
      refine follows_other hI.restore loads.found fun htype => ?_
      have htype : o.operationType = .workloadRestore := htype
      have haccepts := loads.accepts
      cases hk : θ.kind with
      | power =>
        have := hpower hk
        rw [htype] at this
        cases this
      | restore => exact hkind hk
      | backup =>
        rw [hk, htype] at haccepts
        cases haccepts
  have hbackup := hbackup.held
  have hrestore := hrestore.held
  rw [← loads.row] at hbackup hrestore
  exact ⟨hbackup, hrestore⟩

/-- **What an operation of a runner does to the runs.** -/
theorem effect_kept (he : OpEffect now op θ db θ' db') (hI : Kept db) (h : Knows θ db)
    (gentle : ∀ e, op.assigned = some e → Gentle e)
    (hpower : op.enters = true → θ.kind = .power → ∀ o, db.operations.get? θ.operationId = some o →
      o.operationType.runner = .power) :
    Kept db' ∧ Extends db db' ∧ Knows θ' db' := by
  have loaded {s : OpSession} {o : Operation} (enters : op.enters = true) (loads : Loads θ db s o) :
      Knows (θ.load s) db :=
    .of_loads hI loads fun hk => hpower enters hk o (by rw [← loads.named]; exact loads.found)
  cases he with
  | @assigned e he =>
    refine ⟨hI, .refl db, ?_⟩
    rcases he with rfl | he
    · exact h.assign gentle_nothing
    · exact h.assign (gentle e he)
  | rolledBack => exact ⟨hI, .refl db, ⟨h.backup.loaded.held, h.restore.loaded.held⟩⟩
  | saved => exact kept_saved hI h rfl rfl rfl
  | @submitted t _ _ _ =>
    have htask : Knows (θ.withTask t) db := ⟨h.backup, h.restore⟩
    exact kept_saved hI htask rfl rfl rfl
  | @finished f _ => exact kept_saved hI (h.finished f) rfl rfl rfl
  | loaded enters loads => exact ⟨hI, .refl db, loaded enters loads⟩
  | started enters loads => exact kept_saved hI ((loaded enters loads).started now) rfl rfl rfl
  | @refused enters _ _ loads f _ =>
    exact kept_saved hI ((loaded enters loads).finished f) rfl rfl rfl

end Sessions

/-! ### The power runner and the operation of a run -/

section Foreign
variable {rt : Runtime} {i : Input} {θ θ' : OpState} {w w' : World} {o : Operation}

/-- The checks the power runner makes of the workload and of the requester. -/
def admissible (db : Db) (o : Operation) : Bool :=
  match db.workloads.get? o.workloadId, db.users.get? o.requestedById with
  | some workload, some actor =>
    workload.isPresent && !workload.isTemplate && powerAuthorized db o workload actor
  | _, _ => false

/-- The admission of a power delivery leaves the status of another runner's operation: that has ended, or the
database refuses the commit, or it is `RUNNING` already and passes the checks. -/
def spared (i : Input) (o : Operation) (db : Db) : Bool :=
  o.status.terminal || i.reject.isSome || (o.status == .running && admissible db o)

/-- The rows the power runner reads. -/
def powerSession (db : Db) (o : Operation) : OpSession where
  operation := some o
  workload := db.workloads.get? o.workloadId
  actor := db.users.get? o.requestedById

/-- A session with an operation and without a run. -/
structure Bare (s : OpSession) (o : Operation) : Prop where
  operation : s.operation = some o
  backupRun : s.backupRun = none
  restoreRun : s.restoreRun = none

/-- What the admission comes to. -/
inductive Foreign (rt : Runtime) (i : Input) (θ : OpState) (w : World) (o : Operation) : Prop
  | finished (ended : o.status.terminal = true) (out : enter rt i θ w = (θ, w, .ok .ended))
  | refused {s : OpSession} (bare : Bare s o) (opened : o.status.terminal = false) (failed : admissible w.db o = false)
      {code : String} (out : enter rt i θ w = refuse code i (θ.load s) w)
  | left {s : OpSession} (bare : Bare s o) (running : o.status = .running) (passed : admissible w.db o = true)
      (out : enter rt i θ w = (θ.load s, w, .ok .ended))
  | started {s : OpSession} (bare : Bare s o) (opened : o.status.terminal = false) (passed : admissible w.db o = true)
      (out : enter rt i θ w = commitStart (.proceed (o.status == .running)) i (θ.load s) w)

theorem foreign_action (hforeign : o.operationType.runner ≠ .power) : o.action = .backup ∨ o.action = .restore := by
  rw [o.consistent]
  cases htype : o.operationType with
  | workloadBackup => exact Or.inl rfl
  | workloadRestore => exact Or.inr rfl
  | _ =>
    rw [htype] at hforeign
    exact absurd rfl hforeign

/-- The workload that an operation names has been looked up. -/
theorem admissible_eq {workload : Workload} (hworkload : w.db.workloads.get? o.workloadId = some workload) :
    admissible w.db o = (!(!workload.isPresent || workload.isTemplate) &&
      ((w.db.users.get? o.requestedById).map (powerAuthorized w.db o workload)).getD false) := by
  unfold admissible
  rw [hworkload]
  cases w.db.users.get? o.requestedById with
  | none => exact (Bool.and_false _).symm
  | some actor => simp only [Option.map_some, Option.getD_some, Bool.not_or, Bool.not_not]

theorem enter_foreign (hk : θ.kind = .power) (ho : w.db.operations.get? θ.operationId = some o)
    (hforeign : o.operationType.runner ≠ .power) : Foreign rt i θ w o := by
  have hreset : (o.action == .power .reset) = false := by
    rcases foreign_action hforeign with h | h <;> rw [h] <;> rfl
  have henter : enter rt i θ w = if o.status.terminal then (θ, w, .ok .ended) else
      admitPowerAction rt o (powerSession w.db o) i θ w := by
    unfold enter admitPower
    rw [hk, ho]
    rcases foreign_action hforeign with h | h <;> simp only [h, powerSession]
  cases hended : o.status.terminal with
  | true =>
    rw [hended, if_pos rfl] at henter
    exact .finished hended henter
  | false =>
    rw [hended, if_neg Bool.false_ne_true] at henter
    unfold admitPowerAction powerSession at henter
    simp only [hreset, Bool.and_false, Bool.or_false] at henter
    cases hworkload : w.db.workloads.get? o.workloadId with
    | none =>
      have hfailed : admissible w.db o = false := by
        unfold admissible
        rw [hworkload]
      rw [hworkload] at henter
      exact .refused ⟨rfl, rfl, rfl⟩ hended hfailed henter
    | some workload =>
      have hpassed := admissible_eq hworkload
      rw [hworkload] at henter
      cases hgone : !workload.isPresent || workload.isTemplate with
      | true =>
        rw [hgone] at hpassed
        simp only [hgone, if_true] at henter
        exact .refused ⟨rfl, rfl, rfl⟩ hended hpassed henter
      | false =>
        rw [hgone, Bool.not_false, Bool.true_and] at hpassed
        simp only [hgone, Bool.false_eq_true, if_false] at henter
        cases hauthorized : ((w.db.users.get? o.requestedById).map (powerAuthorized w.db o workload)).getD false with
        | false =>
          simp only [hauthorized, Bool.false_eq_true, if_false] at henter
          exact .refused ⟨rfl, rfl, rfl⟩ hended (hpassed.trans hauthorized) henter
        | true =>
          simp only [hauthorized, if_true] at henter
          split at henter
          · next hfresh =>
            have hunknown := (Bool.and_eq_true_iff.mp hfresh).1
            have hrunning : o.status = .running := beq_iff_eq.mp (Bool.and_eq_true_iff.mp hunknown).1
            exact .left ⟨rfl, rfl, rfl⟩ hrunning (hpassed.trans hauthorized) henter
          · exact .started ⟨rfl, rfl, rfl⟩ hended (hpassed.trans hauthorized) henter

/-- An admission of a row that has been read, and what it is refused with. -/
theorem finished_status {s : OpSession} (bare : Bare s o) (found : w.db.operations.get? o.id = some o) (f : Finish) :
    Routing.statusOf (finishedDb (θ.load s) f w.db) o.id = some f.status := by
  have hcur : ((θ.load s).finished f).current.operation = some (finishedOperation θ.kind f o) := by
    show s.operation.map _ = _
    rw [bare.operation]
    rfl
  have hrow := flush_own bare.operation hcur found
  show Option.map _ ((((θ.load s).finished f).flush w.db).operations.get? o.id) = _
  rw [hrow]
  exact congrArg some (merge_fresh _ _).1

theorem started_status {s : OpSession} (bare : Bare s o) (found : w.db.operations.get? o.id = some o) :
    Routing.statusOf (((θ.load s).started w.clock).flush w.db) o.id = some .running := by
  unfold Routing.statusOf
  rw [started_row bare.operation found]
  exact congrArg some (merge_fresh _ _).1

/-- **The condition is exact**: it says of the state an admission finds whether the status stays. -/
theorem spared_iff (hk : θ.kind = .power) (ho : w.db.operations.get? θ.operationId = some o)
    (hforeign : o.operationType.runner ≠ .power) :
    Routing.statusOf (enter rt i θ w).2.1.db o.id = some o.status ↔ spared i o w.db = true := by
  have hid : o.id = θ.operationId := Table.get?_key ho
  have found : w.db.operations.get? o.id = some o := by rw [hid, ho]
  have unchanged : Routing.statusOf w.db o.id = some o.status := by
    unfold Routing.statusOf
    rw [found]
    rfl
  unfold spared
  have hsplit : Foreign rt i θ w o := enter_foreign hk ho hforeign
  cases hsplit with
  | finished ended out => simp [out, ended, unchanged]
  | left bare running passed out => simp [out, running, passed, unchanged]
  | @refused s bare opened failed code out =>
    rw [out, opened, failed]
    unfold refuse commitFinish commitTo
    cases i.reject with
    | some e => simp [Admission.after, unchanged]
    | none =>
      have hfailed := finished_status (θ := θ) bare found
        { time := w.clock, status := .failed, errorCode := some code, retryable := false }
      show Routing.statusOf (finishedDb (θ.load s) _ w.db) o.id = _ ↔ _
      rw [hfailed]
      constructor
      · intro h
        rw [← Option.some.inj h] at opened
        cases opened
      · simp
  | @started s bare opened passed out =>
    rw [out, opened, passed]
    unfold commitStart commitEdits commitTo
    cases i.reject with
    | some e => simp [Admission.after, unchanged]
    | none =>
      show Routing.statusOf (((θ.load s).started w.clock).flush w.db) o.id = _ ↔ _
      rw [started_status bare found]
      simp only [Option.isSome_none, Bool.false_or, Bool.and_true, beq_iff_eq, Option.some.injEq]
      exact eq_comm

/-- A process that only ends. -/
def Idle (θ : OpState) : OpProg Unit → Prop
  | .done _ => True
  | .node .session k => ∃ r, k θ.current = .done r
  | .node _ _ => False

/-- What a power delivery goes on with after such an admission: its action is no power action, so it raises. -/
theorem idle_power {s : OpSession} (bare : Bare s o) (hforeign : o.operationType.runner ≠ .power)
    {f : Except Exn Admission → OpProg Unit} (hf : PowerRunner.run rt = .node .enter f) (b : Bool) (now : Instant) :
    Idle ((θ.load s).started now).saved (f (.ok (.proceed b))) := by
  cases hf
  have hcur : ((θ.load s).started now).saved.current.operation = some (startedOperation now o) := by
    show s.operation.map _ = _
    rw [bare.operation]
    rfl
  refine ⟨.error .valueError, ?_⟩
  show (OpProg.row _ >>= fun operation : Operation => _) = _
  rw [hcur]
  have haction : (startedOperation now o).action = .backup ∨ (startedOperation now o).action = .restore := foreign_action hforeign
  generalize startedOperation now o = started at haction
  cases started
  rcases haction with rfl | rfl <;> rfl

/-- The commit of such an admission leaves the runs alone, and the status of the operation if that was `RUNNING`. -/
theorem kept_restarted {s : OpSession} (bare : Bare s o) (found : w.db.operations.get? o.id = some o)
    (running : o.status = .running) (hI : Kept w.db) (now : Instant) :
    Kept (((θ.load s).started now).flush w.db) ∧ Extends w.db (((θ.load s).started now).flush w.db) := by
  have hops : (((θ.load s).started now).flush w.db).operations =
      flushRow Operation.merge (some o) (some (startedOperation now o)) w.db.operations := by
    show flushRow Operation.merge s.operation (s.operation.map (startedOperation now)) _ = _
    rw [bare.operation]
    rfl
  have hbackup : (((θ.load s).started now).flush w.db).backupRuns = w.db.backupRuns := by
    show flushRow BackupRun.merge s.backupRun _ _ = _
    rw [bare.backupRun]
    rfl
  have hrestore : (((θ.load s).started now).flush w.db).restoreRuns = w.db.restoreRuns := by
    show flushRow RestoreRun.merge s.restoreRun _ _ = _
    rw [bare.restoreRun]
    rfl
  have hstatus (o' : Operation) (ho' : o' ∈ w.db.operations) :
      (flushedOperation (some o) (some (startedOperation now o)) o').status = o'.status := by
    show (if key o = key o' then Operation.merge o (startedOperation now o) o' else o').status = _
    split
    · next hkey =>
      obtain rfl := Table.eq_of_key (Table.get?_mem found) ho' hkey
      rw [(merge_fresh _ _).1, running]
      rfl
    · rfl
  refine ⟨⟨?_, ?_⟩, ⟨?_, ?_⟩⟩
  · rw [hops, hbackup]
    exact mirrored_statuses hI.backup hstatus
  · rw [hops, hrestore]
    exact mirrored_statuses hI.restore hstatus
  · rw [hops, hbackup]
    exact grows_flush _ _ none none _ _
  · rw [hops, hrestore]
    exact grows_flush _ _ none none _ _

/-- **An admission that spares the operation** keeps the runs alike, and what follows only ends. -/
theorem foreign_kept (hk : θ.kind = .power) (ho : w.db.operations.get? θ.operationId = some o)
    (hforeign : o.operationType.runner ≠ .power) (hspared : spared i o w.db = true) (hI : Kept w.db)
    {f : Except Exn Admission → OpProg Unit} (hf : PowerRunner.run rt = .node .enter f)
    {r : Except Exn Admission} (hout : enter rt i θ w = (θ', w', r)) :
    Kept w'.db ∧ Extends w.db w'.db ∧ Idle θ' (f r) := by
  have hid : o.id = θ.operationId := Table.get?_key ho
  have found : w.db.operations.get? o.id = some o := by rw [hid, ho]
  have ends (θ : OpState) : Idle θ (f (.ok .ended)) := by
    cases hf
    trivial
  have fails (θ : OpState) (e : Exn) : Idle θ (f (.error e)) := by
    cases hf
    trivial
  unfold spared at hspared
  have hsplit : Foreign rt i θ w o := enter_foreign hk ho hforeign
  cases hsplit with
  | finished ended out =>
    cases out.symm.trans hout
    exact ⟨hI, .refl _, ends _⟩
  | left bare running passed out =>
    cases out.symm.trans hout
    exact ⟨hI, .refl _, ends _⟩
  | refused bare opened failed out =>
    rw [out] at hout
    unfold refuse commitFinish commitTo at hout
    cases hreject : i.reject with
    | none => simp [opened, failed, hreject] at hspared
    | some e =>
      rw [hreject] at hout
      cases hout
      exact ⟨hI, .refl _, fails _ e⟩
  | started bare opened passed out =>
    rw [out] at hout
    unfold commitStart commitEdits commitTo at hout
    cases hreject : i.reject with
    | some e =>
      rw [hreject] at hout
      cases hout
      exact ⟨hI, .refl _, fails _ e⟩
    | none =>
      rw [hreject] at hout
      cases hout
      have running : o.status = .running := by simpa [opened, passed, hreject] using hspared
      obtain ⟨hkept, hextends⟩ := kept_restarted (θ := θ) bare found running hI w.clock
      exact ⟨hkept, hextends, idle_power bare hforeign hf _ _⟩

end Foreign

/-! ### Requests -/

section Requests
variable {ρ : Type} [Keyed ρ Uuid] [RunRow ρ] {ops ops' : Table Operation} {runs runs' : Table ρ}
  {o : Operation} {run : Option ρ}

/-- An operation and its run, inserted together. -/
theorem mirrored_insert (hm : Mirrored ops runs) (hops : ops.insert o = some ops')
    (hruns : ∀ r', r' ∈ runs' ↔ r' ∈ runs ∨ run = some r')
    (pair : ∀ r, run = some r → o.operationType = RunRow.type ρ ∧ operationId r = o.id ∧
      status r = o.status)
    (has : o.operationType = RunRow.type ρ → run.isSome = true) :
    Mirrored ops' runs' ∧ Grows ops runs ops' runs' := by
  have hfresh : ops.get? o.id = none := Table.get?_eq_none.mpr (Table.insert_some hops).2
  have kept {k : Uuid} {q : Operation} (hq : ops.get? k = some q) : ops'.get? k = some q := by
    rw [Table.get?_insert_of_ne hops, hq]
    intro hk
    have hk : k = o.id := hk
    rw [hk, hfresh] at hq
    cases hq
  have unowned {r : ρ} (hr : r ∈ runs) : operationId r ≠ o.id := by
    intro hid
    obtain ⟨q, hq, -⟩ := hm.same r hr
    rw [hid, hfresh] at hq
    cases hq
  refine ⟨⟨fun r hr => ?_, fun r₁ h₁ r₂ h₂ hop => ?_, fun q hq htype => ?_⟩,
    ⟨fun k q hq => ⟨q, kept hq, rfl⟩, fun r hr => ⟨r, (hruns r).mpr (Or.inl hr), rfl, rfl⟩,
      fun r hr hsome => ?_⟩⟩
  · rcases (hruns r).mp hr with hr | hrun
    · obtain ⟨q, hq, hrest⟩ := hm.same r hr
      exact ⟨q, kept hq, hrest⟩
    · obtain ⟨htype, hid, hstatus⟩ := pair r hrun
      exact ⟨o, by rw [hid]; exact Table.get?_insert_same hops, htype, hstatus⟩
  · rcases (hruns r₁).mp h₁ with hr₁ | hrun₁
    · rcases (hruns r₂).mp h₂ with hr₂ | hrun₂
      · exact hm.once r₁ hr₁ r₂ hr₂ hop
      · exact absurd (hop.trans (pair r₂ hrun₂).2.1) (unowned hr₁)
    · rcases (hruns r₂).mp h₂ with hr₂ | hrun₂
      · exact absurd (hop.symm.trans (pair r₁ hrun₁).2.1) (unowned hr₂)
      · exact Option.some.inj (hrun₁.symm.trans hrun₂)
  · rcases (Table.mem_insert hops).mp hq with hq | rfl
    · obtain ⟨r, hr, hid⟩ := hm.run q hq htype
      exact ⟨r, (hruns r).mpr (Or.inl hr), hid⟩
    · obtain ⟨r, hrun⟩ := Option.isSome_iff_exists.mp (has htype)
      exact ⟨r, (hruns r).mpr (Or.inr hrun), (pair r hrun).2.1⟩
  · rcases (hruns r).mp hr with hr | hrun
    · exact ⟨r, hr, rfl, rfl⟩
    · rw [(pair r hrun).2.1, hfresh] at hsome
      cases hsome

end Requests

section Service
open Acceptances

variable {i : Input} {now : Instant} {ρ : Type} {op : ServiceOp ρ} {db db' : Db} {a : Acceptance}

theorem accepted_kept (h : Accepts a db db') (hw : WellFormed a) (hI : Kept db) :
    Kept db' ∧ Extends db db' := by
  have hops := (insertUnless_some h.operations).2
  obtain ⟨hbackup, hgrownBackup⟩ := mirrored_insert hI.backup hops (mem_insertRun h.backupRuns)
    (fun r hr => ⟨(hw.backup r hr).1, (hw.backup r hr).2.1,
      (hw.backup r hr).2.2.trans hw.queued.symm⟩) hw.backedUp
  obtain ⟨hrestore, hgrownRestore⟩ := mirrored_insert hI.restore hops (mem_insertRun h.restoreRuns)
    (fun r hr => ⟨(hw.restore r hr).1, (hw.restore r hr).2.1,
      (hw.restore r hr).2.2.1.trans hw.queued.symm⟩) hw.restored
  exact ⟨⟨hbackup, hrestore⟩, ⟨hgrownBackup, hgrownRestore⟩⟩

/-- What leaves the operations and the runs as they are. -/
theorem kept_same (hI : Kept db) (hops : db'.operations = db.operations)
    (hbackup : db'.backupRuns = db.backupRuns) (hrestore : db'.restoreRuns = db.restoreRuns) :
    Kept db' ∧ Extends db db' := by
  refine ⟨⟨?_, ?_⟩, ⟨?_, ?_⟩⟩
  · rw [hops, hbackup]
    exact hI.backup
  · rw [hops, hrestore]
    exact hI.restore
  · rw [hops, hbackup]
    exact .refl _ _
  · rw [hops, hrestore]
    exact .refl _ _

/-- **What an operation of a request does to the runs.** -/
theorem service_kept {m : ServiceMessage} (he : ServiceEffect i now op db db') (ho : Orderly m op) (hI : Kept db) :
    Kept db' ∧ Extends db db' := by
  cases he with
  | nothing => exact ⟨hI, .refl db⟩
  | accepted h stored => exact accepted_kept (accept_ok stored) (ho.accepted _ h) hI
  | created h stored =>
    rw [(createRequest_ok stored).2.2]
    exact kept_same hI rfl rfl rfl
  | transacted h stored =>
    rw [ownership_rest (ho.transacted _ h) stored]
    exact kept_same hI rfl rfl rfl

end Service

/-! ### Runs of the system -/

/-- What the rest of the program may do: leave the operations and their runs. -/
def Outside (w w' : World) : Prop :=
  w'.db.operations = w.db.operations ∧ w'.db.backupRuns = w.db.backupRuns ∧
    w'.db.restoreRuns = w.db.restoreRuns

/-- A power delivery is about to leave the status of another runner's operation. -/
def Spares (i : Input) (θ : OpState) (db : Db) : Prop :=
  θ.kind = .power → ∀ o, db.operations.get? θ.operationId = some o → o.operationType.runner ≠ .power →
    spared i o db = true

/-- No admission of a power delivery changes the status of a backup or a restore. -/
def sparing : Conditions Exn (SumOp RunnerOp ServiceOp) (OpState ⊕ ServiceProcess) World Input
    (OpMessage ⊕ ServiceMessage) where
  step θ p i w :=
    match θ, p with
    | .inl θ, .node (.left o) _ => o.enters = true → Spares i θ w.db
    | _, _ => True
  env := Outside

/-- The conditions of the runners and of the requests. -/
def runnerSide : Conditions Exn RunnerOp OpState World Input OpMessage where
  step θ p i w :=
    match p with
    | .node o _ => o.enters = true → Spares i θ w.db
    | .done _ => True
  env := Outside

def requestSide : Conditions Exn ServiceOp ServiceProcess World Input ServiceMessage where
  env := Outside

variable (rt : Runtime) (api : Api)

theorem sparing_met {s : Sys Exn (SumOp RunnerOp ServiceOp) (OpState ⊕ ServiceProcess) World}
    {a : Action World Input (OpMessage ⊕ ServiceMessage)} (h : sparing.Met s a) :
    (runnerSide.beside requestSide).Met s a := by
  refine Conditions.met_mono (fun m w _ => ?_) (fun θ p i w hstep => ?_) (fun θ p w _ => ?_)
    (fun _ _ => Or.inl) h
  · cases m <;> trivial
  · cases θ with
    | inr θ => exact fun _ _ => trivial
    | inl θ =>
      intro p₁ hp₁
      cases p₁ with
      | done r => trivial
      | node o k =>
        rw [hp₁] at hstep
        exact hstep
  · cases θ <;> exact fun _ _ => trivial

/-- Where a delivery stands: before its admission, behind it with the rows that belong together, or at its end. -/
inductive Stage (θ : OpState) (p : OpProg Unit) (db : Db) : Prop
  | waiting (fresh : p = (OpMessage.mk θ.kind θ.operationId).program rt) (knows : Knows θ db)
  | following (tame : p.Only (Tame True)) (knows : Knows θ db)
  | idle (ends : Idle θ p)

theorem stage_step {ρ : Type} {o : RunnerOp ρ} {k : ρ → OpProg Unit} {i : Input} {θ θ' : OpState} {w w' : World} {r : ρ}
    (hI : Kept w.db) (hL : Stage rt θ (.node o k) w.db) (hc : o.enters = true → Spares i θ w.db)
    (hexec : (opMachine rt).exec o i θ w = some (θ', w', r)) :
    Kept w'.db ∧ Extends w.db w'.db ∧ Stage rt θ' (k r) w'.db := by
  have heffect := exec_effect rt hexec
  cases hL with
  | following tame knows =>
    obtain ⟨hkept, hextends, hknows⟩ := effect_kept heffect hI knows tame.1.assigned fun he => by
      rw [tame.1.entered] at he
      cases he
    exact ⟨hkept, hextends, .following (tame.2 r) hknows⟩
  | idle ends =>
    cases o with
    | session =>
      cases hexec
      obtain ⟨last, hlast⟩ := ends
      exact ⟨hI, .refl _, .idle (by rw [hlast]; trivial)⟩
    | _ => exact ends.elim
  | waiting fresh knows =>
    obtain ⟨f, hf, htame⟩ : ∃ f : Except Exn Admission → OpProg Unit,
        (OpMessage.mk θ.kind θ.operationId).program rt = .node .enter f ∧ ∀ r, Assignments.Modest True (f r) :=
      program_enters ⟨θ.kind, θ.operationId⟩
    cases fresh.trans hf
    by_cases hforeign : θ.kind = .power ∧ ∃ o, w.db.operations.get? θ.operationId = some o ∧ o.operationType.runner ≠ .power
    · obtain ⟨hk, o, ho, hrunner⟩ := hforeign
      have hrun : PowerRunner.run rt = .node .enter f := by
        rw [hk] at hf
        exact hf
      obtain ⟨hkept, hextends, hidle⟩ := foreign_kept hk ho hrunner (hc rfl hk o ho hrunner) hI hrun (Option.some.inj hexec)
      exact ⟨hkept, hextends, .idle hidle⟩
    · obtain ⟨hkept, hextends, hknows⟩ := effect_kept heffect hI knows (fun e he => by cases he) fun _ hk o ho => by
        by_contra hrunner
        exact hforeign ⟨hk, o, ho, hrunner⟩
      exact ⟨hkept, hextends, .following (htame r) hknows⟩

theorem runner_protocol : Protocol (opMachine rt) runnerSide (fun w => Kept w.db)
    (fun θ p w => Stage rt θ p w.db) (fun w w' => Extends w.db w'.db) where
  refl w := .refl w.db
  start m w _ _ := .waiting rfl (knows_start m w.db)
  step _ _ _ _ _ _ _ _ hI hL hc hexec := stage_step rt hI hL hc hexec
  drop _ _ w hI _ _ := ⟨hI, .refl w.db⟩
  env w w' hI h := kept_same hI h.1 h.2.1 h.2.2
  stable θ p w w' hG hL := by
    cases hL with
    | waiting fresh knows => exact .waiting fresh (knows.mono hG)
    | following tame knows => exact .following tame (knows.mono hG)
    | idle ends => exact .idle ends

theorem request_protocol : Protocol (serviceMachine rt api) requestSide (fun w => Kept w.db)
    (fun θ p _ => p.Only (Acceptances.Orderly θ.message)) (fun w w' => Extends w.db w'.db) where
  refl w := .refl w.db
  start m _ _ _ := Acceptances.orderly_service rt api m
  step o k i θ θ' w w' r hI hL _ hexec := by
    have heffect := service_effect o i θ.state w
    cases hexec
    obtain ⟨hkept, hextends⟩ := service_kept heffect hL.1 hI
    exact ⟨hkept, hextends, hL.2 _⟩
  drop _ _ w hI _ _ := ⟨hI, .refl w.db⟩
  env w w' hI h := kept_same hI h.1 h.2.1 h.2.2
  stable _ _ _ _ _ hL := hL

/-- The state after a run of the runners and the requests. -/
def reached (w : World) (actions : List (Action World Input (OpMessage ⊕ ServiceMessage))) : World :=
  (runFrom (Sys.next (jobMachine rt api)) (Sys.idle w) actions).shared

/-- Every run repeats the status of its operation, and the index blocks a new restore exactly
while a restore to its target is active. -/
structure Mirrors (db : Db) : Prop where
  backup : ∀ r ∈ db.backupRuns, Routing.statusOf db r.operationId = some r.status
  restore : ∀ r ∈ db.restoreRuns, Routing.statusOf db r.operationId = some r.status
  index : ∀ new : RestoreRun, new.status = .queued → db.operations.get? new.operationId = none →
    (db.restoreRuns.rows.any new.clashes = true ↔
      ∃ o ∈ db.operations, o.operationType = .workloadRestore ∧ o.status.incomplete = true ∧
        ∃ r ∈ db.restoreRuns, r.operationId = o.id ∧ r.clusterId = new.clusterId ∧
          r.targetVmid = new.targetVmid)

theorem Kept.mirrors {db : Db} (h : Kept db) : Mirrors db where
  backup r hr := by
    obtain ⟨o, ho, -, hstatus⟩ := h.backup.same r hr
    have hstatus : r.status = o.status := hstatus
    unfold Routing.statusOf
    rw [show db.operations.get? r.operationId = some o from ho, hstatus]
    rfl
  restore r hr := by
    obtain ⟨o, ho, -, hstatus⟩ := h.restore.same r hr
    have hstatus : r.status = o.status := hstatus
    unfold Routing.statusOf
    rw [show db.operations.get? r.operationId = some o from ho, hstatus]
    rfl
  index new hnew hfresh := by
    have hclash (r : RestoreRun) (hr : r ∈ db.restoreRuns) : new.clashes r = true ↔
        r.clusterId = new.clusterId ∧ r.targetVmid = new.targetVmid ∧ r.status.incomplete = true := by
      have hother : r.operationId ≠ new.operationId := by
        intro hid
        obtain ⟨o, ho, -⟩ := h.restore.same r hr
        have ho : db.operations.get? r.operationId = some o := ho
        rw [hid, hfresh] at ho
        cases ho
      simp [RestoreRun.clashes, hother, hnew, OperationStatus.terminal, and_assoc]
    rw [List.any_eq_true]
    constructor
    · rintro ⟨r, hr, hc⟩
      obtain ⟨hcluster, hvmid, hincomplete⟩ := (hclash r hr).mp hc
      obtain ⟨o, ho, htype, hstatus⟩ := h.restore.same r hr
      have hstatus : r.status = o.status := hstatus
      exact ⟨o, Table.get?_mem ho, htype, by rw [← hstatus]; exact hincomplete, r, hr,
        (Table.get?_key ho).symm, hcluster, hvmid⟩
    · rintro ⟨o, ho, -, hincomplete, r, hr, hid, hcluster, hvmid⟩
      obtain ⟨o', ho', -, hstatus⟩ := h.restore.same r hr
      have ho' : db.operations.get? r.operationId = some o' := ho'
      have hstatus : r.status = o'.status := hstatus
      have hget : db.operations.get? o.id = some o := Table.get?_of_mem ho
      rw [hid, hget] at ho'
      cases ho'
      exact ⟨r, hr, (hclash r hr).mpr ⟨hcluster, hvmid, by rw [hstatus]; exact hincomplete⟩⟩

/-- **Run rows mirror their operation** in every state of every run of requests, runners and
recoveries, with crashes, in which no admission of a power delivery changes the status of a backup or a restore. -/
theorem runs_mirror (w : World) (hw : Kept w.db)
    (actions : List (Action World Input (OpMessage ⊕ ServiceMessage)))
    (hrun : Along (Sys.next (jobMachine rt api)) sparing.Met (Sys.idle w) actions) :
    Mirrors (reached rt api w actions).db := by
  have hmet := Along.mono (fun _ _ => sparing_met) hrun
  have hP := (runner_protocol rt).beside (request_protocol rt api)
  exact (hP.holds_run (Sys.holds_idle hw) hmet).shared.mirrors

/-! A backup as it is requested and run, and a restore that the power runner goes on with. -/

section Decide
variable {ρ : Type} [Keyed ρ Uuid] [RunRow ρ]

instance (ops : Table Operation) (runs : Table ρ) : Decidable (Mirrored ops runs) :=
  decidable_of_iff
    ((∀ r ∈ runs.rows, (ops.get? (operationId r)).any (fun o =>
        o.operationType == RunRow.type ρ && status r == o.status) = true) ∧
      (∀ r ∈ runs.rows, ∀ r' ∈ runs.rows, operationId r = operationId r' → key r = key r') ∧
      ∀ o ∈ ops.rows, o.operationType = RunRow.type ρ → ∃ r ∈ runs.rows, operationId r = o.id) (by
    constructor
    · rintro ⟨same, once, run⟩
      refine ⟨fun r hr => ?_, fun r hr r' hr' hop => Table.eq_of_key hr hr' (once r hr r' hr' hop), run⟩
      have hany := same r hr
      cases ho : ops.get? (operationId r) with
      | none =>
        rw [ho] at hany
        cases hany
      | some o =>
        rw [ho] at hany
        have hboth := Bool.and_eq_true_iff.mp hany
        exact ⟨o, rfl, beq_iff_eq.mp hboth.1, beq_iff_eq.mp hboth.2⟩
    · rintro ⟨same, once, run⟩
      refine ⟨fun r hr => ?_, fun r hr r' hr' hop => by rw [once r hr r' hr' hop], run⟩
      obtain ⟨o, ho, htype, hstatus⟩ := same r hr
      simp [ho, htype, hstatus])

instance (db : Db) : Decidable (Kept db) :=
  decidable_of_iff (Mirrored db.operations db.backupRuns ∧ Mirrored db.operations db.restoreRuns)
    ⟨fun h => ⟨h.1, h.2⟩, fun h => ⟨h.backup, h.restore⟩⟩

instance (m : OpMessage ⊕ ServiceMessage) (w : World) : Decidable (sparing.spawn m w) :=
  .isTrue trivial

instance (i : Input) (θ : OpState) (db : Db) : Decidable (Spares i θ db) :=
  decidable_of_iff (θ.kind = .power → (db.operations.get? θ.operationId).all
      (fun o => o.operationType.runner == .power || spared i o db) = true) (by
    unfold Spares
    cases db.operations.get? θ.operationId <;> simp [or_iff_not_imp_left])

instance (θ : OpState ⊕ ServiceProcess) (p : Prog Exn (SumOp RunnerOp ServiceOp) Unit) (i : Input)
    (w : World) : Decidable (sparing.step θ p i w) :=
  match θ, p with
  | .inl θ, .node (.left o) _ => inferInstanceAs (Decidable (o.enters = true → Spares i θ w.db))
  | .inl _, .node (.right _) _ => .isTrue trivial
  | .inl _, .done _ => .isTrue trivial
  | .inr _, _ => .isTrue trivial

instance (θ : OpState ⊕ ServiceProcess) (p : Prog Exn (SumOp RunnerOp ServiceOp) Unit) (w : World) :
    Decidable (sparing.crash θ p w) := .isTrue trivial

instance (w w' : World) : Decidable (sparing.env w w') :=
  inferInstanceAs (Decidable (_ ∧ _ ∧ _))

end Decide

/-- A backup that is requested and started, and a message of it for the power runner. -/
def backedUp : List (Action World Input (OpMessage ⊕ ServiceMessage)) :=
  .spawn 0 (jobOf "key" (.backup 1 (.of 7))) ::
    List.replicate 10 (.step 0 (sampleInput "stopped")) ++
      [.spawn 1 (.inl ⟨.backup, 100⟩), .step 1 (sampleInput "stopped"), .spawn 2 (.inl ⟨.power, 100⟩),
        .step 2 (sampleInput "stopped")]

theorem runs_mirror_backup : Mirrors (reached asciiRuntime plainApi quietWorld backedUp).db :=
  runs_mirror asciiRuntime plainApi quietWorld (by decide) backedUp (by decide +kernel)

def restoreRequested : RestoreRun where
  id := 60
  operationId := 1
  backupRunId := 50
  clusterId := 1
  sourceWorkloadId := 1
  targetNode := "pve1"
  targetVmid := 200
  targetName := "copy"
  status := .queued
  startedAt := none
  finishedAt := none

def restoreWorld : World :=
  { sampleWorld .workloadRestore with
    db := { (sampleWorld .workloadRestore).db with restoreRuns := .single restoreRequested } }

/-- A recovery publishes the restore to the power task, whose runner goes on with it. -/
def recovered : List (Action World Input (OpMessage ⊕ ServiceMessage)) :=
  (recoverOperations restoreWorld.db).zipIdx.map (fun m => .spawn m.2 (.inl m.1)) ++
    [.step 0 (sampleInput "stopped")]

/-- **A copy out of step**: the power runner has set the restore `RUNNING`, its run is
`QUEUED`. -/
theorem restore_out_of_step : Kept restoreWorld.db ∧
    ¬ Mirrors (reached asciiRuntime plainApi restoreWorld recovered).db := by
  refine ⟨by decide, fun h => ?_⟩
  have hsame := h.restore restoreRequested (by
    show restoreRequested ∈ (reached asciiRuntime plainApi restoreWorld recovered).db.restoreRuns.rows
    decide +kernel)
  revert hsame
  decide +kernel

end PveMaster.Mirror
