import PveMaster.Foundation.Solo
import PveMaster.Operations.Truthfulness
import PveMaster.Requests.Operations

/-! What a specification update leaves recorded.

`_apply_spec` asks Proxmox for the CPU cores and the memory first, and for a larger disk after
that; what it records, it records at the end. An error between the two leaves Proxmox with the
new cores and memory and the workload with the old ones. -/
namespace PveMaster.Specification
open Prog OpProg PowerRunner OperationService
open Truthfulness (flush_workloads)

/-- `cpu_cores`, `memory_bytes` and `disk_bytes`: what a specification update can change. -/
structure GuestSpec where
  cpuCores : Option Int
  memoryBytes : Option Int
  diskBytes : Option Int
  deriving DecidableEq

/-- What the workload says of its guest. -/
def recorded (w : Workload) : GuestSpec := ⟨w.cpuCores, w.memoryBytes, w.diskBytes⟩

/-- What a call makes of a guest: nothing, unless Proxmox accepts it. -/
def GuestSpec.after (s : GuestSpec) (c : Called) : GuestSpec :=
  match c with
  | ⟨_, .configureGuest _ _ _ cores memoryMib, .ok _⟩ =>
    { s with cpuCores := some cores, memoryBytes := some (memoryMib * 1024 ^ 2) }
  | ⟨_, .resizeGuestDisk _ _ _ _ sizeBytes, .ok _⟩ => { s with diskBytes := some sizeBytes }
  | _ => s

/-- What Proxmox has last accepted, by the calls made to it in their order. -/
def accepted (s : GuestSpec) (calls : List Called) : GuestSpec := calls.foldl GuestSpec.after s

@[simp] theorem accepted_nil (s : GuestSpec) : accepted s [] = s := rfl

@[simp] theorem accepted_concat (s : GuestSpec) (calls : List Called) (c : Called) :
    accepted s (calls ++ [c]) = (accepted s calls).after c := List.foldl_append

/-- A call that Proxmox does not accept. -/
theorem after_refused {s : GuestSpec} {caller : Caller} {r : Request} {e : Exn} {x : Except Exn (Reply r)}
    (h : x = .error e) : s.after ⟨caller, r, x⟩ = s := by
  rw [h]
  cases r <;> rfl

/-- A `VM_SPEC_UPDATE` that has not ended, as `request_admin_action` stores it, and its workload. -/
structure Updates (db : Db) (o : Operation) (before : Workload) (cpuCores memoryGib : Int) (diskGib : Option Int) :
    Prop where
  stored : db.operations.get? o.id = some o
  unfinished : o.status.terminal = false
  action : o.action = .admin .updateSpec
  requested : ∃ version reason, o.result = AdminPayload.requested (.spec cpuCores memoryGib diskGib version reason)
  workload : db.workloads.get? o.workloadId = some before

/-- If the operation is terminal, the workload has what Proxmox has accepted since `w`, and a
higher version just when something of it has changed or the operation has succeeded. -/
def Agrees (w : World) (o : Operation) (before : Workload) (w' : World) : Prop :=
  ∀ q, w'.db.operations.get? o.id = some q → q.status.terminal = true →
    ∃ v, w'.db.workloads.get? before.id = some v ∧
      recorded v = accepted (recorded before) (w'.calls.drop w.calls.length) ∧
      (before.version < v.version ↔ recorded v ≠ recorded before ∨ q.status = .succeeded)

/-- Proxmox answers so throughout the execution, and the database raises no `AppError`. -/
def Answered (answers : Answers) (i : Input) : Prop := i.answers = answers ∧ ∀ e, i.reject ≠ some (.app e)

/-- The states of an execution. Each call is made at most once. -/
def execution (rt : Runtime) (o : Operation) (inputs : Nat → Input) (w : World) : List World :=
  visits (opMachine rt) (PowerRunner.run rt) inputs { kind := .power, operationId := o.id } w

/-- **The property**: every state of every execution with these answers agrees. -/
def Records (rt : Runtime) (w : World) (o : Operation) (before : Workload) (answers : Answers) : Prop :=
  ∀ inputs : Nat → Input, (∀ n, Answered answers (inputs n)) → ∀ w' ∈ execution rt o inputs w, Agrees w o before w'

/-- The execution gets as far as its first call: the checks before it all pass. -/
structure Reaches (db : Db) (o : Operation) (before : Workload) : Prop where
  present : before.isPresent = true
  machine : before.isTemplate = false
  actor : ∃ u, db.users.get? o.requestedById = some u ∧ u.isActive = true ∧ u.role = .superAdmin
  cluster : ∃ c, db.clusters.get? before.clusterId = some c ∧ c.isActive = true
  credential : (db.credentials.first fun c => c.clusterId == before.clusterId && c.isActive).isSome = true

/-- The call for the cores and the memory, which is made before the disk is looked at. -/
abbrev configure (before : Workload) (cpuCores memoryGib : Int) : Request :=
  .configureGuest before.kind before.node before.vmid cpuCores (memoryGib * gib / 1024 ^ 2)

/-- A disk to resize is not found, or not resized, by an error the runner makes a failure of. -/
def Unresized (rt : Runtime) (before : Workload) (diskBytes : Int) (answers : Answers) : Prop :=
  match answers (.getGuestConfig before.kind before.node before.vmid) with
  | .error e => ∃ a, e = .app a
  | .ok config =>
    match resizableDisk rt before.kind config with
    | .error _ => True
    | .ok disk => ∃ a, answers (.resizeGuestDisk before.kind before.node before.vmid disk diskBytes) = .error (.app a)

/-- Proxmox takes new cores or a new memory, and then not the larger disk. -/
structure Short (rt : Runtime) (before : Workload) (cpuCores memoryGib : Int) (diskGib : Option Int)
    (answers : Answers) : Prop where
  configured : answers (configure before cpuCores memoryGib) = .ok ()
  differs : before.cpuCores ≠ some cpuCores ∨ before.memoryBytes ≠ some (memoryGib * gib)
  unresized : ∃ d, diskGib = some d ∧ before.diskBytes.getD 0 < d * gib ∧ Unresized rt before (d * gib) answers

/-- An execution that is applied in part: Proxmox has accepted the cores and the memory, and the
disk has not grown. -/
structure PartlyApplied (rt : Runtime) (db : Db) (o : Operation) (before : Workload) (cpuCores memoryGib : Int)
    (diskGib : Option Int) (answers : Answers) : Prop where
  reaches : Reaches db o before
  short : Short rt before cpuCores memoryGib diskGib answers

/-! ### Between the start and the end -/

/-- The runner at work: the calls it has made, and its workload as assigned. -/
structure Working (start : World) (o : Operation) (before : Workload) (θ : OpState) (w : World) (calls : List Called)
    (c : Workload) : Prop where
  operation : ∃ l q, w.db.operations.get? o.id = some l ∧ θ.loaded.operation = some l ∧ l.status.terminal = false ∧
    θ.current.operation = some q ∧ q.result = o.result ∧ q.action = o.action
  loaded : θ.loaded.workload = some before
  current : θ.current.workload = some c
  stored : w.db.workloads.get? before.id = some before
  made : w.calls = start.calls ++ calls
  others : w.db.clusters = start.db.clusters ∧ w.db.credentials = start.db.credentials

section Working
variable {rt : Runtime} {start w : World} {o : Operation} {before c : Workload} {θ : OpState} {calls : List Called}
  {answers : Answers}

/-- Nothing is asked while the operation goes on. -/
theorem Working.agrees (h : Working start o before θ w calls c) : Agrees start o before w := by
  obtain ⟨l, q, hrow, -, hopen, -⟩ := h.operation
  intro q' hq' hterminal
  rw [hrow] at hq'
  cases hq'
  rw [hopen] at hterminal
  cases hterminal

theorem Working.call (h : Working start o before θ w calls c) (answers : Answers) (caller : Caller) (r : Request) :
    Working start o before θ (w.logCall caller answers r) (calls ++ [⟨caller, r, answers r⟩]) c := by
  refine { h with made := ?_ }
  show w.calls ++ _ = _
  rw [h.made, List.append_assoc]

theorem Working.assign (h : Working start o before θ w calls c) {e : Edit} (hbeat : e.heartbeatAt = none) :
    Working start o before (θ.assign e) w calls (e.workload c) := by
  obtain ⟨l, q, hrow, hloaded, hopen, hcurrent, hresult, haction⟩ := h.operation
  refine ⟨⟨l, q, hrow, hloaded, hopen, ?_, hresult, haction⟩, h.loaded, ?_, h.stored, h.made, h.others⟩
  · show θ.current.operation.map (beat e.heartbeatAt) = _
    rw [hcurrent, hbeat]
    rfl
  · show θ.current.workload.map e.workload = _
    rw [h.current]
    rfl

/-- What the last commit stores of the operation and of the workload, and the calls that had been
made by then. -/
structure Ended (start : World) (o : Operation) (before : Workload) (w : World) (calls : List Called) (c : Workload)
    (status : OperationStatus) : Prop where
  operation : ∃ q, w.db.operations.get? o.id = some q ∧ q.status = status
  workload : ∃ v, w.db.workloads.get? before.id = some v ∧ recorded v = recorded c ∧ v.version = c.version
  made : w.calls = start.calls ++ calls

/-- The commit of `_finish` ends the operation, or nothing happens. -/
theorem Working.finish (h : Working start o before θ w calls c) (f : Finish) (i : Input) :
    (∃ e, i.reject = some e ∧ commitFinish f i θ w = ((θ.finished f).rolledBack, w, .error e)) ∨
      i.reject = none ∧ ∃ θ' w', commitFinish f i θ w = (θ', w', .ok ()) ∧ Ended start o before w' calls c f.status := by
  obtain ⟨l, q, hrow, hloaded, -, hcurrent, -⟩ := h.operation
  have hl : l.id = o.id := Table.get?_key hrow
  unfold commitFinish commitTo
  cases hreject : i.reject with
  | some e => exact Or.inl ⟨e, rfl, rfl⟩
  | none =>
    refine Or.inr ⟨rfl, _, _, rfl, ?_, ?_, h.made⟩
    · refine ⟨Operation.merge l (finishedOperation θ.kind f q) l, ?_, written_fresh _ _⟩
      show ((θ.finished f).flush w.db).operations.get? o.id = _
      rw [flush_operation, show (θ.finished f).loaded.operation = some l from hloaded,
        show (θ.finished f).current.operation = some (finishedOperation θ.kind f q) by
          show θ.current.operation.map _ = _
          rw [hcurrent]
          rfl]
      dsimp only
      rw [if_pos hl, hrow]
      rfl
    · refine ⟨Workload.merge before c before, ?_, ?_, written_fresh _ _⟩
      · show ((θ.finished f).flush w.db).workloads.get? before.id = _
        rw [flush_workloads, show (θ.finished f).loaded.workload = some before from h.loaded,
          show (θ.finished f).current.workload = some c from h.current, h.stored]
        exact congrArg some (if_pos rfl)
      · simp [recorded, Workload.merge]

theorem Ended.agrees {status : OperationStatus} (h : Ended start o before w calls c status)
    (hspec : recorded c = accepted (recorded before) calls)
    (hversion : before.version < c.version ↔ recorded c ≠ recorded before ∨ status = .succeeded) :
    Agrees start o before w := by
  obtain ⟨v, hv, hsame, hnext⟩ := h.workload
  obtain ⟨q', hq', hstatus⟩ := h.operation
  intro q hq _
  rw [hq'] at hq
  cases hq
  refine ⟨v, hv, ?_, ?_⟩
  · rw [h.made, List.drop_left, hsame, hspec]
  · rw [hsame, hnext, hstatus, hversion]

/-- What is recorded is not what Proxmox has. -/
theorem Ended.disagrees {status : OperationStatus} (h : Ended start o before w calls c status)
    (hterminal : status.terminal = true) (hspec : recorded c ≠ accepted (recorded before) calls) :
    ¬ Agrees start o before w := by
  obtain ⟨v, hv, hsame, -⟩ := h.workload
  obtain ⟨q, hq, hstatus⟩ := h.operation
  intro hagrees
  rw [← hstatus] at hterminal
  obtain ⟨v', hv', haccepted, -⟩ := hagrees q hq hterminal
  rw [hv] at hv'
  cases hv'
  rw [h.made, List.drop_left, hsame] at haccepted
  exact hspec haccepted

end Working

/-! ### Programs -/

section Programs
variable {rt : Runtime} {start w : World} {o : Operation} {before c : Workload} {θ : OpState} {calls : List Called}
  {answers : Answers} {allowed : Input → Prop} {P : World → Prop} {α β ρ : Type} {Q : Except Exn α → OpState → World → Prop}

/-- The program by itself, on inputs that are allowed, each of the states it comes to having `P`.
-/
abbrev Runs (rt : Runtime) (allowed : Input → Prop) (P : World → Prop) (p : OpProg α)
    (Q : Except Exn α → OpState → World → Prop) (θ : OpState) (w : World) : Prop :=
  wp (opMachine rt) (solo allowed P) p Q θ w

theorem runs_node {op : RunnerOp ρ} {k : ρ → OpProg α}
    (h : ∀ i, allowed i → P (op.exec rt i θ w).2.1 ∧
      Runs rt allowed P (k (op.exec rt i θ w).2.2) Q (op.exec rt i θ w).1 (op.exec rt i θ w).2.1) :
    Runs rt allowed P (.node op k) Q θ w := by
  apply wp_solo
  intro i hi out hout
  rw [← Option.some.inj hout]
  exact h i hi

theorem runs_now (hP : P w) {f : Instant → OpProg α} (h : ∀ t, Runs rt allowed P (f t) Q θ w) :
    Runs rt allowed P (now >>= f) Q θ w := runs_node fun _ _ => ⟨hP, h _⟩

theorem runs_session (hP : P w) {f : OpSession → OpProg α} (h : Runs rt allowed P (f θ.current) Q θ w) :
    Runs rt allowed P (OpProg.session >>= f) Q θ w := runs_node fun _ _ => ⟨hP, h⟩

theorem runs_row {x : Option β} {b : β} (hx : x = some b) {f : β → OpProg α} (h : Runs rt allowed P (f b) Q θ w) :
    Runs rt allowed P (OpProg.row x >>= f) Q θ w := by
  rw [hx]
  exact h

theorem runs_assign (hP : P w) {e : Edit} {f : Unit → OpProg α} (h : Runs rt allowed P (f ()) Q (θ.assign e) w) :
    Runs rt allowed P (assign e >>= f) Q θ w := runs_node fun _ _ => ⟨hP, h⟩

/-- A call that Proxmox answers, made through a client that is there. -/
theorem runs_call {r : Request} (hanswers : ∀ i, allowed i → i.answers = answers)
    (hP : P (w.logCall θ.caller answers r)) {f : Reply r → OpProg α}
    (h : match answers r with
      | .ok x => Runs rt allowed P (f x) Q θ (w.logCall θ.caller answers r)
      | .error e => Q (.error e) θ (w.logCall θ.caller answers r)) :
    Runs rt allowed P (OpProg.call (.ok ()) r >>= f) Q θ w := by
  apply runs_node
  intro i hi
  have hexec : (RunnerOp.call r).exec rt i θ w = (θ, w.logCall θ.caller answers r, answers r) := by
    show (θ, w.logCall θ.caller i.answers r, i.answers r) = _
    rw [hanswers i hi]
  rw [hexec]
  refine ⟨hP, ?_⟩
  dsimp only
  cases hr : answers r with
  | ok x =>
    rw [hr] at h
    exact h
  | error e =>
    rw [hr] at h
    exact h

theorem whole_mib (memoryGib : Int) : memoryGib * gib / 1024 ^ 2 * 1024 ^ 2 = memoryGib * gib := by
  unfold gib
  norm_num
  omega

/-- What Proxmox has once it has taken the cores and the memory. -/
theorem after_configured {spec : GuestSpec} {caller : Caller} {cpuCores memoryGib : Int} {u : Unit}
    (h : answers (configure before cpuCores memoryGib) = .ok u) :
    spec.after ⟨caller, configure before cpuCores memoryGib, answers (configure before cpuCores memoryGib)⟩ =
      { spec with cpuCores := some cpuCores, memoryBytes := some (memoryGib * gib) } := by
  rw [h]
  simp only [GuestSpec.after, whole_mib]

/-- What `_apply_spec` leaves. -/
def Applied (start : World) (o : Operation) (before : Workload) (short : Prop) :
    Except Exn Unit → OpState → World → Prop
  | .ok (), θ, w => ¬ short ∧ ∃ calls c, Working start o before θ w calls c ∧
      recorded c = accepted (recorded before) calls ∧ c.version = before.version + 1
  | .error (.app _), θ, w => ∃ calls, Working start o before θ w calls before ∧
      (accepted (recorded before) calls = recorded before ↔ ¬ short)
  | .error _, _, _ => ¬ short

theorem applied_error {short : Prop} {e : Exn} (h : Working start o before θ w calls before)
    (happ : ∀ a, e = .app a → (accepted (recorded before) calls = recorded before ↔ ¬ short))
    (hother : (∀ a, e ≠ .app a) → ¬ short) : Applied start o before short (.error e) θ w := by
  cases e with
  | app a => exact ⟨calls, h, happ a rfl⟩
  | _ => exact hother nofun

theorem requested_reads (cpuCores memoryGib : Int) (diskGib : Option Int) (version : Nat) (reason : Option String) :
    ((AdminPayload.requested (.spec cpuCores memoryGib diskGib version reason)).get? "cpu_cores").bind Json.asInt? =
        some cpuCores ∧
      ((AdminPayload.requested (.spec cpuCores memoryGib diskGib version reason)).get? "memory_bytes").bind Json.asInt? =
        some (memoryGib * gib) ∧
      ((AdminPayload.requested (.spec cpuCores memoryGib diskGib version reason)).get? "disk_bytes").bind Json.asInt? =
        diskGib.map (· * gib) := by
  refine ⟨rfl, rfl, ?_⟩
  cases diskGib <;> rfl

/-- The last assignments of `_apply_spec`. -/
theorem runs_noted {short : Prop} (hP : P w) (h : Working start o before θ w calls c) (hshort : ¬ short)
    {cpuCores memoryBytes : Int} (hversion : c.version = before.version)
    (hspec : accepted (recorded before) calls = ⟨some cpuCores, some memoryBytes, c.diskBytes⟩) :
    Runs rt allowed P (do
      let observed ← now
      assign { workload := fun w =>
        { w with cpuCores := some cpuCores, memoryBytes := some memoryBytes, observedAt := observed,
                 version := w.version + 1 } }) (Applied start o before short) θ w := by
  apply runs_now hP
  intro observed
  apply runs_node
  intro i _
  refine ⟨hP, hshort, calls, _, h.assign rfl, hspec.symm, ?_⟩
  rw [← hversion]

/-- The larger disk, once Proxmox has the rest. -/
theorem runs_resize (hanswers : ∀ i, allowed i → i.answers = answers)
    (hP : ∀ θ w calls c, Working start o before θ w calls c → P w) (h : Working start o before θ w calls before)
    {cpuCores memoryBytes diskBytes : Int} {differs short : Prop}
    (hspec : accepted (recorded before) calls = ⟨some cpuCores, some memoryBytes, before.diskBytes⟩)
    (hdiffers : accepted (recorded before) calls = recorded before ↔ ¬ differs)
    (hshort : short ↔ differs ∧ Unresized rt before diskBytes answers) :
    Runs rt allowed P (do
      let config ← OpProg.call (.ok ()) (.getGuestConfig before.kind before.node before.vmid)
      let disk ← ofExcept ((resizableDisk rt before.kind config).mapError Exn.app)
      OpProg.call (.ok ()) (.resizeGuestDisk before.kind before.node before.vmid disk diskBytes)
      assign { workload := fun w => { w with diskBytes := some diskBytes } }
      let observed ← now
      assign { workload := fun w =>
        { w with cpuCores := some cpuCores, memoryBytes := some memoryBytes, observedAt := observed,
                 version := w.version + 1 } }) (Applied start o before short) θ w := by
  have hread := h.call answers θ.caller (.getGuestConfig before.kind before.node before.vmid)
  -- what was not resized falls short just when the rest differs
  have hfails {w : World} {calls' : List Called} {e : Exn} (hworking : Working start o before θ w calls' before)
      (hsame : accepted (recorded before) calls' = accepted (recorded before) calls)
      (hunresized : Unresized rt before diskBytes answers ↔ ∃ a, e = .app a) :
      Applied start o before short (.error e) θ w := by
    refine applied_error hworking ?_ ?_
    · intro a he
      rw [hsame, hdiffers, hshort, hunresized]
      simp [he]
    · intro hne hs
      obtain ⟨a, he⟩ := hunresized.mp (hshort.mp hs).2
      exact hne a he
  apply runs_call hanswers (hP _ _ _ _ hread)
  unfold Unresized at hfails hshort
  cases hconfig : answers (.getGuestConfig before.kind before.node before.vmid) with
  | error e =>
    rw [hconfig] at hfails hshort
    exact hfails hread (accepted_concat _ _ _) Iff.rfl
  | ok config =>
    rw [hconfig] at hfails hshort
    dsimp only at hfails hshort ⊢
    cases hlayout : resizableDisk rt before.kind config with
    | error e =>
      rw [hlayout] at hfails
      exact hfails hread (accepted_concat _ _ _) (iff_of_true trivial ⟨e, rfl⟩)
    | ok disk =>
      rw [hlayout] at hfails hshort
      dsimp only at hfails hshort
      have hresize := hread.call answers θ.caller
        (.resizeGuestDisk before.kind before.node before.vmid disk diskBytes)
      apply runs_call hanswers (hP _ _ _ _ hresize)
      cases hresized : answers (.resizeGuestDisk before.kind before.node before.vmid disk diskBytes) with
      | error e =>
        rw [hresized] at hfails
        refine hfails hresize ?_ ⟨fun ⟨a, ha⟩ => ⟨a, Except.error.inj ha⟩, fun ⟨a, ha⟩ => ⟨a, congrArg _ ha⟩⟩
        rw [accepted_concat, after_refused hresized]
        exact accepted_concat _ _ _
      | ok u =>
        apply runs_assign (hP _ _ _ _ hresize)
        have hgrown := hresize.assign (e := { workload := fun w => { w with diskBytes := some diskBytes } }) rfl
        refine runs_noted (hP _ _ _ _ hresize) hgrown ?_ rfl ?_
        · rw [hshort, hresized]
          rintro ⟨-, a, ha⟩
          cases ha
        · rw [accepted_concat, hresized, accepted_concat, hspec]
          rfl

variable (rt P) in
theorem runs_applySpec (hanswers : ∀ i, allowed i → i.answers = answers)
    (hP : ∀ θ w calls c, Working start o before θ w calls c → P w) (h : Working start o before θ w [] before)
    (cpuCores memoryGib : Int) (diskGib : Option Int) (version : Nat) (reason : Option String) :
    Runs rt allowed P
      (applySpec rt (.ok ()) before (AdminPayload.requested (.spec cpuCores memoryGib diskGib version reason)))
      (Applied start o before (Short rt before cpuCores memoryGib diskGib answers)) θ w := by
  obtain ⟨hcores, hmemory, hdisk⟩ := requested_reads cpuCores memoryGib diskGib version reason
  unfold applySpec
  rw [hcores, hmemory, hdisk]
  dsimp only
  have hworking := h.call answers θ.caller
    (.configureGuest before.kind before.node before.vmid cpuCores (memoryGib * gib / 1024 ^ 2))
  apply runs_call hanswers (hP _ _ _ _ hworking)
  cases hconfigured : answers (.configureGuest before.kind before.node before.vmid cpuCores
    (memoryGib * gib / 1024 ^ 2)) with
  | error e =>
    have hnot : ¬ Short rt before cpuCores memoryGib diskGib answers := by
      rintro ⟨hok, -⟩
      rw [hconfigured] at hok
      cases hok
    refine applied_error hworking (fun _ _ => iff_of_true ?_ hnot) fun _ => hnot
    rw [accepted_concat, after_refused hconfigured, accepted_nil]
  | ok u =>
    -- from here on Proxmox has the cores and the memory of the request
    have hspec := accepted_concat (recorded before) []
      ⟨θ.caller, configure before cpuCores memoryGib, answers (configure before cpuCores memoryGib)⟩
    rw [accepted_nil, after_configured hconfigured] at hspec
    dsimp only
    cases diskGib with
    | none =>
      refine runs_noted (hP _ _ _ _ hworking) hworking ?_ rfl hspec
      rintro ⟨-, -, d, hd, -⟩
      cases hd
    | some d =>
      dsimp only [Option.map]
      split
      · next hgrows =>
        have hshort : Short rt before cpuCores memoryGib (some d) answers ↔
            (before.cpuCores ≠ some cpuCores ∨ before.memoryBytes ≠ some (memoryGib * gib)) ∧
              Unresized rt before (d * gib) answers := by
          constructor
          · rintro ⟨-, hdiffers, d', hd', -, hunresized⟩
            cases hd'
            exact ⟨hdiffers, hunresized⟩
          · rintro ⟨hdiffers, hunresized⟩
            exact ⟨hconfigured, hdiffers, d, rfl, hgrows, hunresized⟩
        apply runs_resize hanswers hP hworking hspec ?_ hshort
        rw [hspec, not_or, not_not, not_not]
        simp [recorded, eq_comm]
      · next hfits =>
        refine runs_noted (hP _ _ _ _ hworking) hworking ?_ rfl hspec
        rintro ⟨-, -, d', hd', hgrows, -⟩
        cases hd'
        exact hfits hgrows

/-! ### The execution -/

/-- Clients open and commits go through: what is left to vary are Proxmox's answers. -/
def Smooth (allowed : Input → Prop) : Prop := ∀ i, allowed i → i.client = .ok () ∧ i.reject = none

/-- Every state agrees unless `partly`, and then the last one does not. -/
abbrev Settles (rt : Runtime) (allowed : Input → Prop) (start : World) (o : Operation) (before : Workload)
    (partly : Prop) (p : OpProg Unit) (θ : OpState) (w : World) : Prop :=
  Runs rt allowed (fun w' => ¬ partly → Agrees start o before w') p
    (fun _ _ w' => partly → Smooth allowed → ¬ Agrees start o before w') θ w

/-- The commit of `_finish`, as a part of a program. -/
theorem runs_finish (h : Working start o before θ w calls c) {f : Finish} {Q : Except Exn Unit → OpState → World → Prop}
    (hP : P w) (hended : ∀ w', Ended start o before w' calls c f.status → P w' ∧ ∀ θ', Q (.ok ()) θ' w')
    (hlost : ∀ i e θ', allowed i → i.reject = some e → Q (.error e) θ' w) : Runs rt allowed P (finish f) Q θ w := by
  apply runs_node
  intro i hi
  show P (commitFinish f i θ w).2.1 ∧
    Q (commitFinish f i θ w).2.2 (commitFinish f i θ w).1 (commitFinish f i θ w).2.1
  rcases h.finish f i with ⟨e, hreject, hout⟩ | ⟨-, θ', w', hout, hended'⟩
  · rw [hout]
    exact ⟨hP, hlost i e _ hi hreject⟩
  · rw [hout]
    exact ⟨(hended w' hended').1, (hended w' hended').2 θ'⟩

/-- An operation that fails has recorded nothing. -/
theorem settles_failed {partly : Prop} (h : Working start o before θ w calls before) {f : Finish}
    (hfailed : f.status ≠ .succeeded) (hsame : ¬ partly → accepted (recorded before) calls = recorded before)
    (hpartly : partly → Smooth allowed → accepted (recorded before) calls ≠ recorded before) :
    Settles rt allowed start o before partly (finish f) θ w := by
  apply runs_finish h
  · exact fun _ => h.agrees
  · intro w' hended
    constructor
    · intro hnot
      refine hended.agrees (hsame hnot).symm ?_
      simp [hfailed]
    · intro θ' hp hsmooth
      exact hended.disagrees f.terminal (hpartly hp hsmooth).symm
  · intro i e θ' hi hreject _ hsmooth
    rw [(hsmooth i hi).2] at hreject
    cases hreject

theorem settles_finishFromError {partly : Prop} (h : Working start o before θ w calls before) (e : AppError)
    (hsame : ¬ partly → accepted (recorded before) calls = recorded before)
    (hpartly : partly → Smooth allowed → accepted (recorded before) calls ≠ recorded before) :
    Settles rt allowed start o before partly (finishFromError e false) θ w := by
  unfold finishFromError
  apply runs_now fun _ => h.agrees
  intro time
  split
  · exact settles_failed h OperationStatus.timeout_ne hsame hpartly
  · exact settles_failed h OperationStatus.failed_ne hsame hpartly

/-- The body of the `try`, with a client that is there. -/
theorem runs_adminBody {short : Prop} {operation : Operation} (hallowed : ∀ i, allowed i → Answered answers i)
    {cpuCores memoryGib : Int} {diskGib : Option Int} {version : Nat} {reason : Option String}
    (hresult : operation.result = AdminPayload.requested (.spec cpuCores memoryGib diskGib version reason))
    (h : Working start o before θ w [] before) (hshort : short ↔ Short rt before cpuCores memoryGib diskGib answers) :
    Runs rt allowed (fun w' => ¬ short → Agrees start o before w')
      (adminBody rt (.ok ()) before operation .updateSpec)
      (fun r θ w => match r with
        | .error (.app _) => ∃ calls, Working start o before θ w calls before ∧
            (accepted (recorded before) calls = recorded before ↔ ¬ short)
        | _ => ¬ short) θ w := by
  unfold adminBody
  apply wp_bind
  rw [hresult]
  have happly := runs_applySpec rt (fun w' => ¬ short → Agrees start o before w')
    (fun i hi => (hallowed i hi).1) (fun _ _ _ _ hworking _ => hworking.agrees) h cpuCores memoryGib diskGib version
    reason
  refine wp_mono (fun r θ w hr => ?_) happly
  rw [← hshort] at hr
  cases r with
  | error e =>
    cases e with
    | app a => exact hr
    | _ => exact hr
  | ok u =>
    obtain ⟨hnot, calls, c, hworking, hspec, hversion⟩ := hr
    apply runs_now fun _ => hworking.agrees
    intro time
    apply runs_finish hworking
    · exact fun _ => hworking.agrees
    · intro w' hended
      refine ⟨fun _ => hended.agrees hspec ?_, fun _ => hnot⟩
      rw [hversion]
      simp
    · intro i e θ' hi hreject
      cases e with
      | app a => exact absurd hreject ((hallowed i hi).2 a)
      | _ => exact hnot

/-- `_open_client` gives a client, or nothing has been asked of Proxmox. -/
theorem runs_openClient {Q : Except Exn α → OpState → World → Prop} (hP : P w) {calls : List Called}
    (h : Working start o before θ w calls c) {f : Except AppError Unit → OpProg α}
    (hopen : (∃ cl, start.db.clusters.get? before.clusterId = some cl ∧ cl.isActive = true) →
      (start.db.credentials.first fun c => c.clusterId == before.clusterId && c.isActive).isSome = true →
      Runs rt allowed P (f (.ok ())) Q θ w)
    (hclosed : ∀ e, ((∃ cl, start.db.clusters.get? before.clusterId = some cl ∧ cl.isActive = true) →
      (start.db.credentials.first fun c => c.clusterId == before.clusterId && c.isActive).isSome = true →
      ¬ Smooth allowed) → Runs rt allowed P (f (.error e)) Q θ w) :
    Runs rt allowed P (openClient before >>= f) Q θ w := by
  have hclusters : w.db.clusters.get? before.clusterId = start.db.clusters.get? before.clusterId := by rw [h.others.1]
  have hcredentials : (w.db.credentials.first fun c => c.clusterId == before.clusterId && c.isActive) =
      start.db.credentials.first fun c => c.clusterId == before.clusterId && c.isActive := by rw [h.others.2]
  apply wp_bind
  unfold openClient
  apply runs_node
  intro i _
  refine ⟨hP, ?_⟩
  apply runs_node
  intro i _
  refine ⟨hP, ?_⟩
  dsimp only [RunnerOp.exec]
  rw [hclusters, hcredentials]
  cases hcluster : start.db.clusters.get? before.clusterId with
  | none =>
    refine hclosed _ fun hcl _ => ?_
    obtain ⟨cl, hget, -⟩ := hcl
    rw [hcluster] at hget
    cases hget
  | some cl =>
    cases hcredential : start.db.credentials.first fun c => c.clusterId == before.clusterId && c.isActive with
    | none =>
      refine hclosed _ fun _ hsome => ?_
      rw [hcredential] at hsome
      cases hsome
    | some cred =>
      show Runs rt allowed P (if cl.isActive = true then op (.connect cl cred)
        else pure (.error (clusterUnavailable "The workload cluster is unavailable."))) _ θ w
      by_cases hactive : cl.isActive = true
      · rw [if_pos hactive]
        apply runs_node
        intro i hi
        refine ⟨hP, ?_⟩
        show Runs rt allowed P (f i.client) Q θ w
        cases hclient : i.client with
        | ok u => exact hopen ⟨cl, hcluster, hactive⟩ (by rw [hcredential]; rfl)
        | error e =>
          refine hclosed e fun _ _ hsmooth => ?_
          rw [(hsmooth i hi).1] at hclient
          cases hclient
      · rw [if_neg hactive]
        refine hclosed _ fun hcl _ => ?_
        obtain ⟨cl', hget, hactive'⟩ := hcl
        rw [hcluster] at hget
        cases hget
        exact absurd hactive' hactive

/-- `_run_admin_action`, once the operation is `RUNNING`. -/
theorem settles_runAdminAction {partly : Prop} {operation : Operation}
    (hallowed : ∀ i, allowed i → Answered answers i)
    {cpuCores memoryGib : Int} {diskGib : Option Int} {version : Nat} {reason : Option String}
    (hresult : operation.result = AdminPayload.requested (.spec cpuCores memoryGib diskGib version reason))
    (h : Working start o before θ w [] before)
    (hpartly : partly ↔ ((∃ cl, start.db.clusters.get? before.clusterId = some cl ∧ cl.isActive = true) ∧
      (start.db.credentials.first fun c => c.clusterId == before.clusterId && c.isActive).isSome = true) ∧
        Short rt before cpuCores memoryGib diskGib answers) :
    Settles rt allowed start o before partly (runAdminAction rt operation .updateSpec) θ w := by
  unfold runAdminAction
  apply runs_session fun _ => h.agrees
  apply runs_row h.current
  apply runs_openClient (fun _ => h.agrees) h
  · intro hcluster hcredential
    have hshort : partly ↔ Short rt before cpuCores memoryGib diskGib answers := by
      rw [hpartly, and_iff_right ⟨hcluster, hcredential⟩]
    apply wp_bind
    apply wp_attempt
    refine wp_mono (fun r θ w hr => ?_) (runs_adminBody hallowed hresult h hshort)
    cases r with
    | ok u => exact fun hp => absurd hp hr
    | error e =>
      cases e with
      | app a =>
        obtain ⟨calls, hworking, hsame⟩ := hr
        exact settles_finishFromError hworking a hsame.mpr fun hp _ heq => hsame.mp heq hp
      | _ => exact fun hp => absurd hp hr
  · intro e hclosed
    -- each call raises the client's error, and the first one ends the body
    have hbody : adminBody rt (.error e) before operation .updateSpec = raise (.app e) := by
      obtain ⟨hcores, hmemory, -⟩ := requested_reads cpuCores memoryGib diskGib version reason
      unfold adminBody applySpec
      rw [hresult, hcores, hmemory]
      rfl
    rw [hbody]
    refine settles_finishFromError h e (fun _ => rfl) fun hp hsmooth => ?_
    obtain ⟨⟨hcluster, hcredential⟩, -⟩ := hpartly.mp hp
    exact absurd hsmooth (hclosed hcluster hcredential)

/-! ### Admission -/

/-- The runner with the rows it has read, right after its admission. -/
def opened (db : Db) (o : Operation) (before : Workload) : OpState :=
  ({ kind := .power, operationId := o.id } : OpState).load
    { operation := some o, workload := some before, actor := db.users.get? o.requestedById }

theorem Updates.working {cpuCores memoryGib : Int} {diskGib : Option Int}
    (h : Updates start.db o before cpuCores memoryGib diskGib) :
    Working start o before (opened start.db o before) start [] before where
  operation := ⟨o, o, h.stored, rfl, h.unfinished, rfl, rfl, rfl⟩
  loaded := rfl
  current := rfl
  stored := by
    have hid : before.id = o.workloadId := Table.get?_key h.workload
    rw [hid]
    exact h.workload
  made := (List.append_nil _).symm
  others := ⟨rfl, rfl⟩

/-- The commit that sets the operation `RUNNING`. -/
theorem Updates.started {cpuCores memoryGib : Int} {diskGib : Option Int}
    (h : Updates start.db o before cpuCores memoryGib diskGib) (i : Input) :
    (∃ e, i.reject = some e ∧ ∃ θ', commitStart .admin i (opened start.db o before) start = (θ', start, .error e)) ∨
      ∃ θ' w' q, commitStart .admin i (opened start.db o before) start = (θ', w', .ok .admin) ∧
        θ'.current.operation = some q ∧ q.action = o.action ∧ q.result = o.result ∧
        Working start o before θ' w' [] before := by
  have hworking := h.working
  unfold commitStart commitEdits commitTo
  cases i.reject with
  | some e => exact Or.inl ⟨e, rfl, _, rfl⟩
  | none =>
    refine Or.inr ⟨_, _, startedOperation start.clock o, rfl, rfl, rfl, rfl, ?_⟩
    refine ⟨⟨startedOperation start.clock o, startedOperation start.clock o, ?_, rfl, rfl, rfl, rfl, rfl⟩, rfl, rfl, ?_,
      hworking.made, rfl, rfl⟩
    · show (((opened start.db o before).started start.clock).flush start.db).operations.get? o.id = _
      rw [flush_operation]
      show (if o.id = o.id then (start.db.operations.get? o.id).map
        (Operation.merge o (startedOperation start.clock o)) else _) = _
      rw [if_pos rfl, h.stored]
      simp [Operation.merge, startedOperation]
    · show (((opened start.db o before).started start.clock).flush start.db).workloads.get? before.id = _
      rw [flush_workloads, hworking.stored]
      show some (flushed Workload.merge (some before) (some before) before) = _
      simp [flushed, Workload.merge]

/-- `run` reads its rows, and the administrator's part admits it. -/
theorem Updates.enter {cpuCores memoryGib : Int} {diskGib : Option Int}
    (h : Updates start.db o before cpuCores memoryGib diskGib) (i : Input) :
    PveMaster.enter rt i { kind := .power, operationId := o.id } start = admitAdmin i (opened start.db o before) start := by
  show admitPower rt o.id i _ start = _
  unfold admitPower
  rw [h.stored]
  simp only [h.unfinished, h.action, h.workload]
  rfl

variable (start o before) in
/-- What the admission looks at. -/
theorem admitAdmin_admits (i : Input) :
    (∃ code, admitAdmin i (opened start.db o before) start = refuse code i (opened start.db o before) start ∧
      ¬ Reaches start.db o before) ∨
      admitAdmin i (opened start.db o before) start = commitStart .admin i (opened start.db o before) start ∧
        before.isPresent = true ∧ before.isTemplate = false ∧
        ∃ u, start.db.users.get? o.requestedById = some u ∧ u.isActive = true ∧ u.role = .superAdmin := by
  have hactor : (opened start.db o before).loaded.actor = start.db.users.get? o.requestedById := rfl
  have hworkload : (opened start.db o before).loaded.workload = some before := rfl
  unfold admitAdmin
  rw [hactor, hworkload]
  dsimp only
  split
  · next habsent =>
    refine Or.inl ⟨_, rfl, fun hreaches => ?_⟩
    rw [hreaches.present, hreaches.machine] at habsent
    cases habsent
  · next hpresent =>
    simp only [Bool.or_eq_true, Bool.not_eq_true', not_or, Bool.not_eq_false, Bool.not_eq_true] at hpresent
    split
    · next hactor =>
      refine Or.inr ⟨rfl, hpresent.1, hpresent.2, ?_⟩
      cases huser : start.db.users.get? o.requestedById with
      | none =>
        rw [huser] at hactor
        cases hactor
      | some u =>
        rw [huser] at hactor
        simp only [Option.map_some, Option.getD_some, Bool.and_eq_true, beq_iff_eq] at hactor
        exact ⟨u, rfl, hactor⟩
    · next hactor =>
      refine Or.inl ⟨_, rfl, fun hreaches => ?_⟩
      obtain ⟨u, huser, hactive, hrole⟩ := hreaches.actor
      rw [huser] at hactor
      simp [hactive, hrole] at hactor

variable (rt allowed) in
/-- **An execution settles the property.** -/
theorem settles_run {cpuCores memoryGib : Int} {diskGib : Option Int} (hallowed : ∀ i, allowed i → Answered answers i)
    (h : Updates start.db o before cpuCores memoryGib diskGib) :
    Settles rt allowed start o before (PartlyApplied rt start.db o before cpuCores memoryGib diskGib answers)
      (run rt) { kind := .power, operationId := o.id } start := by
  have hworking := h.working
  apply runs_node
  intro i hi
  have hexec : RunnerOp.enter.exec rt i { kind := .power, operationId := o.id } start =
    admitAdmin i (opened start.db o before) start := h.enter i
  have hopened : ¬ PartlyApplied rt start.db o before cpuCores memoryGib diskGib answers → Agrees start o before start :=
    fun _ => hworking.agrees
  rw [hexec]
  rcases admitAdmin_admits start o before i with ⟨code, hout, hnot⟩ | ⟨hout, hpresent, hmachine, hactor⟩
  · rw [hout]
    unfold refuse
    have hpartly : ¬ PartlyApplied rt start.db o before cpuCores memoryGib diskGib answers := fun hp => hnot hp.reaches
    rcases hworking.finish _ i with ⟨e, -, hfinish⟩ | ⟨-, θ', w', hfinish, hended⟩
    · rw [hfinish]
      exact ⟨hopened, fun hp => absurd hp hpartly⟩
    · rw [hfinish]
      refine ⟨fun _ => hended.agrees rfl ?_, fun hp => absurd hp hpartly⟩
      simp
  · rw [hout]
    rcases h.started i with ⟨e, hreject, θ', hstart⟩ | ⟨θ', w', q, hstart, hq, haction, hresult, hworking'⟩
    · rw [hstart]
      refine ⟨hopened, fun _ hsmooth => ?_⟩
      rw [(hsmooth i hi).2] at hreject
      cases hreject
    · rw [hstart]
      refine ⟨fun _ => hworking'.agrees, ?_⟩
      obtain ⟨version, reason, hrequested⟩ := h.requested
      apply runs_session fun _ => hworking'.agrees
      apply runs_row hq
      rw [haction, h.action]
      apply settles_runAdminAction hallowed (hresult.trans hrequested) hworking'
      constructor
      · intro hp
        exact ⟨⟨hp.reaches.cluster, hp.reaches.credential⟩, hp.short⟩
      · rintro ⟨⟨hcluster, hcredential⟩, hshort⟩
        exact ⟨⟨hpresent, hmachine, hactor, hcluster, hcredential⟩, hshort⟩

end Programs

/-! ### Executions -/

/-- A container of 2 cores, 4 GiB and a disk of 10 GiB. -/
def smallWorkload : Workload :=
  { sampleWorkload 1 with kind := .lxc, cpuCores := some 2, memoryBytes := some (4 * gib), diskBytes := some (10 * gib) }

/-- It shall have 4 cores, 8 GiB and a disk of 20 GiB. -/
def growth : Operation :=
  { PveMaster.requested 1 1 .vmSpecUpdate with result := AdminPayload.requested (.spec 4 8 (some 20) 1 none) }

def growthWorld : World :=
  { sampleWorld .vmSpecUpdate with
    db := { (sampleWorld .vmSpecUpdate).db with workloads := .single smallWorkload, operations := .single growth } }

/-- Everything is accepted except, perhaps, the resize. -/
def resizeAnswers (resized : Except Exn Unit) : Answers
  | .configureGuest .. => .ok ()
  | .getGuestConfig .. => .ok [("rootfs", .str "local-lvm:vm-100-disk-0,size=10G")]
  | .resizeGuestDisk .. => resized
  | _ => .error (.app ⟨502, "PVE_UPSTREAM_ERROR", "Proxmox did not answer.", []⟩)

/-- Proxmox rejects the larger disk. -/
def resizeRejected : Except Exn Unit := .error (.app ⟨502, "PVE_UPSTREAM_ERROR", "Proxmox rejected the request.", []⟩)

theorem growth_updates : Updates growthWorld.db growth smallWorkload 4 8 (some 20) where
  stored := rfl
  unfinished := rfl
  action := rfl
  requested := ⟨1, none, rfl⟩
  workload := rfl

/-- **What a specification update records**, for all answers of Proxmox. -/
theorem records_iff (rt : Runtime) (w : World) (o : Operation) (before : Workload) (cpuCores memoryGib : Int)
    (diskGib : Option Int) (answers : Answers) (h : Updates w.db o before cpuCores memoryGib diskGib) :
    Records rt w o before answers ↔ ¬ PartlyApplied rt w.db o before cpuCores memoryGib diskGib answers := by
  constructor
  · intro hrecords hp
    -- a run with a client and without refusals
    let input : Input := ⟨answers, fun _ => 0, fun _ => 0, .ok (), none⟩
    have hinput : Answered answers input := ⟨rfl, nofun⟩
    have hrun := settles_run rt (· = input) (fun _ hi => hi ▸ hinput) h
    obtain ⟨w', hw', r, θ', hsettles⟩ := visits_end (fun _ => input) hrun (fun _ => rfl) fun _ _ _ _ => rfl
    exact hsettles hp (fun _ hi => hi ▸ ⟨rfl, rfl⟩) (hrecords _ (fun _ => hinput) w' hw')
  · intro hp inputs hinputs w' hw'
    have hrun := settles_run rt (Answered answers) (fun _ hi => hi) h
    have hall := visits_all hrun hinputs fun _ => h.working.agrees
    exact hall w' hw' hp

theorem growth_recorded : Updates growthWorld.db growth smallWorkload 4 8 (some 20) ∧
    Records asciiRuntime growthWorld growth smallWorkload (resizeAnswers (.ok ())) := by
  refine ⟨growth_updates, (records_iff asciiRuntime growthWorld growth smallWorkload 4 8 (some 20) _
    growth_updates).mpr fun hp => ?_⟩
  obtain ⟨d, hd, -, hunresized⟩ := hp.short.unresized
  cases hd
  obtain ⟨a, ha⟩ := hunresized
  cases ha

/-- The disk is refused after the cores and the memory: they are the new ones, and recorded as the
old ones. -/
theorem refused_growth_stale : Updates growthWorld.db growth smallWorkload 4 8 (some 20) ∧
    ¬ Records asciiRuntime growthWorld growth smallWorkload (resizeAnswers resizeRejected) := by
  refine ⟨growth_updates, fun hrecords => ?_⟩
  let input : Input := ⟨resizeAnswers resizeRejected, fun _ => 0, fun _ => 0, .ok (), none⟩
  let last := (execution asciiRuntime growth (fun _ => input) growthWorld).getLast (by nofun)
  have hagrees := hrecords (fun _ => input) (fun _ => ⟨rfl, nofun⟩) last (List.getLast_mem _)
  have hstatus : (last.db.operations.get? 1).map Operation.status = some .failed := by decide +kernel
  have hrecorded : (last.db.workloads.get? 1).map recorded = some ⟨some 2, some (4 * gib), some (10 * gib)⟩ := by
    decide +kernel
  have haccepted : accepted (recorded smallWorkload) last.calls = ⟨some 4, some (8 * gib), some (10 * gib)⟩ := by
    decide +kernel
  obtain ⟨q, hq, hfailed⟩ := Option.map_eq_some_iff.mp hstatus
  obtain ⟨v, hv, hspec, -⟩ := hagrees q hq (by rw [hfailed]; rfl)
  have hv' : last.db.workloads.get? 1 = some v := hv
  rw [hv'] at hrecorded
  have hsame : recorded v = ⟨some 4, some (8 * gib), some (10 * gib)⟩ := hspec.trans haccepted
  rw [Option.map_some, hsame] at hrecorded
  exact absurd hrecorded (by decide)

end PveMaster.Specification
