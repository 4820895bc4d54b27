import PveMaster.Foundation.History
import PveMaster.Operations.Execution
import Mathlib

/-! What a success of the power runner says.

Every process remembers what Proxmox has told it of guests and tasks (`heard`). A `_finish`
with `SUCCEEDED` is only reached with the answers that bear it out (`Proven`), and its commit
is the one that gives the operation the status it has (`success_truthful`).

One column is not as it should be: a flush writes what differs from what was loaded. A run
that observes the power state it has loaded writes nothing over what others have stored
since (`unwritten`). -/
namespace PveMaster.Truthfulness
open Prog OpProg
open Routing (OfType statusOf)

/-- What Proxmox tells of a guest, and of a task. -/
inductive Heard where
  | guest (status : Dict)
  | task (upid : String) (status : Dict)
  deriving DecidableEq

/-- What an operation of a runner lets the process hear. -/
def heard {ρ : Type} : RunnerOp ρ → ρ → List Heard
  | .call (.getGuestStatus ..), .ok status => [.guest status]
  | .call (.getTaskStatus _ upid), .ok status => [.task upid status]
  | _, _ => []

def Heard.guest? : Heard → Option Dict
  | .guest status => some status
  | .task .. => none

/-- The guest status that was read last, if any has been. -/
def lastGuest (h : List Heard) : Option Dict := (h.filterMap Heard.guest?).getLast?

@[simp] theorem lastGuest_append (h : List Heard) (status : Dict) :
    lastGuest (h ++ [.guest status]) = some status := by
  simp [lastGuest, List.filterMap_append, Heard.guest?]

/-- The state an action aims at. A reboot and a reset aim at a running guest, as a start does. -/
def aim (a : PowerAction) : String := if a = .shutdown ∨ a = .stop then "STOPPED" else "RUNNING"

/-- `str.upper` and `str.lower` on the two states the runner looks for: it compares in one case
and stores in the other. -/
structure Cased (rt : Runtime) : Prop where
  running : ∀ s, rt.lower s = "running" → rt.upper s = "RUNNING"
  stopped : ∀ s, rt.lower s = "stopped" → rt.upper s = "STOPPED"

abbrev hearing (rt : Runtime) := (opMachine rt).hearing heard

/-- A runner's session and what it has heard. -/
abbrev Told : Type := OpState × List Heard

/-! ### What bears a success out -/

/-- The run has read the end of the task it holds, and it ended well. -/
def ReadEnded (θ : Told) : Prop :=
  ∃ t, θ.1.current.task = some t ∧ t.operationId = θ.1.operationId ∧ ∃ status, .task t.upid status ∈ θ.2 ∧
    status.get? "status" = some (.str "stopped") ∧ status.get? "exitstatus" = some (.str "OK")

/-- The session of a run that has been admitted for an operation of a type. -/
structure Serves (wid : Uuid) (type : OperationType) (θ : OpState) (o : Operation) (l c : Workload) : Prop where
  sound : θ.Sound
  loaded : θ.loaded.operation = some o
  ofType : o.operationType = type
  running : o.status = .running
  unannounced : o.result.get? "final_power_state" = none
  before : θ.loaded.workload = some l
  after : θ.current.workload = some c
  same : l.id = wid ∧ c.id = wid

/-- What a success of the type rests on: the state that is stored and reported is the one that was
read last, after a task that ended well or where no task was needed. -/
def Rests (rt : Runtime) (θ : Told) (result : Dict) (l c : Workload) : OperationType → Prop
  | .power a =>
    c.powerState = aim a ∧ (∃ status, lastGuest θ.2 = some status ∧ rt.upper (rt.strOf status "status" "unknown") = aim a) ∧
      result.get? "final_power_state" = some (.str (aim a)) ∧
      (result.get? "no_op" = some (.bool true) ∧ a ≠ .reboot ∧ a ≠ .reset ∨
        result.get? "no_op" = some (.bool false) ∧ ReadEnded θ)
  | .vmDelete => ReadEnded θ ∧ l.isPresent = true ∧ c.isPresent = false
  | _ => True

/-- A success that is borne out by what the process has heard and by the rows it holds. -/
def Proven (rt : Runtime) (wid : Uuid) (type : OperationType) (θ : Told) (f : Finish) : Prop :=
  ∃ o l c, Serves wid type θ.1 o l c ∧ Rests rt θ (f.result o.result) l c type

/-- The row is of the type, for a workload that is recorded, and tells a final state only once
it has ended. -/
structure Tracked (k wid : Uuid) (type : OperationType) (db : Db) : Prop where
  ofType : OfType k type db
  ofWorkload : ∀ o, db.operations.get? k = some o → o.workloadId = wid
  placed : ∀ o, db.operations.get? k = some o → ∃ wl, db.workloads.get? wid = some wl
  unannounced : ∀ o, db.operations.get? k = some o → o.status.terminal = false →
    o.result.get? "final_power_state" = none

/-- A result that is not a success leaves the operation's `result` alone; a success is proven. -/
def guard (rt : Runtime) (k wid : Uuid) (type : OperationType) : Budget RunnerOp Told World Input PUnit where
  may _ _ _ _ w := Tracked k wid type w.db
  allowed o θ := ∀ f, o.finishWith = some f →
    (f.status ≠ .succeeded → f.result = id) ∧ (f.status = .succeeded → Proven rt wid type θ f)
  cost _ _ _ _ := 0

variable {rt : Runtime} {k wid : Uuid} {type : OperationType} {α β ρ : Type} {θ : Told}

/-- The program reaches no success that is not proven, whatever it is answered with. -/
abbrev Honest (rt : Runtime) (k wid : Uuid) (type : OperationType) (p : OpProg α) (θ : Told) : Prop :=
  within (hearing rt) (guard rt k wid type) p (fun _ _ _ => True) PUnit.unit θ

/-! ### Rules -/

section Rules

theorem honest_node {o : RunnerOp ρ} {f : ρ → OpProg α} (hallowed : (guard rt k wid type).allowed o θ)
    (h : ∀ i w θ' w' r, Tracked k wid type w.db → (opMachine rt).exec o i θ.1 w = some (θ', w', r) →
      Honest rt k wid type (f r) (θ', θ.2 ++ heard o r)) : Honest rt k wid type (.node o f) θ := by
  refine ⟨hallowed, fun i w θ' w' r hmay hexec => ⟨PUnit.unit, trivial, ?_⟩⟩
  obtain ⟨hexec, hheard⟩ := Machine.hearing_exec hexec
  have hk := h i w θ'.1 w' r hmay hexec
  rw [← hheard] at hk
  exact hk

theorem allowed_plain {o : RunnerOp ρ} (h : o.finishWith = none) : (guard rt k wid type).allowed o θ := by
  intro f hf
  rw [h] at hf
  cases hf

/-- What does not touch the session, and tells nothing. -/
theorem honest_still {o : RunnerOp ρ} {f : ρ → OpProg α} (hstill : Conduct.still o = true)
    (hquiet : ∀ r, heard o r = []) (h : ∀ r, Honest rt k wid type (f r) θ) : Honest rt k wid type (op o >>= f) θ := by
  apply honest_node
  · apply allowed_plain
    cases o <;> first | rfl | cases hstill
  · intro i w θ' w' r _ hexec
    rw [Conduct.exec_still hstill hexec, hquiet, List.append_nil]
    exact h r

theorem honest_now {f : Instant → OpProg α} (h : ∀ t, Honest rt k wid type (f t) θ) :
    Honest rt k wid type (now >>= f) θ := honest_still rfl (fun _ => rfl) h

theorem honest_session {f : OpSession → OpProg α} (h : Honest rt k wid type (f θ.1.current) θ) :
    Honest rt k wid type (OpProg.session >>= f) θ := by
  apply honest_node (allowed_plain rfl)
  intro i w θ' w' r _ hexec
  have hout : RunnerOp.session.exec rt i θ.1 w = (θ', w', r) := Option.some.inj hexec
  cases hout
  rw [show heard RunnerOp.session θ.1.current = [] from rfl, List.append_nil]
  exact h

theorem honest_row {x : Option β} {f : β → OpProg α} (h : ∀ b, x = some b → Honest rt k wid type (f b) θ) :
    Honest rt k wid type (OpProg.row x >>= f) θ := by
  cases x with
  | none => trivial
  | some b => exact h b rfl

theorem honest_assign {e : Edit} {f : Unit → OpProg α} (h : Honest rt k wid type (f ()) (θ.1.assign e, θ.2)) :
    Honest rt k wid type (assign e >>= f) θ := by
  apply honest_node (allowed_plain rfl)
  intro i w θ' w' r _ hexec
  have hout : (RunnerOp.assign e).exec rt i θ.1 w = (θ', w', r) := Option.some.inj hexec
  cases hout
  rw [show heard (RunnerOp.assign e) () = [] from rfl, List.append_nil]
  exact h

/-- A commit that is refused ends the program. -/
theorem honest_commit {f : Unit → OpProg α} (h : Honest rt k wid type (f ()) (θ.1.saved, θ.2)) :
    Honest rt k wid type (OpProg.commit >>= f) θ := by
  apply honest_node (allowed_plain rfl)
  intro i w θ' w' r _ hexec
  have hout : commitEdits i θ.1 w = (θ', w', r) := Option.some.inj hexec
  rw [show heard RunnerOp.commit r = [] from rfl, List.append_nil]
  unfold commitEdits at hout
  rcases commitTo_cases i θ.1 w (θ.1.flush w.db) with ⟨e, hc⟩ | hc
  · rw [hc] at hout
    cases hout
    trivial
  · rw [hc] at hout
    cases hout
    exact h

theorem honest_addTask {t : PveTask} {f : Unit → OpProg α}
    (h : Honest rt k wid type (f ()) ((θ.1.withTask t).saved, θ.2)) :
    Honest rt k wid type (perform (.addTask t) >>= f) θ := by
  apply honest_node (allowed_plain rfl)
  intro i w θ' w' r _ hexec
  have hout : commitTask t i θ.1 w = (θ', w', r) := Option.some.inj hexec
  rw [show heard (RunnerOp.addTask t) r = [] from rfl, List.append_nil]
  unfold commitTask at hout
  split at hout
  · cases hout
    trivial
  · split at hout
    · next tasks _ _ =>
      rcases commitTo_cases i { θ.1 with current := { θ.1.current with task := some t } } w
        { θ.1.flush w.db with pveTasks := tasks } with ⟨e, hc⟩ | hc
      · rw [hc] at hout
        cases hout
        trivial
      · rw [hc] at hout
        cases hout
        exact h
    · cases hout
      trivial

/-- A call, with what it tells; a client that could not be opened tells nothing. -/
theorem honest_call {client : Except AppError Unit} {r : Request} {f : Except Exn (Reply r) → OpProg α}
    (herror : ∀ e, Honest rt k wid type (f (.error e)) θ)
    (hok : ∀ reply : Reply r, Honest rt k wid type (f (.ok reply)) (θ.1, θ.2 ++ heard (.call r) (.ok reply))) :
    Honest rt k wid type ((call client r).attempt >>= f) θ := by
  cases client with
  | error e => exact herror _
  | ok _ =>
    apply honest_node (allowed_plain rfl)
    intro i w θ' w' answer _ hexec
    have hout : (RunnerOp.call r).exec rt i θ.1 w = (θ', w', answer) := Option.some.inj hexec
    cases hout
    cases hanswer : i.answers r with
    | ok reply => exact hok reply
    | error e =>
      rw [show heard (RunnerOp.call r) (.error e) = [] by cases r <;> rfl, List.append_nil]
      exact herror e

/-- A call whose error is let through. -/
theorem honest_called {client : Except AppError Unit} {r : Request} {f : Reply r → OpProg α}
    (h : ∀ reply : Reply r, Honest rt k wid type (f reply) (θ.1, θ.2 ++ heard (.call r) (.ok reply))) :
    Honest rt k wid type (call client r >>= f) θ := by
  cases client with
  | error e => trivial
  | ok _ =>
    apply honest_node (allowed_plain rfl)
    intro i w θ' w' answer _ hexec
    have hout : (RunnerOp.call r).exec rt i θ.1 w = (θ', w', answer) := Option.some.inj hexec
    cases hout
    cases hanswer : i.answers r with
    | ok reply => exact h reply
    | error e => trivial

theorem honest_finish {f : Finish} (hfail : f.status ≠ .succeeded → f.result = id)
    (hproven : f.status = .succeeded → Proven rt wid type θ f) : Honest rt k wid type (finish f) θ := by
  apply honest_node
  · intro f' hf
    cases hf
    exact ⟨hfail, hproven⟩
  · intro i w θ' w' r _ _
    trivial

/-- A result that is not a success. -/
theorem honest_failed {f : Finish} (h : f.status ≠ .succeeded) (hresult : f.result = id) :
    Honest rt k wid type (finish f) θ := honest_finish (fun _ => hresult) (fun hs => absurd hs h)

theorem honest_bind {p : OpProg β} {f : β → OpProg α} (hp : Honest rt k wid type p θ)
    (hf : ∀ b θ, Honest rt k wid type (f b) θ) : Honest rt k wid type (p >>= f) θ := by
  apply within_bind
  apply within_mono _ hp
  intro r _ θ _
  cases r with
  | ok b => exact hf b θ
  | error e => trivial

theorem honest_attempt {p : OpProg β} {f : Except Exn β → OpProg α} (hp : Honest rt k wid type p θ)
    (hf : ∀ r θ, Honest rt k wid type (f r) θ) : Honest rt k wid type (p.attempt >>= f) θ :=
  within_bind (within_attempt (within_mono (fun r _ θ _ => hf r θ) hp))

end Rules

/-! ### The session of an admitted run -/

section Sessions
variable {o : Operation} {l c : Workload}

theorem Serves.assign {θ : OpState} (h : Serves wid type θ o l c) (e : Edit) (hid : ∀ w, (e.workload w).id = w.id) :
    Serves wid type (θ.assign e) o l (e.workload c) := by
  have he : OpEffect 0 (RunnerOp.assign e) θ .empty (θ.assign e) .empty := .assigned (Or.inr rfl)
  refine ⟨(effect_sound he h.sound).1, h.loaded, h.ofType, h.running, h.unannounced, h.before, ?_,
    h.same.1, (hid c).trans h.same.2⟩
  show θ.current.workload.map e.workload = _
  rw [h.after]
  rfl

theorem Serves.saved {θ : OpState} (h : Serves wid type θ o l c) : ∃ o', Serves wid type θ.saved o' c c := by
  have he : OpEffect 0 RunnerOp.commit θ .empty θ.saved (θ.flush .empty) := .saved
  obtain ⟨t, held⟩ := h.sound.held
  rw [h.loaded] at held
  cases t with
  | none =>
    exact ⟨o, (effect_sound he h.sound).1, held, h.ofType, h.running, h.unannounced, h.after, h.after, h.same.2,
      h.same.2⟩
  | some t =>
    exact ⟨{ o with heartbeatAt := some t }, (effect_sound he h.sound).1, held, h.ofType, h.running, h.unannounced,
      h.after, h.after, h.same.2, h.same.2⟩

theorem Serves.withTask {θ : OpState} (h : Serves wid type θ o l c) (t : PveTask) : Serves wid type (θ.withTask t) o l c :=
  ⟨⟨h.sound.held, h.sound.named⟩, h.loaded, h.ofType, h.running, h.unannounced, h.before, h.after, h.same⟩

/-- The session holds a task of its operation. -/
def Holding (θ : OpState) : Prop := ∃ t, θ.current.task = some t ∧ t.operationId = θ.operationId

theorem Holding.assign {θ : OpState} (h : Holding θ) (e : Edit)
    (hid : ∀ t, (e.task t).operationId = t.operationId) : Holding (θ.assign e) := by
  obtain ⟨t, ht, hown⟩ := h
  refine ⟨e.task t, ?_, (hid t).trans hown⟩
  show θ.current.task.map e.task = _
  rw [ht]
  rfl

/-- An assignment to the task keeps whose it is. -/
theorem ReadEnded.assign (h : ReadEnded θ) (e : Edit) (hid : ∀ t, (e.task t).operationId = t.operationId)
    (hupid : ∀ t, (e.task t).upid = t.upid) : ReadEnded (θ.1.assign e, θ.2) := by
  obtain ⟨t, ht, hown, status, hmem, hended⟩ := h
  refine ⟨e.task t, ?_, (hid t).trans hown, status, ?_, hended⟩
  · show θ.1.current.task.map e.task = _
    rw [ht]
    rfl
  · rw [hupid]
    exact hmem

theorem ReadEnded.hears (h : ReadEnded θ) (more : List Heard) : ReadEnded (θ.1, θ.2 ++ more) := by
  obtain ⟨t, ht, hown, status, hmem, hended⟩ := h
  exact ⟨t, ht, hown, status, List.mem_append_left _ hmem, hended⟩

end Sessions

/-! ### The power runner -/

section Programs
open PowerRunner

theorem honest_fail (code : String) (withTask : Bool) : Honest rt k wid type (fail code withTask) θ := by
  apply honest_now
  intro time
  exact honest_failed OperationStatus.failed_ne rfl

theorem honest_timeOut : Honest rt k wid type timeOut θ := by
  apply honest_assign
  apply honest_now
  intro time
  exact honest_failed nofun rfl

theorem honest_finishFromError (e : AppError) (submission withTask : Bool) :
    Honest rt k wid type (finishFromError e submission withTask) θ := by
  apply honest_now
  intro time
  split
  · exact honest_failed OperationStatus.timeout_ne rfl
  · exact honest_failed OperationStatus.failed_ne rfl

theorem honest_safeGuestStatus {client : Except AppError Unit} {workload : Workload} {f : Option Dict → OpProg α}
    (hnone : ∀ θ, Honest rt k wid type (f none) θ)
    (hsome : ∀ status, Honest rt k wid type (f (some status)) (θ.1, θ.2 ++ [.guest status])) :
    Honest rt k wid type (safeGuestStatus client workload >>= f) θ := by
  unfold safeGuestStatus
  rw [bind_assoc]
  apply honest_call
  · intro e
    cases e with
    | app error =>
      dsimp only
      rw [bind_assoc]
      apply honest_bind (honest_finishFromError _ _ _)
      intro _ θ
      exact hnone θ
    | _ => trivial
  · intro status
    exact hsome status

/-- A task that stopped with `OK`: the guest is looked at once more. -/
theorem honest_settle {o : Operation} {l c : Workload} {a : PowerAction} (client : Except AppError Unit)
    (workload : Workload) (h : Serves wid (.power a) θ.1 o l c) (hended : ReadEnded θ) :
    Honest rt k wid (.power a) (settle rt client workload a) θ := by
  apply honest_safeGuestStatus
  · intro θ
    trivial
  · intro status
    apply honest_now
    intro observed
    apply honest_assign
    apply honest_now
    intro time
    dsimp only
    have haim : (if a = .shutdown ∨ a = .stop then "STOPPED" else "RUNNING") = aim a := rfl
    rw [haim]
    by_cases hstate : rt.upper (rt.strOf status "status" "unknown") = aim a
    · rw [if_neg (not_not.mpr hstate)]
      apply honest_finish
      · exact fun hs => absurd rfl hs
      · intro _
        refine ⟨o, l, _, h.assign _ fun _ => rfl, hstate, ⟨status, lastGuest_append _ _, hstate⟩, ?_, Or.inr ⟨?_, ?_⟩⟩
        · rw [hstate]
          exact Dict.get?_set_self _ _ _
        · show Dict.get? (Dict.set (Dict.set o.result "no_op" (.bool false)) "final_power_state" _) "no_op" = _
          rw [Dict.get?_set_of_ne _ _ (by decide)]
          exact Dict.get?_set_self _ _ _
        · exact (hended.hears [.guest status]).assign _ (fun _ => rfl) fun _ => rfl
    · rw [if_pos hstate]
      exact honest_failed OperationStatus.failed_ne rfl

/-- What a poll of the task has read, once it says that the task ended well. -/
theorem readEnded_of_poll {t : PveTask} {status : Dict} (ht : θ.1.current.task = some t)
    (hown : t.operationId = θ.1.operationId) (hstatus : status.get? "status" = some (.str "stopped"))
    (hexit : status.get? "exitstatus" = some (.str "OK")) : ReadEnded (θ.1, θ.2 ++ [.task t.upid status]) :=
  ⟨t, ht, hown, status, List.mem_append_right _ (List.mem_singleton_self _), hstatus, hexit⟩

theorem honest_poll {a : PowerAction} (client : Except AppError Unit) (workload : Workload) (deadline : Instant)
    (n : Nat) (θ : Told) (h : ∃ o l c, Serves wid (.power a) θ.1 o l c) (htask : Holding θ.1) :
    Honest rt k wid (.power a) (poll rt client workload a deadline n) θ := by
  induction n generalizing θ with
  | zero => exact honest_timeOut
  | succ n ih =>
    obtain ⟨o, l, c, hserves⟩ := h
    apply honest_now
    intro time
    split
    · exact honest_timeOut
    · apply honest_now
      intro polled
      apply honest_assign
      have hserves := hserves.assign
        { heartbeatAt := some polled
          task := fun t => { t with pollAttempts := t.pollAttempts + 1, lastPolledAt := some polled } } fun _ => rfl
      have htask := htask.assign
        { heartbeatAt := some polled
          task := fun t => { t with pollAttempts := t.pollAttempts + 1, lastPolledAt := some polled } } fun _ => rfl
      generalize θ.1.assign _ = θ₁ at hserves htask ⊢
      apply honest_session
      apply honest_row
      intro task hrow
      obtain ⟨t, ht, hown⟩ := id htask
      have hsame : t = task := Option.some.inj (ht.symm.trans hrow)
      subst hsame
      apply honest_call
      · intro e
        cases e with
        | app error =>
          dsimp only
          split
          · apply honest_commit
            obtain ⟨o', hsaved⟩ := hserves.saved
            exact ih _ ⟨o', c, c, hsaved⟩ htask
          · apply honest_assign
            exact honest_finishFromError _ _ _
        | _ => trivial
      · intro status
        show Honest rt k wid (.power a) _ (θ₁, θ.2 ++ [.task t.upid status])
        dsimp only
        split
        · apply honest_commit
          obtain ⟨o', hsaved⟩ := hserves.saved
          exact ih _ ⟨o', c, c, hsaved⟩ htask
        · split
          · apply honest_assign
            exact honest_fail _ _
          · next hstopped =>
            apply honest_now
            intro completed
            apply honest_assign
            dsimp only
            split
            · apply honest_assign
              exact honest_fail _ _
            · next hexit =>
              have hended : ReadEnded (θ₁, θ.2 ++ [.task t.upid status]) :=
                readEnded_of_poll (θ := (θ₁, θ.2)) ht hown (not_not.mp hstopped) (not_not.mp hexit)
              apply honest_assign
              apply honest_settle
              · exact (hserves.assign _ fun _ => rfl).assign _ fun _ => rfl
              · exact (hended.assign _ (fun _ => rfl) fun _ => rfl).assign _ (fun _ => rfl) fun _ => rfl

theorem honest_runPoll {a : PowerAction} (client : Except AppError Unit) (workload : Workload) {θ : Told}
    (h : ∃ o l c, Serves wid (.power a) θ.1 o l c) (htask : Holding θ.1) :
    Honest rt k wid (.power a) (runPoll rt client workload a) θ := by
  apply honest_session
  apply honest_row
  intro task _
  apply honest_now
  intro time
  exact honest_poll client workload _ _ θ h htask

theorem honest_openClient {workload : Workload} {f : Except AppError Unit → OpProg α}
    (h : ∀ client, Honest rt k wid type (f client) θ) : Honest rt k wid type (openClient workload >>= f) θ := by
  unfold openClient
  rw [bind_assoc]
  apply honest_still rfl (fun _ => rfl)
  intro cluster
  rw [bind_assoc]
  apply honest_still rfl (fun _ => rfl)
  intro credential
  split
  · split
    · apply honest_still rfl (fun _ => rfl)
      exact h
    · exact h _
  · exact h _

/-- A submission tells nothing of a guest. -/
theorem honest_submit {client : Except AppError Unit} {workload : Workload} {action : PowerAction}
    {f : Option String → OpProg α} (hnone : ∀ θ, Honest rt k wid type (f none) θ)
    (hsome : ∀ upid, Honest rt k wid type (f (some upid)) θ) (n : Nat) :
    Honest rt k wid type (submit client workload action n >>= f) θ := by
  induction n with
  | zero => exact hnone θ
  | succ n ih =>
    unfold submit
    rw [bind_assoc]
    apply honest_call
    · intro e
      cases e with
      | app error =>
        dsimp only
        split
        · exact ih
        · rw [bind_assoc]
          apply honest_bind (honest_finishFromError _ _ _)
          intro _ θ
          exact hnone θ
      | _ => trivial
    · intro upid
      rw [show heard (RunnerOp.call (.submitGuestPowerAction workload.kind workload.node workload.vmid action))
        (.ok upid) = [] from rfl, List.append_nil]
      exact hsome upid

/-- A no-op is a success only of an action that the guest's state already is the aim of. -/
theorem noOpResult_some {a : PowerAction} {status noOp : Dict} (hcase : Cased rt)
    (h : noOpResult rt a status = .ok (some noOp)) :
    rt.upper (rt.strOf status "status" "unknown") = aim a ∧ a ≠ .reboot ∧ a ≠ .reset ∧
      ∀ r : Dict, (r.merge noOp).get? "final_power_state" = some (.str (aim a)) ∧
        (r.merge noOp).get? "no_op" = some (.bool true) := by
  have merged (r : Dict) (message state : String) :
      (r.merge [("no_op", .bool true), ("message", .str message), ("final_power_state", .str state)]).get?
        "final_power_state" = some (.str state) ∧
      (r.merge [("no_op", .bool true), ("message", .str message), ("final_power_state", .str state)]).get?
        "no_op" = some (.bool true) := by
    constructor
    · exact Dict.get?_set_self _ _ _
    · show Dict.get? (Dict.set (Dict.set (Dict.set r "no_op" (.bool true)) "message" _) "final_power_state" _) "no_op" = _
      rw [Dict.get?_set_of_ne _ _ (by decide), Dict.get?_set_of_ne _ _ (by decide)]
      exact Dict.get?_set_self _ _ _
  cases a with
  | start =>
    simp only [noOpResult] at h
    split at h
    · next hstate =>
      cases h
      exact ⟨hcase.running _ hstate, nofun, nofun, fun r => merged r _ _⟩
    · cases h
  | shutdown | stop =>
    simp only [noOpResult] at h
    split at h
    · next hstate =>
      cases h
      exact ⟨hcase.stopped _ hstate, nofun, nofun, fun r => merged r _ _⟩
    · cases h
  | reboot | reset =>
    simp only [noOpResult] at h
    split at h
    · cases h
    · cases h

theorem honest_runAction {a : PowerAction} {o : Operation} {l c : Workload} (hcase : Cased rt) (recovering : Bool)
    (workload : Workload) (operationId : Uuid) (h : Serves wid (.power a) θ.1 o l c)
    (hid : operationId = θ.1.operationId)
    (htask : ∀ t, θ.1.current.task = some t → t.operationId = θ.1.operationId) :
    Honest rt k wid (.power a) (runAction rt recovering workload operationId a) θ := by
  apply honest_openClient
  intro client
  apply honest_session
  split
  · next t ht => exact honest_runPoll client workload ⟨o, l, c, h⟩ ⟨t, ht, htask t ht⟩
  · apply honest_safeGuestStatus
    · intro θ
      trivial
    · intro current
      dsimp only
      split
      · exact honest_finishFromError _ _ _
      · next noOp hno =>
        obtain ⟨hstate, hreboot, hreset, hresult⟩ := noOpResult_some hcase hno
        apply honest_now
        intro observed
        apply honest_assign
        apply honest_now
        intro time
        apply honest_finish
        · exact fun hs => absurd rfl hs
        · intro _
          exact ⟨o, l, _, h.assign _ fun _ => rfl, hstate, ⟨current, lastGuest_append _ _, hstate⟩,
            (hresult _).1, Or.inl ⟨(hresult _).2, hreboot, hreset⟩⟩
      · split
        · exact honest_fail _ _
        · apply honest_submit
          · intro θ
            trivial
          · intro upid
            apply honest_still rfl (fun _ => rfl)
            intro id
            apply honest_now
            intro submitted
            apply honest_now
            intro beaten
            apply honest_assign
            apply honest_addTask
            apply honest_runPoll
            · obtain ⟨o', hsaved⟩ := ((h.assign { heartbeatAt := some beaten } fun _ => rfl).withTask _).saved
              exact ⟨o', _, _, hsaved⟩
            · exact ⟨_, rfl, hid⟩

/-! ### Deletions -/

theorem honest_pollDelete {o : Operation} (client : Except AppError Unit) (n : Nat) (θ : Told) {l c : Workload}
    (h : Serves wid .vmDelete θ.1 o l c) (hl : l.isPresent = true) (hc : c.isPresent = true) (htask : Holding θ.1) :
    Honest rt k wid .vmDelete (pollDelete rt client n) θ := by
  induction n generalizing θ o l c with
  | zero =>
    apply honest_assign
    apply honest_now
    intro time
    exact honest_failed nofun rfl
  | succ n ih =>
    apply honest_now
    intro polled
    apply honest_assign
    have hserves := h.assign
      { task := fun t => { t with pollAttempts := t.pollAttempts + 1, lastPolledAt := some polled } } fun _ => rfl
    have htask := htask.assign
      { task := fun t => { t with pollAttempts := t.pollAttempts + 1, lastPolledAt := some polled } } fun _ => rfl
    generalize θ.1.assign _ = θ₁ at hserves htask ⊢
    apply honest_session
    apply honest_row
    intro task hrow
    obtain ⟨t, ht, hown⟩ := id htask
    have hsame : t = task := Option.some.inj (ht.symm.trans hrow)
    subst hsame
    apply honest_called
    intro status
    show Honest rt k wid .vmDelete _ (θ₁, θ.2 ++ [.task t.upid status])
    split
    · apply honest_commit
      obtain ⟨o', hsaved⟩ := hserves.saved
      exact ih _ hsaved hc hc htask
    · apply honest_now
      intro completed
      apply honest_assign
      split
      · apply honest_assign
        exact honest_fail _ _
      · next hended =>
        rw [not_or, not_not, not_not] at hended
        have hread : ReadEnded (θ₁, θ.2 ++ [.task t.upid status]) :=
          readEnded_of_poll (θ := (θ₁, θ.2)) ht hown hended.1 hended.2
        apply honest_now
        intro observed
        apply honest_assign
        apply honest_now
        intro time
        apply honest_finish
        · exact fun hs => absurd rfl hs
        · intro _
          refine ⟨o, l, _, (hserves.assign _ fun _ => rfl).assign _ fun _ => rfl, ?_, hl, rfl⟩
          exact (hread.assign _ (fun _ => rfl) fun _ => rfl).assign _ (fun _ => rfl) fun _ => rfl

theorem honest_adminBody {o : Operation} {l c : Workload} (client : Except AppError Unit) (workload : Workload)
    (operation : Operation) (h : Serves wid .vmDelete θ.1 o l c) (hc : c.isPresent = true)
    (hid : operation.id = θ.1.operationId) :
    Honest rt k wid .vmDelete (adminBody rt client workload operation .delete) θ := by
  apply honest_called
  intro current
  split
  · trivial
  · apply honest_called
    intro upid
    apply honest_now
    intro submitted
    apply honest_still rfl (fun _ => rfl)
    intro id
    apply honest_addTask
    obtain ⟨o', hsaved⟩ := (h.withTask _).saved
    exact honest_pollDelete client _ _ hsaved hc hc ⟨_, rfl, hid⟩

theorem honest_runAdminAction {o : Operation} {l c : Workload} (operation : Operation)
    (h : Serves wid .vmDelete θ.1 o l c) (hc : c.isPresent = true) (hid : operation.id = θ.1.operationId) :
    Honest rt k wid .vmDelete (runAdminAction rt operation .delete) θ := by
  apply honest_session
  apply honest_row
  intro workload _
  apply honest_openClient
  intro client
  apply honest_attempt (honest_adminBody client workload operation h hc hid)
  intro r θ
  cases r with
  | ok _ => trivial
  | error e =>
    cases e with
    | app error => exact honest_finishFromError _ _ _
    | _ => trivial

/-! ### Admission -/

theorem taskOf_owned {db : Db} {id : Uuid} {t : PveTask} (h : taskOf db id = some t) : t.operationId = id := by
  obtain ⟨-, hp⟩ := Table.first_some h
  exact beq_iff_eq.mp hp

/-- A run that has been admitted has loaded the row as it is, and set it `RUNNING`. -/
theorem enter_started {i : Input} {θ θ' : OpState} {w w' : World} {r : Admission}
    (h : enter rt i θ w = (θ', w', .ok r)) (hr : r ≠ .ended) :
    ∃ s o, Loads θ w.db s o ∧ θ' = ((θ.load s).started w.clock).saved := by
  rcases enter_cases rt i w with hnone | ⟨s, o, loads, hcases⟩
  · rw [h] at hnone
    cases hnone
    exact absurd rfl hr
  · rcases hcases with hended | ⟨a, hstart⟩ | ⟨code, hrefuse⟩
    · rw [h] at hended
      cases hended
      exact absurd rfl hr
    · rw [h] at hstart
      obtain ⟨-, rfl, -⟩ := commitStart_ok hstart.symm
      exact ⟨s, o, loads, rfl⟩
    · rw [h] at hrefuse
      exact absurd (refuse_ok hrefuse.symm) hr

/-- An administrative run is admitted for a workload that is there. -/
theorem enter_present {i : Input} {θ θ' : OpState} {w w' : World} (hkind : θ.kind = .power)
    (h : enter rt i θ w = (θ', w', .ok .admin)) :
    ∃ wl, θ'.current.workload = some wl ∧ wl.isPresent = true := by
  unfold enter at h
  simp only [hkind] at h
  unfold admitPower at h
  split at h
  · cases h
  · split at h
    · cases h
    · next o _ _ =>
      dsimp only at h
      split at h
      · unfold admitAdmin at h
        split at h
        · cases refuse_ok h
        · next wl hwl =>
          split at h
          · cases refuse_ok h
          · next hthere =>
            split at h
            · obtain ⟨-, rfl, -⟩ := commitStart_ok h
              refine ⟨wl, hwl, ?_⟩
              simp only [Bool.or_eq_true, Bool.not_eq_true', not_or, Bool.not_eq_false] at hthere
              exact hthere.1
            · cases refuse_ok h
      · unfold admitPowerAction at h
        split at h
        · cases refuse_ok h
        · split at h
          · cases refuse_ok h
          · split at h
            · dsimp only at h
              split at h
              · cases h
              · obtain ⟨hr, -, -⟩ := commitStart_ok h
                cases hr
            · cases refuse_ok h

theorem serves_started {s : OpSession} {o : Operation} {θ : OpState} {w : World} {wl : Workload}
    (hk : θ.operationId = k) (hs : θ.Sound) (ht : Tracked k wid type w.db) (loads : Loads θ w.db s o)
    (hwl : s.workload = some wl) :
    Serves wid type ((θ.load s).started w.clock).saved (startedOperation w.clock o) wl wl := by
  have he : OpEffect w.clock RunnerOp.enter θ w.db ((θ.load s).started w.clock).saved
      (((θ.load s).started w.clock).flush w.db) := .started rfl loads
  have hfound : w.db.operations.get? k = some o := by rw [← hk, ← loads.named, loads.found]
  have hrow : s.operation.map (startedOperation w.clock) = some (startedOperation w.clock o) := by
    rw [loads.row]
    rfl
  have hid : wl.id = wid := by
    rw [← ht.ofWorkload o hfound]
    exact Table.get?_key (loads.workload wl hwl)
  exact ⟨(effect_sound he hs).1, hrow, ht.ofType o hfound, rfl, ht.unannounced o hfound loads.unfinished, hwl, hwl,
    hid, hid⟩

/-- The action of an operation goes with its type. -/
theorem Serves.action {θ : OpState} {o : Operation} {l c : Workload} (h : Serves wid type θ o l c)
    {q : Operation} (hq : θ.current.operation = some q) : q.action = type.action ∧ q.id = θ.operationId := by
  obtain ⟨t, held⟩ := h.sound.held
  refine ⟨?_, h.sound.current_named hq⟩
  rw [h.loaded, hq] at held
  obtain rfl := Option.some.inj held
  rw [(beat t o).consistent, beat_operationType, h.ofType]

/-- **A delivery** of a power action or a deletion reaches no success that is not proven. -/
theorem honest_power (hcase : Cased rt) (htype : (∃ a, type = .power a) ∨ type = .vmDelete) :
    Honest rt k wid type (PowerRunner.run rt) ({ kind := .power, operationId := k }, []) := by
  apply honest_node (allowed_plain rfl)
  intro i w θ' w' r ht hexec
  have hentered : enter rt i { kind := .power, operationId := k } w = (θ', w', r) := Option.some.inj hexec
  have hs : OpState.Sound { kind := .power, operationId := k } := sound_start _ _
  cases r with
  | error e => trivial
  | ok r =>
    rw [show heard RunnerOp.enter (.ok r) = [] from rfl, List.append_nil]
    cases r with
    | ended => trivial
    | admin =>
      obtain ⟨s, o, loads, rfl⟩ := enter_started hentered nofun
      obtain ⟨wl, hwl, hthere⟩ := enter_present rfl hentered
      have hserves := serves_started rfl hs ht loads hwl
      apply honest_session
      apply honest_row
      intro operation hrow
      obtain ⟨haction, hid⟩ := hserves.action hrow
      rw [haction]
      rcases htype with ⟨a, rfl⟩ | rfl
      · trivial
      · exact honest_runAdminAction operation hserves hthere hid
    | proceed recovering =>
      obtain ⟨s, o, loads, rfl⟩ := enter_started hentered nofun
      apply honest_session
      apply honest_row
      intro operation hrow
      split
      · next action hoperation =>
        apply honest_session
        apply honest_row
        intro workload hwl
        have hserves := serves_started rfl hs ht loads hwl
        obtain ⟨haction, hid⟩ := hserves.action hrow
        rcases htype with ⟨a, rfl⟩ | rfl
        · rw [haction] at hoperation
          cases hoperation
          apply honest_runAction hcase recovering workload operation.id hserves hid
          intro t htask
          rw [taskOf_owned (loads.task t htask), loads.named]
          rfl
        · rw [haction] at hoperation
          cases hoperation
      · trivial

/-- A delivery to another runner goes no further. -/
theorem honest_foreign {kind : RunnerKind} (hkind : kind ≠ .power) (htype : type.runner = .power)
    {f : Admission → OpProg Unit} (hf : f .ended = pure ()) :
    Honest rt k wid type (perform .enter >>= f) ({ kind := kind, operationId := k }, []) := by
  apply honest_node (allowed_plain rfl)
  intro i w θ' w' r ht hexec
  have hentered : enter rt i { kind := kind, operationId := k } w = (θ', w', r) := Option.some.inj hexec
  cases r with
  | error e => trivial
  | ok r =>
    by_cases hr : r = .ended
    · subst hr
      show Honest rt k wid type (f .ended) _
      rw [hf]
      trivial
    · obtain ⟨s, o, loads, -⟩ := enter_started hentered hr
      have hfound : w.db.operations.get? k = some o := by
        have hnamed : o.id = k := loads.named
        rw [← hnamed, loads.found]
      have haccepts := loads.accepts
      rw [ht.ofType o hfound] at haccepts
      cases kind with
      | power => exact absurd rfl hkind
      | backup =>
        have hbackup : type = .workloadBackup := haccepts
        rw [hbackup] at htype
        cases htype
      | restore =>
        have hrestore : type = .workloadRestore := haccepts
        rw [hrestore] at htype
        cases htype

theorem honest_program (hcase : Cased rt) (htype : (∃ a, type = .power a) ∨ type = .vmDelete) (kind : RunnerKind) :
    Honest rt k wid type (OpMessage.program rt ⟨kind, k⟩) ({ kind := kind, operationId := k }, []) := by
  have hrunner : type.runner = .power := by
    rcases htype with ⟨a, rfl⟩ | rfl
    · rfl
    · rfl
  cases kind with
  | power => exact honest_power hcase htype
  | backup =>
    show Honest rt k wid type (BackupRunner.run rt) _
    unfold BackupRunner.run
    exact honest_foreign (fun h => by cases h) hrunner rfl
  | restore =>
    show Honest rt k wid type (RestoreRunner.run rt) _
    unfold RestoreRunner.run
    exact honest_foreign (fun h => by cases h) hrunner rfl

end Programs

/-! ### What becomes of the row -/

section Rows
variable {now : Instant} {op : RunnerOp ρ} {θ θ' : OpState} {db db' : Db} {q : Operation}

/-- What an effect makes of the operation's row: of its status and of its result. A `_finish`
writes those columns that differ from what the session had loaded. -/
inductive RowChange (op : RunnerOp ρ) (θ : OpState) (db db' : Db) (q q' : Operation) : Prop
  | kept (status : q'.status = q.status) (result : q'.result = q.result)
  | started (unfinished : q.status.terminal = false) (status : q'.status = .running) (result : q'.result = q.result)
  | refused (status : q'.status = .failed) (result : q'.result = q.result)
  | finished {f : Finish} {l : Operation} (h : op.finishWith = some f) (own : θ.operationId = q.id)
      (row : θ.loaded.operation = some l) (status : q'.status = written l.status f.status q.status)
      (result : q'.result = written l.result (f.result l.result) q.result) (committed : db' = finishedDb θ f db)

/-- A flush of a loaded row, and of any other. -/
theorem flush_changes (hs : θ.Sound) {g : Operation → Operation} (θ₁ : OpState) (hloaded : θ₁.loaded = θ.loaded)
    (hcurrent : θ₁.current.operation = θ.current.operation.map g)
    (hq : db.operations.get? k = some q) : ∃ q', (θ₁.flush db).operations.get? k = some q' ∧
      q'.operationType = q.operationType ∧ q'.workloadId = q.workloadId ∧
        (q' = q ∨ ∃ l t, θ.loaded.operation = some l ∧ θ.operationId = q.id ∧
          q' = Operation.merge l (g (beat t l)) q) := by
  obtain ⟨t, held⟩ := hs.held
  have hflush := flush_operation θ₁ db k
  have hid : q.id = k := Table.get?_key hq
  rw [hloaded, hcurrent, held] at hflush
  cases hl : θ.loaded.operation with
  | none =>
    rw [hl] at hflush
    exact ⟨q, hflush.trans hq, rfl, rfl, Or.inl rfl⟩
  | some l =>
    rw [hl] at hflush
    simp only [Option.map_some] at hflush
    by_cases hk : l.id = k
    · rw [if_pos hk, hq] at hflush
      exact ⟨_, hflush, rfl, rfl, Or.inr ⟨l, t, rfl, (hs.named l hl).symm.trans (hk.trans hid.symm), rfl⟩⟩
    · rw [if_neg hk] at hflush
      exact ⟨q, hflush.trans hq, rfl, rfl, Or.inl rfl⟩

/-- **What an effect does to the row**, in its status and result. -/
theorem effect_changes (he : OpEffect now op θ db θ' db') (hs : θ.Sound) (hq : db.operations.get? k = some q) :
    ∃ q', db'.operations.get? k = some q' ∧ q'.operationType = q.operationType ∧ q'.workloadId = q.workloadId ∧
      RowChange op θ db db' q q' := by
  have same : ∃ q', db.operations.get? k = some q' ∧ q'.operationType = q.operationType ∧
      q'.workloadId = q.workloadId ∧ RowChange op θ db db q q' := ⟨q, hq, rfl, rfl, .kept rfl rfl⟩
  have beaten : ∃ q', (θ.flush db).operations.get? k = some q' ∧ q'.operationType = q.operationType ∧
      q'.workloadId = q.workloadId ∧ ∀ db', RowChange op θ db db' q q' := by
    have hid : θ.current.operation = θ.current.operation.map id := by rw [Option.map_id, id_eq]
    obtain ⟨q', hq', htype, hworkload, rfl | ⟨l, t, -, -, rfl⟩⟩ := flush_changes hs θ rfl hid hq
    · exact ⟨q', hq', htype, hworkload, fun _ => .kept rfl rfl⟩
    · obtain ⟨h, hmerge⟩ := merge_beat t l q
      exact ⟨_, hq', htype, hworkload, fun _ => .kept (by rw [id_eq, hmerge]) (by rw [id_eq, hmerge])⟩
  -- the row that an admission has loaded
  have fresh {s : OpSession} {o l : Operation} (loads : Loads θ db s o) (hl : (θ.load s).loaded.operation = some l)
      (hown : (θ.load s).operationId = q.id) : l = q := by
    have hrow : s.operation = some l := hl
    rw [loads.row] at hrow
    cases hrow
    have hk : o.id = k := by
      rw [loads.named]
      exact hown.trans (Table.get?_key hq)
    have hfound := loads.found
    rw [hk, hq] at hfound
    exact (Option.some.inj hfound).symm
  cases he with
  | assigned | rolledBack | loaded => exact same
  | saved | submitted =>
    obtain ⟨q', hq', htype, hworkload, hchange⟩ := beaten
    exact ⟨q', hq', htype, hworkload, hchange _⟩
  | @finished f hf =>
    obtain ⟨q', hq', htype, hworkload, rfl | ⟨l, t, hl, hown, rfl⟩⟩ :=
      flush_changes hs (θ.finished f) rfl rfl hq
    · exact ⟨q', hq', htype, hworkload, .kept rfl rfl⟩
    · refine ⟨_, hq', htype, hworkload, .finished hf hown hl rfl ?_ rfl⟩
      show written l.result (f.result (beat t l).result) q.result = _
      cases t <;> rfl
  | @started enters s o loads =>
    obtain ⟨q', hq', htype, hworkload, rfl | ⟨l, t, hl, hown, rfl⟩⟩ :=
      flush_changes loads.load_sound ((θ.load s).started now) rfl rfl hq
    · exact ⟨q', hq', htype, hworkload, .kept rfl rfl⟩
    · obtain rfl := fresh loads hl hown
      have hunfinished : l.status.terminal = false := by
        have hrow : s.operation = some l := hl
        rw [loads.row] at hrow
        cases hrow
        exact loads.unfinished
      refine ⟨_, hq', htype, hworkload, .started hunfinished (written_fresh _ _) ?_⟩
      show written l.result (startedOperation now (beat t l)).result l.result = l.result
      rw [written_fresh]
      cases t <;> rfl
  | @refused enters s o loads f failed plain =>
    obtain ⟨q', hq', htype, hworkload, rfl | ⟨l, t, hl, hown, rfl⟩⟩ :=
      flush_changes loads.load_sound ((θ.load s).finished f) rfl rfl hq
    · exact ⟨q', hq', htype, hworkload, .kept rfl rfl⟩
    · obtain rfl := fresh loads hl hown
      refine ⟨_, hq', htype, hworkload, .refused ?_ ?_⟩
      · show written l.status f.status l.status = .failed
        rw [written_fresh, failed]
      · show written l.result (f.result (beat t l).result) l.result = l.result
        rw [written_fresh, plain]
        cases t <;> rfl

/-- No effect adds a row. -/
theorem effect_absent (he : OpEffect now op θ db θ' db') (hs : θ.Sound) (hq : db.operations.get? k = none) :
    db'.operations.get? k = none := by
  obtain ⟨g, hg, -⟩ := effect_row he hs k
  rw [hg, hq]
  rfl

/-- What a flush makes of the workloads. -/
theorem flush_workloads (θ : OpState) (db : Db) (id : Uuid) : (θ.flush db).workloads.get? id =
    (db.workloads.get? id).map (flushed Workload.merge θ.loaded.workload θ.current.workload) :=
  get?_flushRow (f := Workload.merge) (fun _ _ _ => rfl) id

theorem effect_placed (he : OpEffect now op θ db θ' db') {id : Uuid} (h : ∃ wl, db.workloads.get? id = some wl) :
    ∃ wl, db'.workloads.get? id = some wl := by
  obtain ⟨wl, hwl⟩ := h
  have flushed (θ : OpState) : ∃ wl, (θ.flush db).workloads.get? id = some wl := by
    rw [flush_workloads, hwl]
    exact ⟨_, rfl⟩
  cases he with
  | assigned | rolledBack | loaded => exact ⟨wl, hwl⟩
  | saved => exact flushed θ
  | submitted => exact flushed θ
  | @finished f => exact flushed (θ.finished f)
  | @started _ s => exact flushed ((θ.load s).started now)
  | @refused _ s _ _ f => exact flushed ((θ.load s).finished f)

end Rows

/-! ### Runs -/

abbrev HearingSys := Sys Exn RunnerOp Told World

/-- The flush of this session leaves the power state out, which others have changed since. -/
def unwritten (θ : OpState) (db : Db) : Bool :=
  match θ.loaded.workload, θ.current.workload with
  | some l, some c => c.powerState == l.powerState && (db.workloads.get? l.id).any (·.powerState != l.powerState)
  | _, _ => false

/-- A process is about to commit a success. -/
def succeeding : OpProg Unit → Bool
  | .node o _ => o.finishWith.any (·.status == .succeeded)
  | .done _ => false

/-- What the rest of the program may do to the operation: request it. -/
structure Outside (k wid : Uuid) (type : OperationType) (w w' : World) : Prop where
  row : ∀ q, w.db.operations.get? k = some q → ∃ q', w'.db.operations.get? k = some q' ∧
    q'.operationType = q.operationType ∧ q'.workloadId = q.workloadId ∧ q'.status = q.status ∧ q'.result = q.result
  requested : w.db.operations.get? k = none → ∀ q', w'.db.operations.get? k = some q' →
    q'.operationType = type ∧ q'.workloadId = wid ∧ q'.status = .queued ∧ q'.result.get? "final_power_state" = none
  placed : ∀ q', w'.db.operations.get? k = some q' → ∃ wl, w'.db.workloads.get? wid = some wl

/-- Every success of a power action writes the power state it has observed, or finds it there. -/
def recorded (k wid : Uuid) (type : OperationType) : Conditions Exn RunnerOp Told World Input OpMessage where
  step θ p _ w := succeeding p = true → θ.1.operationId = k → type ≠ .vmDelete → unwritten θ.1 w.db = false
  env w w' := Outside k wid type w w'

structure Local (rt : Runtime) (k wid : Uuid) (type : OperationType) (θ : Told) (p : OpProg Unit) : Prop where
  sound : θ.1.Sound
  honest : θ.1.operationId = k → Honest rt k wid type p θ

theorem Outside.tracked {w w' : World} (h : Outside k wid type w w') (ht : Tracked k wid type w.db) :
    Tracked k wid type w'.db := by
  have of_row (q' : Operation) (hq' : w'.db.operations.get? k = some q') : q'.operationType = type ∧
      q'.workloadId = wid ∧ (q'.status.terminal = false → q'.result.get? "final_power_state" = none) := by
    cases hq : w.db.operations.get? k with
    | none =>
      obtain ⟨htype, hworkload, -, hresult⟩ := h.requested hq q' hq'
      exact ⟨htype, hworkload, fun _ => hresult⟩
    | some q =>
      obtain ⟨q₁, hq₁, htype, hworkload, hstatus, hresult⟩ := h.row q hq
      rw [hq'] at hq₁
      cases hq₁
      rw [htype, hworkload, hstatus, hresult]
      exact ⟨ht.ofType q hq, ht.ofWorkload q hq, ht.unannounced q hq⟩
  exact ⟨fun o ho => (of_row o ho).1, fun o ho => (of_row o ho).2.1, h.placed, fun o ho => (of_row o ho).2.2⟩

/-- What an operation makes of the row, in a process that is honest. -/
inductive Verdict (rt : Runtime) (k wid : Uuid) (type : OperationType) (o : RunnerOp ρ) (θ : Told) (db db' : Db)
    (q q' : Operation) : Prop
  | kept (status : q'.status = q.status) (result : q'.result = q.result)
  | opened (unfinished : q.status.terminal = false) (status : q'.status = .running) (result : q'.result = q.result)
  | failed (terminal : q'.status.terminal = true) (status : q'.status ≠ .succeeded)
  | succeeded {f : Finish} {l : Operation} {wl c : Workload} (h : o.finishWith = some f) (won : f.status = .succeeded)
      (own : θ.1.operationId = k) (serves : Serves wid type θ.1 l wl c)
      (rests : Rests rt θ (f.result l.result) wl c type) (status : q'.status = .succeeded)
      (result : q'.result = written l.result (f.result l.result) q.result) (committed : db' = finishedDb θ.1 f db)

section Steps
variable {o : RunnerOp ρ} {kont : ρ → OpProg Unit} {i : Input} {θ' : OpState} {w w' : World} {r : ρ} {q : Operation}

theorem exec_verdict (hL : Local rt k wid type θ (.node o kont))
    (hexec : (opMachine rt).exec o i θ.1 w = some (θ', w', r)) (hq : w.db.operations.get? k = some q) :
    ∃ q', w'.db.operations.get? k = some q' ∧ q'.operationType = q.operationType ∧ q'.workloadId = q.workloadId ∧
      Verdict rt k wid type o θ w.db w'.db q q' := by
  obtain ⟨q', hq', htype, hworkload, hchange⟩ := effect_changes (exec_effect rt hexec) hL.sound hq
  refine ⟨q', hq', htype, hworkload, ?_⟩
  have hid : q.id = k := Table.get?_key hq
  cases hchange with
  | kept status result => exact .kept status result
  | started unfinished status result => exact .opened unfinished status result
  | refused status _ => exact .failed (by rw [status]; rfl) (by rw [status]; nofun)
  | @finished f l h own row status result committed =>
    rw [hid] at own
    obtain ⟨hfail, hproven⟩ := (hL.honest own).1 f h
    by_cases hs : f.status = .succeeded
    · obtain ⟨o', wl, c, hserves, hrests⟩ := hproven hs
      have hrow : l = o' := Option.some.inj (row.symm.trans hserves.loaded)
      subst hrow
      refine .succeeded h hs own hserves hrests ?_ result committed
      rw [status, hs]
      apply written_of_ne
      rw [hserves.running]
      nofun
    · rw [hfail hs, id_eq, written_unchanged] at result
      by_cases hsame : f.status = l.status
      · rw [hsame, written_unchanged] at status
        exact .kept status result
      · rw [written_of_ne _ hsame] at status
        exact .failed (by rw [status]; exact f.terminal) (by rw [status]; exact hs)

theorem exec_tracked (hL : Local rt k wid type θ (.node o kont)) (ht : Tracked k wid type w.db)
    (hexec : (opMachine rt).exec o i θ.1 w = some (θ', w', r)) : Tracked k wid type w'.db := by
  have he := exec_effect rt hexec
  have of_row (q' : Operation) (hq' : w'.db.operations.get? k = some q') : q'.operationType = type ∧
      q'.workloadId = wid ∧ (∃ wl, w'.db.workloads.get? wid = some wl) ∧
        (q'.status.terminal = false → q'.result.get? "final_power_state" = none) := by
    cases hq : w.db.operations.get? k with
    | none =>
      rw [effect_absent he hL.sound hq] at hq'
      cases hq'
    | some q =>
      obtain ⟨q₁, hq₁, htype, hworkload, hverdict⟩ := exec_verdict hL hexec hq
      rw [hq'] at hq₁
      cases hq₁
      refine ⟨htype.trans (ht.ofType q hq), hworkload.trans (ht.ofWorkload q hq), effect_placed he (ht.placed q hq),
        fun hopen => ?_⟩
      cases hverdict with
      | kept status result =>
        rw [status] at hopen
        rw [result]
        exact ht.unannounced q hq hopen
      | opened unfinished status result =>
        rw [result]
        exact ht.unannounced q hq unfinished
      | failed terminal status =>
        rw [terminal] at hopen
        cases hopen
      | succeeded h won own serves rests status result committed =>
        rw [status] at hopen
        cases hopen
  exact ⟨fun o ho => (of_row o ho).1, fun o ho => (of_row o ho).2.1, fun o ho => (of_row o ho).2.2.1,
    fun o ho => (of_row o ho).2.2.2⟩

end Steps

theorem protocol (hcase : Cased rt) (htype : (∃ a, type = .power a) ∨ type = .vmDelete) :
    Protocol (hearing rt) (recorded k wid type) (fun w => Tracked k wid type w.db)
      (fun θ p _ => Local rt k wid type θ p) (fun _ _ => True) where
  refl _ := trivial
  start m w _ _ := by
    refine ⟨sound_start m.task m.operationId, fun hk => ?_⟩
    have hk : m.operationId = k := hk
    subst hk
    exact honest_program hcase htype m.task
  step o kont i θ θ' w w' r ht hL _ hexec := by
    have hhonest := fun hk => (hL.honest hk).2 i w θ' w' r ht hexec
    obtain ⟨hexec, -⟩ := Machine.hearing_exec hexec
    obtain ⟨hsound, hid, -⟩ := effect_sound (exec_effect rt hexec) hL.sound
    refine ⟨exec_tracked hL ht hexec, trivial, hsound, fun hk => ?_⟩
    rw [hid] at hk
    obtain ⟨n', -, hnext⟩ := hhonest hk
    exact hnext
  drop _ _ w ht _ _ := ⟨ht, trivial⟩
  env w w' ht h := ⟨h.tracked ht, trivial⟩
  stable _ _ _ _ _ hL := hL

variable (rt)

/-- The system after a run of deliveries, with what each process has heard. -/
def after (w : World) (actions : List OpAction) : HearingSys :=
  runFrom (Sys.next (hearing rt)) (Sys.idle w) actions

/-- It is a run of the platform's: nothing depends on what the processes remember. -/
theorem after_forget (w : World) (actions : List OpAction) :
    (after rt w actions).forget = runFrom (Sys.next (opMachine rt)) (Sys.idle w) actions :=
  Sys.forget_run (opMachine rt) heard (Sys.idle w) actions

/-- What a success says, of the run that committed it and of the database it left. -/
def Truthful (type : OperationType) (θ : Told) (o : Operation) (db : Db) : Prop :=
  match type with
  | .power a =>
    o.result.get? "final_power_state" = some (.str (aim a)) ∧
      (∃ status, lastGuest θ.2 = some status ∧ rt.upper (rt.strOf status "status" "unknown") = aim a) ∧
      (∃ wl, db.workloads.get? o.workloadId = some wl ∧ wl.powerState = aim a) ∧
      (o.result.get? "no_op" = some (.bool true) ∧ a ≠ .reboot ∧ a ≠ .reset ∨
        o.result.get? "no_op" = some (.bool false) ∧ ReadEnded θ)
  | .vmDelete => ReadEnded θ ∧ ∃ wl, db.workloads.get? o.workloadId = some wl ∧ wl.isPresent = false
  | _ => True

/-- An operation that has succeeded at the end of a run was committed as such by one action, and
its result is the truth about the run that took it. -/
def TruthfulSuccess (k : Uuid) (type : OperationType) (w : World) (actions : List OpAction) : Prop :=
  ∀ o, (after rt w actions).shared.db.operations.get? k = some o → o.status = .succeeded →
    ∃ before pid i rest θ f kont, actions = before ++ .step pid i :: rest ∧
      (after rt w before).procs pid = some (θ, .node (.finish f) kont) ∧ f.status = .succeeded ∧
      θ.1.operationId = k ∧ Truthful rt type θ o (after rt w (before ++ [.step pid i])).shared.db

variable {rt}

/-- What is said of a row depends on its workload and its result. -/
theorem Truthful.of_row {θ : Told} {o o' : Operation} {db : Db} (h : Truthful rt type θ o db)
    (hworkload : o'.workloadId = o.workloadId) (hresult : o'.result = o.result) : Truthful rt type θ o' db := by
  unfold Truthful at h ⊢
  rw [hworkload, hresult]
  exact h

/-- A proven success that is committed tells the truth, once its power state is written. -/
theorem truthful_commit {θ : Told} {db : Db} {f : Finish} {l q q' : Operation} {wl c : Workload}
    (hserves : Serves wid type θ.1 l wl c) (hrests : Rests rt θ (f.result l.result) wl c type)
    (hworkload : q'.workloadId = wid) (hplaced : ∃ v, db.workloads.get? wid = some v)
    (hresult : q'.result = written l.result (f.result l.result) q.result)
    (hwritten : type ≠ .vmDelete → unwritten θ.1 db = false) :
    Truthful rt type θ q' (finishedDb θ.1 f db) := by
  obtain ⟨v, hv⟩ := hplaced
  have hrow : (finishedDb θ.1 f db).workloads.get? wid = some (Workload.merge wl c v) := by
    show ((θ.1.finished f).flush db).workloads.get? wid = _
    have hcurrent : (θ.1.finished f).current.workload = some c := hserves.after
    have hloaded : (θ.1.finished f).loaded.workload = some wl := hserves.before
    have hkey : Keyed.key wl = Keyed.key v := by
      have hid : v.id = wid := Table.get?_key hv
      exact hserves.same.1.trans hid.symm
    rw [flush_workloads, hv, hcurrent, hloaded]
    simp only [Option.map_some, flushed, if_pos hkey]
  unfold Truthful
  cases type with
  | power a =>
    obtain ⟨hstate, hlast, hfinal, hrest⟩ := hrests
    have hchanged : f.result l.result ≠ l.result := by
      intro hsame
      rw [hsame, hserves.unannounced] at hfinal
      cases hfinal
    rw [written_of_ne _ hchanged] at hresult
    dsimp only
    rw [hresult, hworkload]
    refine ⟨hfinal, hlast, ⟨_, hrow, ?_⟩, hrest⟩
    show written wl.powerState c.powerState v.powerState = aim a
    by_cases hsame : c.powerState = wl.powerState
    · have hkept := hwritten nofun
      unfold unwritten at hkept
      simp only [hserves.before, hserves.after, hserves.same.1, hv, hsame, beq_self_eq_true, Bool.true_and,
        Option.any_some, bne_eq_false_iff_eq] at hkept
      rw [hsame, written_unchanged, hkept, ← hsame]
      exact hstate
    · rw [written_of_ne _ hsame]
      exact hstate
  | vmDelete =>
    obtain ⟨hended, hthere, hgone⟩ := hrests
    refine ⟨hended, _, by rw [hworkload]; exact hrow, ?_⟩
    show written wl.isPresent c.isPresent v.isPresent = false
    rw [hthere, hgone]
    exact written_of_ne _ (by decide)
  | _ => trivial

/-- The operation's workload and result, as they are committed and as a client reads them. -/
def announced (s : HearingSys) (k : Uuid) : Option (Uuid × Dict) :=
  (s.shared.db.operations.get? k).map fun o => (o.workloadId, o.result)

/-- One action that commits a success, truthfully: the process behind it holds the proof, and the
row then says the same. -/
def Commits (rt : Runtime) (k : Uuid) (type : OperationType) (s : HearingSys) (a : OpAction) : Prop :=
  ∃ pid i θ f kont, a = .step pid i ∧ s.procs pid = some (θ, .node (.finish f) kont) ∧ f.status = .succeeded ∧
    θ.1.operationId = k ∧ ∃ o, (s.next (hearing rt) a).shared.db.operations.get? k = some o ∧
      Truthful rt type θ o (s.next (hearing rt) a).shared.db

def Succeeded (k : Uuid) (s : HearingSys) : Prop := statusOf s.shared.db k = some .succeeded

/-- The row is as it should be, and every process honest: the invariant of a run. -/
abbrev Holds (rt : Runtime) (k wid : Uuid) (type : OperationType) (s : HearingSys) : Prop :=
  s.Holds (fun w => Tracked k wid type w.db) (fun θ p _ => Local rt k wid type θ p)

/-- **One action**: a success was there before, or is committed truthfully. -/
theorem succeeded_next {s : HearingSys} {a : OpAction} (hs : Holds rt k wid type s)
    (ha : (recorded k wid type).Met s a) (h : Succeeded k (s.next (hearing rt) a)) :
    Succeeded k s ∧ announced s k = announced (s.next (hearing rt) a) k ∨ Commits rt k type s a := by
  have hdid := Sys.next_did (hearing rt) s a
  unfold Commits
  generalize Sys.next (hearing rt) s a = next at hdid h ⊢
  -- a row that is the same in what counts
  have same {q q' : Operation} (hq : s.shared.db.operations.get? k = some q)
      (hq' : next.shared.db.operations.get? k = some q') (hworkload : q'.workloadId = q.workloadId)
      (hstatus : q'.status = q.status) (hresult : q'.result = q.result) :
      Succeeded k s ∧ announced s k = announced next k := by
    unfold Succeeded statusOf at h ⊢
    unfold announced
    rw [hq'] at h ⊢
    rw [hq]
    simp only [Option.map_some] at h ⊢
    rw [hworkload, hresult, ← hstatus]
    exact ⟨h, rfl⟩
  cases hdid with
  | nothing => exact Or.inl ⟨h, rfl⟩
  | spawned => exact Or.inl ⟨h, rfl⟩
  | ended => exact Or.inl ⟨h, rfl⟩
  | changed f =>
    have hout : Outside k wid type s.shared (f s.shared) := ha
    left
    cases hq : s.shared.db.operations.get? k with
    | none =>
      obtain ⟨q', hq', hstatus⟩ := Option.map_eq_some_iff.mp h
      obtain ⟨-, -, hqueued, -⟩ := hout.requested hq q' hq'
      rw [hstatus] at hqueued
      cases hqueued
    | some q =>
      obtain ⟨q', hq', -, hworkload, hstatus, hresult⟩ := hout.row q hq
      exact same hq hq' hworkload hstatus hresult
  | @performed pid i θ θ' ρ o kont w' r hlive hexec =>
    simp only [Conditions.Met, hlive] at ha
    have hL := hs.each pid θ _ hlive
    have hbase := (Machine.hearing_exec hexec).1
    obtain ⟨q', hq', hstatus'⟩ := Option.map_eq_some_iff.mp h
    cases hq : s.shared.db.operations.get? k with
    | none =>
      have habsent := effect_absent (exec_effect rt hbase) hL.sound hq
      have hq' : w'.db.operations.get? k = some q' := hq'
      rw [habsent] at hq'
      cases hq'
    | some q =>
      obtain ⟨q₁, hq₁, -, hworkload, hverdict⟩ := exec_verdict hL hbase hq
      have hsame : q₁ = q' := Option.some.inj (hq₁.symm.trans hq')
      subst hsame
      cases hverdict with
      | kept status result => exact Or.inl (same hq hq₁ hworkload status result)
      | opened unfinished status result =>
        rw [hstatus'] at status
        cases status
      | failed terminal status => exact absurd hstatus' status
      | @succeeded f l wl c hf won own serves rests status result committed =>
        right
        cases o with
        | finish f' =>
          cases hf
          have hwritten : type ≠ .vmDelete → unwritten θ.1 s.shared.db = false := by
            intro hne
            apply ha _ own hne
            show (f.status == .succeeded) = true
            rw [won]
            rfl
          refine ⟨pid, i, θ, f, kont, rfl, hlive, won, own, q₁, hq₁, ?_⟩
          show Truthful rt type θ q₁ w'.db
          rw [committed]
          exact truthful_commit serves rests (hworkload.trans (hs.shared.ofWorkload q hq))
            (hs.shared.placed q hq) result hwritten
        | _ => cases hf

/-- **Success is truthful**: an operation that has succeeded was committed as such by one
delivery, which had read what the result says. -/
theorem success_truthful (hcase : Cased rt) (htype : (∃ a, type = .power a) ∨ type = .vmDelete) (w : World)
    (ht : Tracked k wid type w.db) (hw : statusOf w.db k ≠ some .succeeded) (actions : List OpAction)
    (hrun : Along (Sys.next (hearing rt)) (recorded k wid type).Met (Sys.idle w) actions) :
    TruthfulSuccess rt k type w actions := by
  intro o ho hsucceeded
  have hP : Protocol (hearing rt) (recorded k wid type) _ _ _ := protocol hcase htype
  have hkeeps (s : HearingSys) (a : OpAction) (hs : Holds rt k wid type s) (ha : (recorded k wid type).Met s a) :
      Holds rt k wid type (s.next (hearing rt) a) := (hP.holds_next hs ha).1
  have hidle : ¬ Succeeded k (Sys.idle w) := hw
  have hfinal : Succeeded k (runFrom (Sys.next (hearing rt)) (Sys.idle w) actions) := by
    unfold after at ho
    unfold Succeeded statusOf
    rw [ho, ← hsucceeded]
    rfl
  obtain ⟨before, a, rest, hactions, -, -, ⟨pid, i, θ, f, kont, rfl, hlive, won, own, q, hq, htruth⟩, hsince⟩ :=
    changed_at (R := fun s s' => announced s k = announced s' k) hkeeps (fun s a hs ha => succeeded_next hs ha)
      (fun _ => rfl) (fun _ _ _ h h' => h.trans h') (Sys.holds_idle ht) hidle hrun hfinal
  refine ⟨before, pid, i, rest, θ, f, kont, hactions, hlive, won, own, ?_⟩
  have hstep : after rt w (before ++ [.step pid i]) = (after rt w before).next (hearing rt) (.step pid i) := by
    unfold after
    rw [runFrom_append]
    rfl
  rw [hstep]
  have hrow : some (q.workloadId, q.result) = some (o.workloadId, o.result) := by
    unfold after at ho
    unfold announced at hsince
    rw [hq, ho] at hsince
    exact hsince
  obtain ⟨hworkload, hresult⟩ := Prod.mk.inj (Option.some.inj hrow)
  exact htruth.of_row hworkload.symm hresult.symm

/-! ### Fixed runs -/

theorem cased_ascii : Cased asciiRuntime := by
  have fold (s t : String) (h : asciiRuntime.lower s = t) : asciiRuntime.upper s = asciiRuntime.upper t := by
    subst h
    simp [asciiRuntime, Function.comp_def]
  exact ⟨fun s h => (fold s _ h).trans (by decide +kernel), fun s h => (fold s _ h).trans (by decide +kernel)⟩

instance (m : OpMessage) (w : World) : Decidable ((recorded k wid type).spawn m w) := .isTrue trivial

instance (θ : Told) (p : OpProg Unit) (i : Input) (w : World) : Decidable ((recorded k wid type).step θ p i w) :=
  inferInstanceAs (Decidable (succeeding p = true → θ.1.operationId = k → type ≠ .vmDelete → unwritten θ.1 w.db = false))

instance (θ : Told) (p : OpProg Unit) (w : World) : Decidable ((recorded k wid type).crash θ p w) := .isTrue trivial

theorem tracked_single {db : Db} {o : Operation} (hrow : db.operations = .single o) (htype : o.operationType = type) (hworkload : o.workloadId = wid) (hplaced : ∃ wl, db.workloads.get? wid = some wl)
    (hresult : o.result.get? "final_power_state" = none) : Tracked k wid type db := by
  have of_row (q : Operation) (hq : db.operations.get? k = some q) : q = o := by
    rw [hrow] at hq
    exact List.mem_singleton.mp (Table.mem_rows.mpr (Table.get?_mem hq))
  refine ⟨fun q hq => ?_, fun q hq => ?_, fun q hq => hplaced, fun q hq _ => ?_⟩
  · rw [of_row q hq, htype]
  · rw [of_row q hq, hworkload]
  · rw [of_row q hq, hresult]

/-- A start that is submitted and polled to its end. -/
def startedRun : List OpAction := .spawn 0 ⟨.power, 1⟩ :: steps 0 17 "stopped" ++ steps 0 20 "running"

theorem started_truthful : ((after asciiRuntime (sampleWorld (.power .start)) startedRun).shared.db.operations.get? 1).map
      Operation.status = some .succeeded ∧
    TruthfulSuccess asciiRuntime 1 (.power .start) (sampleWorld (.power .start)) startedRun := by
  refine ⟨by decide +kernel, ?_⟩
  have ht : Tracked 1 1 (.power .start) (sampleWorld (.power .start)).db :=
    tracked_single rfl rfl rfl ⟨_, rfl⟩ rfl
  exact success_truthful cased_ascii (Or.inl ⟨_, rfl⟩) _ ht (by decide) startedRun
    (Conditions.along_inside (by decide +kernel))

/-- A guest that was seen running some time ago, and is stored as running. -/
def staleWorld : World :=
  { sampleWorld (.power .start) with
    db := { (sampleWorld (.power .start)).db with
      workloads := .single { sampleWorkload 1 with powerState := "RUNNING" } } }

/-- An import finds the guest stopped, between the loading of the row and the commit of the
result. -/
def importStopped (w : World) : World :=
  w.setDb { w.db with workloads := w.db.workloads.update 1 fun v => { v with powerState := "STOPPED" } }

/-- The import comes between the admission of a start and the run's look at the guest. -/
def staleRun : List OpAction :=
  .spawn 0 ⟨.power, 1⟩ :: steps 0 1 "running" ++ .env importStopped :: steps 0 20 "running"

/-- The power state that is stored after so many actions of the run. -/
def storedState (n : Nat) : Option String :=
  ((after asciiRuntime staleWorld (staleRun.take n)).shared.db.workloads.get? 1).map Workload.powerState

/-- **A power state that is not recorded**: the start succeeds as a no-op on a running guest, which the
database goes on to call stopped. -/
theorem stale_state_kept : ¬ TruthfulSuccess asciiRuntime 1 (.power .start) staleWorld staleRun := by
  intro h
  have hstored : ∀ n < 24, 3 ≤ n → storedState n = some "STOPPED" := by decide +kernel
  have hrow : ((after asciiRuntime staleWorld staleRun).shared.db.operations.get? 1).map
      (fun o => (o.status, o.workloadId)) = some (.succeeded, 1) := by decide +kernel
  obtain ⟨o, ho, hfields⟩ := Option.map_eq_some_iff.mp hrow
  obtain ⟨hstatus, hworkload⟩ := Prod.mk.inj hfields
  obtain ⟨before, pid, i, rest, θ, f, kont, hactions, hlive, won, -, -, -, ⟨wl, hwl, hstate⟩, -⟩ := h o ho hstatus
  have hlength : before.length + rest.length = 22 := by
    have hcount : staleRun.length = 23 := by decide
    rw [hactions, List.length_append, List.length_cons] at hcount
    omega
  have htake : before ++ [.step pid i] = staleRun.take (before.length + 1) := by
    have hsplit : before ++ .step pid i :: rest = (before ++ [.step pid i]) ++ rest := by simp
    rw [hactions, hsplit]
    exact (List.take_left' (by simp)).symm
  by_cases hearly : before.length + 1 < 3
  · -- neither the start of the delivery nor its admission commits a success
    rcases before with _ | ⟨a, _ | ⟨b, before⟩⟩
    · cases hactions
    · cases hactions
      have hadmission : ((after asciiRuntime staleWorld (staleRun.take 1)).procs 0).map (fun p => succeeding p.2) =
          some false := by decide +kernel
      rw [show staleRun.take 1 = [.spawn 0 ⟨.power, 1⟩] from rfl, hlive] at hadmission
      have hfinish : (f.status == .succeeded) = false := Option.some.inj hadmission
      rw [won] at hfinish
      cases hfinish
    · exact absurd hearly (by simp)
  · have hstop := hstored (before.length + 1) (by omega) (by omega)
    unfold storedState at hstop
    rw [← htake] at hstop
    rw [hworkload] at hwl
    rw [hwl] at hstop
    have hkept : wl.powerState = "STOPPED" := Option.some.inj hstop
    rw [hstate] at hkept
    exact absurd hkept (by decide)

end PveMaster.Truthfulness
