import PveMaster.Operations.Conduct
import PveMaster.Operations.Routing

/-! What a deletion leaves behind.

The administrative branch of the power runner looks neither at the lease nor at
`pve_tasks`: a delivery that finds the operation `RUNNING` starts it over. A
delivery that comes again is harmless as long as the deletion has not been
submitted, or once the operation has ended, and so is one that reaches another
runner. What is promised holds where none is admitted in between, and where the
delivery that submits is the only one under way: nothing else of what a process
does is restricted, and any number of them may die. -/
namespace PveMaster.Deletion

open Conduct
open Routing (statusOf)

/-- A call that deletes a guest. -/
def deletion : Request → Bool
  | .deleteGuest .. => true
  | _ => false

/-- The submissions of a deletion. -/
def submissions (k : Uuid) (w : World) : Nat := callCount deletion k w

/-- How many of them Proxmox has carried out. -/
def deleted (carriedOut : Nat → Bool) (k : Uuid) (w : World) : Nat :=
  carriedCount deletion carriedOut k w

def present (db : Db) (workloadId : Uuid) : Bool :=
  (db.workloads.get? workloadId).any (·.isPresent)

/-- The operation has ended without a success. -/
def failed (db : Db) (k : Uuid) : Bool :=
  (statusOf db k).any (fun s => s.terminal && s != .succeeded)

variable {k wid : Uuid}

/-! ### The workload -/

/-- What a session knows of the workload: it is the operation's, it has been seen absent only
if it is, and nothing is assigned that would make it present. -/
structure Holds (wid : Uuid) (θ : OpState) (db : Db) : Prop where
  loaded : ∀ l, θ.loaded.workload = some l → l.id = wid ∧ (l.isPresent = false → present db wid = false)
  lowers : ∀ c, θ.current.workload = some c →
    ∃ l, θ.loaded.workload = some l ∧ c.id = l.id ∧ (c.isPresent = true → l.isPresent = true)

/-- The operation's row is that of a deletion of the workload. -/
def OfWorkload (k wid : Uuid) (db : Db) : Prop :=
  ∀ o, db.operations.get? k = some o → o.operationType = .vmDelete ∧ o.workloadId = wid

/-- What a flush makes of the workload's row. -/
theorem flush_workload (θ : OpState) (db : Db) :
    (θ.flush db).workloads.get? wid =
      match θ.loaded.workload, θ.current.workload with
      | some l, some c =>
        if l.id = wid then (db.workloads.get? wid).map (Workload.merge l c) else db.workloads.get? wid
      | _, _ => db.workloads.get? wid := by
  show (flushRow Workload.merge θ.loaded.workload θ.current.workload db.workloads).get? wid = _
  cases hl : θ.loaded.workload with
  | none => rfl
  | some l =>
    cases hc : θ.current.workload with
    | none => rfl
    | some c =>
      by_cases hk : l.id = wid
      · simp only [if_pos hk]
        rw [← hk]
        exact Table.get?_update_self _ _ (fun _ => rfl)
      · simp only [if_neg hk]
        exact Table.get?_update_of_ne _ (Ne.symm hk)

theorem present_map {o : Option Workload} {f : Workload → Workload}
    (h : ∀ wl, o = some wl → (f wl).isPresent = true → wl.isPresent = true)
    (hp : (o.map f).any (·.isPresent) = true) : o.any (·.isPresent) = true := by
  cases o with
  | none => exact hp
  | some wl => exact h wl rfl hp

section Effects
variable {now : Instant} {ρ : Type} {op : RunnerOp ρ} {θ θ' : OpState} {db db' : Db}

theorem flush_present (h : Holds wid θ db) (hp : present (θ.flush db) wid = true) :
    present db wid = true := by
  unfold present at hp ⊢
  rw [flush_workload] at hp
  cases hl : θ.loaded.workload with
  | none =>
    rw [hl] at hp
    exact hp
  | some l =>
    cases hc : θ.current.workload with
    | none =>
      rw [hl, hc] at hp
      exact hp
    | some c =>
      rw [hl, hc] at hp
      obtain ⟨hid, hgone⟩ := h.loaded l hl
      obtain ⟨l', hl', -, hlowers⟩ := h.lowers c hc
      rw [hl] at hl'
      cases hl'
      simp only [if_pos hid] at hp
      refine present_map (fun wl hwl hmerged => ?_) hp
      have hwritten : written l.isPresent c.isPresent wl.isPresent = true := hmerged
      cases hcp : c.isPresent with
      | true =>
        rw [hcp, hlowers hcp, written_unchanged] at hwritten
        exact hwritten
      | false =>
        rw [hcp] at hwritten
        cases hlp : l.isPresent with
        | true => rw [hlp, written_of_ne _ (by decide)] at hwritten; cases hwritten
        | false => rwa [hlp, written_unchanged] at hwritten

/-- A workload assigned absent is absent once it is committed. -/
theorem flush_gone (h : Holds wid θ db) {c : Workload} (hc : θ.current.workload = some c)
    (hgone : c.isPresent = false) : present (θ.flush db) wid = false := by
  obtain ⟨l, hl, -⟩ := h.lowers c hc
  obtain ⟨hid, hknown⟩ := h.loaded l hl
  cases hlp : l.isPresent with
  | false =>
    cases hp : present (θ.flush db) wid with
    | false => rfl
    | true =>
      have := flush_present h hp
      rw [hknown hlp] at this
      cases this
  | true =>
    unfold present
    rw [flush_workload, hl, hc]
    simp only [if_pos hid]
    cases db.workloads.get? wid with
    | none => rfl
    | some wl =>
      show written l.isPresent c.isPresent wl.isPresent = false
      rw [hlp, hgone]
      exact written_of_ne _ (by decide)

/-- What a session loads of the workload is how it is. -/
theorem Holds.of_loads {s : OpSession} {o : Operation} (loads : Loads θ db s o)
    (hw : OfWorkload θ.operationId wid db) : Holds wid (θ.load s) db := by
  have hwid : o.workloadId = wid := (hw o (by rw [← loads.named]; exact loads.found)).2
  refine ⟨fun l hl => ?_, fun c hc => ⟨c, hc, rfl, id⟩⟩
  have hfound := loads.workload l hl
  rw [hwid] at hfound
  refine ⟨Table.get?_key hfound, fun hgone => ?_⟩
  unfold present
  rw [hfound]
  exact hgone

/-- What a session holds is how it is, once it is committed. -/
theorem Holds.saved (h : Holds wid θ db) {θ₁ : OpState} (hc : θ₁.current.workload = θ.current.workload)
    (hdb : db'.workloads = (θ.flush db).workloads) : Holds wid (θ₁.load θ₁.current) db' := by
  have hpresent : present db' wid = present (θ.flush db) wid := by unfold present; rw [hdb]
  refine ⟨fun c hcur => ?_, fun c hcur => ⟨c, hcur, rfl, id⟩⟩
  have hcur : θ.current.workload = some c := hc.symm.trans hcur
  obtain ⟨l, hl, hid, -⟩ := h.lowers c hcur
  rw [hpresent]
  exact ⟨hid.trans (h.loaded l hl).1, flush_gone h hcur⟩

theorem Holds.mono (h : Holds wid θ db) (hp : present db' wid = true → present db wid = true) :
    Holds wid θ db' := by
  refine ⟨fun l hl => ⟨(h.loaded l hl).1, fun hgone => ?_⟩, h.lowers⟩
  cases hpresent : present db' wid with
  | false => rfl
  | true =>
    have := (h.loaded l hl).2 hgone
    rw [hp hpresent] at this
    cases this

/-- Nothing is assigned that would make a workload present, or another. -/
def Lowering (e : Edit) : Prop :=
  ∀ wl, (e.workload wl).id = wl.id ∧ ((e.workload wl).isPresent = true → wl.isPresent = true)

theorem lowering_nothing : Lowering {} := fun _ => ⟨rfl, id⟩

/-- **What an effect does to the workload**: it stays absent, and the session knows it. -/
theorem effect_holds (he : OpEffect now op θ db θ' db') (h : Holds wid θ db)
    (hw : OfWorkload θ.operationId wid db) (lowering : ∀ e, op.assigned = some e → Lowering e) :
    Holds wid θ' db' ∧ (present db' wid = true → present db wid = true) := by
  cases he with
  | @assigned e he =>
    have hlowering : Lowering e := by
      rcases he with rfl | he
      · exact lowering_nothing
      · exact lowering e he
    refine ⟨⟨h.loaded, fun c hc => ?_⟩, id⟩
    obtain ⟨c', hc', rfl⟩ := Option.map_eq_some_iff.mp hc
    obtain ⟨l, hl, hid, hlow⟩ := h.lowers c' hc'
    exact ⟨l, hl, (hlowering c').1.trans hid, fun hp => hlow ((hlowering c').2 hp)⟩
  | rolledBack => exact ⟨⟨h.loaded, fun c hc => ⟨c, hc, rfl, id⟩⟩, id⟩
  | saved => exact ⟨h.saved rfl rfl, flush_present h⟩
  | @submitted t =>
    have htask : (θ.withTask t).current.workload = θ.current.workload := rfl
    exact ⟨h.saved htask rfl, flush_present h⟩
  | @finished f =>
    have hfinished : Holds wid (θ.finished f) db := ⟨h.loaded, h.lowers⟩
    exact ⟨hfinished.saved rfl rfl, flush_present hfinished⟩
  | loaded _ loads => exact ⟨.of_loads loads hw, id⟩
  | @started _ s _ loads =>
    have hloads := Holds.of_loads loads hw
    have hstarted : Holds wid ((θ.load s).started now) db := ⟨hloads.loaded, hloads.lowers⟩
    exact ⟨hstarted.saved rfl rfl, flush_present hstarted⟩
  | @refused _ s _ loads f =>
    have hloads := Holds.of_loads loads hw
    have hfinished : Holds wid ((θ.load s).finished f) db := ⟨hloads.loaded, hloads.lowers⟩
    exact ⟨hfinished.saved rfl rfl, flush_present hfinished⟩

/-- An operation that succeeded has left its workload absent. -/
def Gone (k wid : Uuid) (db : Db) : Prop := statusOf db k = some .succeeded → present db wid = false

/-- An operation that has succeeded after an effect had before, or was finished so. -/
theorem effect_succeeded (he : OpEffect now op θ db θ' db') (hs : θ.Sound)
    (hsucceeded : statusOf db' k = some .succeeded) :
    statusOf db k = some .succeeded ∨ ∃ f, op.finishWith = some f ∧ f.status = .succeeded := by
  obtain ⟨g, hrows, hstep⟩ := effect_row he hs k
  unfold statusOf at hsucceeded ⊢
  rw [hrows, Option.map_map] at hsucceeded
  obtain ⟨o, ho, hstatus⟩ := Option.map_eq_some_iff.mp hsucceeded
  have hstatus : (g o).status = .succeeded := hstatus
  rw [ho]
  rcases (hstep o ho).status with hkept | ⟨-, hstep⟩
  · exact Or.inl (congrArg some (hkept.symm.trans hstatus))
  · rw [hstatus] at hstep
    generalize hsucc : OperationStatus.succeeded = status at hstep
    cases hstep with
    | kept => exact Or.inl rfl
    | started => cases hsucc
    | refused => cases hsucc
    | @finished f hf => exact Or.inr ⟨f, hf, rfl⟩

theorem effect_gone (he : OpEffect now op θ db θ' db') (hs : θ.Sound) (h : Holds wid θ db)
    (hw : OfWorkload θ.operationId wid db) (lowering : ∀ e, op.assigned = some e → Lowering e)
    (hg : Gone k wid db) (finishes : ∀ f, op.finishWith = some f → f.status = .succeeded →
      ∃ c, θ.current.workload = some c ∧ c.isPresent = false) : Gone k wid db' := by
  have absent (hp : present db wid = false) : present db' wid = false := by
    cases hp' : present db' wid with
    | false => rfl
    | true => rw [(effect_holds he h hw lowering).2 hp'] at hp; cases hp
  -- an effect that is not a `_finish` is one of another operation too
  have unfinished {ρ' : Type} {op' : RunnerOp ρ'} (he' : OpEffect now op' θ db θ' db')
      (hnone : op'.finishWith = none) : Gone k wid db' := fun hsucceeded => by
    rcases effect_succeeded he' hs hsucceeded with hbefore | ⟨f, hf, -⟩
    · exact absent (hg hbefore)
    · rw [hnone] at hf
      cases hf
  cases he with
  | assigned | rolledBack | loaded => exact hg
  | saved =>
    have he' : OpEffect now RunnerOp.commit θ db _ _ := .saved
    exact unfinished he' rfl
  | @submitted t _ _ inserted =>
    have he' : OpEffect now (RunnerOp.addTask t) θ db _ _ := .submitted rfl inserted
    exact unfinished he' rfl
  | started _ loads =>
    have he' : OpEffect now RunnerOp.enter θ db _ _ := .started rfl loads
    exact unfinished he' rfl
  | refused _ loads failed plain =>
    have he' : OpEffect now RunnerOp.enter θ db _ _ := .refused rfl loads failed plain
    exact unfinished he' rfl
  | @finished f hf =>
    intro hsucceeded
    have he' : OpEffect now (RunnerOp.finish f) θ db _ _ := .finished rfl
    rcases effect_succeeded he' hs hsucceeded with hbefore | ⟨f', hf', hs'⟩
    · exact absent (hg hbefore)
    · cases hf'
      obtain ⟨c, hc, hgone⟩ := finishes f hf hs'
      have hfinished : Holds wid (θ.finished f) db := ⟨h.loaded, h.lowers⟩
      have hflush : present ((θ.finished f).flush db) wid = false := flush_gone hfinished hc hgone
      exact hflush

theorem failed_iff : failed db k = true ↔
    ∃ o, db.operations.get? k = some o ∧ o.status.terminal = true ∧ o.status ≠ .succeeded := by
  unfold failed statusOf
  cases db.operations.get? k <;> simp

/-- What a `_finish` adds to the failures. -/
def failing (op : RunnerOp ρ) : Nat :=
  match op.finishWith with
  | some f => if f.status = .succeeded then 0 else 1
  | none => 0

theorem effect_failed (he : OpEffect now op θ db θ' db') (hs : θ.Sound) (hop : op.enters = false) :
    (failed db' k).toNat ≤ (failed db k).toNat + failing op := by
  cases hfailed : failed db' k with
  | false => exact Nat.zero_le _
  | true =>
    obtain ⟨o', ho', hterminal, hne⟩ := failed_iff.mp hfailed
    obtain ⟨g, hg, hrow⟩ := effect_row he hs k
    rw [hg] at ho'
    obtain ⟨o, ho, rfl⟩ := Option.map_eq_some_iff.mp ho'
    have before (hkept : (g o).status = o.status) : true.toNat ≤ (failed db k).toNat + failing op := by
      rw [hkept] at hterminal hne
      rw [failed_iff.mpr ⟨o, ho, hterminal, hne⟩]
      exact Nat.le_add_right _ _
    rcases (hrow o ho).status with hkept | ⟨-, hstep⟩
    · exact before hkept
    · generalize hstatus : (g o).status = status at hstep
      cases hstep with
      | kept => exact before hstatus
      | started henters => rw [hop] at henters; cases henters
      | refused henters => rw [hop] at henters; cases henters
      | @finished f hf =>
        rw [hstatus] at hne
        have hone : failing op = 1 := by
          unfold failing
          rw [hf]
          exact if_neg hne
        rw [hone]
        exact Nat.le_add_left _ _

end Effects

/-! ### What a delivery may do -/

/-- Submissions, and what cannot both happen: a deletion carried out, and a failure. -/
abbrev Amount : Type := Nat × Nat

section Programs
open Prog OpProg PowerRunner

/-- An answer to a poll of a task that ends well, while polls are left. -/
def seen (max polls : Nat) (answer : Except Exn Dict) : Bool :=
  match answer with
  | .ok status =>
    status.get? "status" == some (.str "running") && polls < max ||
      status.get? "status" == some (.str "stopped") && status.get? "exitstatus" == some (.str "OK")
  | .error (.app _) => false
  | .error _ => true

/-- Proxmox's answers in an operation of a delivery: a deletion that is carried out is
answered with its task, and each poll of it is answered. A commit is refused with an error
of the database. -/
def answered (rt : Runtime) (carriedOut : Nat → Bool) {ρ : Type} (o : RunnerOp ρ) (i : Input)
    (θ : OpState) (w : World) : Bool :=
  i.reject.all (fun e => e.appError?.isNone) && match o with
    | .call r => match r with
      | .deleteGuest kind onNode vmid => !carriedOut w.calls.length ||
          (i.answers (.deleteGuest kind onNode vmid)).toOption.isSome
      | .getTaskStatus onNode upid =>
        seen rt.settings.pveTaskMaxPollAttempts ((θ.current.task.map PveTask.pollAttempts).getD 0)
          (i.answers (.getTaskStatus onNode upid))
      | _ => true
    | _ => true

/-- `completes` says that the deletion Proxmox carries out ends with `OK`. -/
def budget (rt : Runtime) (carriedOut : Nat → Bool) (completes : Bool) :
    Budget RunnerOp OpState World Input Amount where
  may _ o i θ w := completes = true → answered rt carriedOut o i θ w = true
  allowed o θ := o.enters = false ∧ (∀ e, o.assigned = some e → Lowering e) ∧
    ∀ f, o.finishWith = some f → f.status = .succeeded →
      ∃ c, θ.current.workload = some c ∧ c.isPresent = false
  cost o _ _ w :=
    ((calls deletion o).toNat, if completes then (calls deletion o && carriedOut w.calls.length).toNat +
      failing o else 0)

variable {rt : Runtime} {carriedOut : Nat → Bool} {completes : Bool} {n : Amount} {θ : OpState}
  {α β ρ : Type} {J : OpState → Prop}

theorem spares_plain {o : RunnerOp ρ} (henters : o.enters = false)
    (hassigned : ∀ e, o.assigned = some e → Lowering e) (hfinish : o.finishWith = none)
    (hcalls : calls deletion o = false) : Spares (budget rt carriedOut completes) o := by
  refine fun θ => ⟨⟨henters, hassigned, fun f hf => ?_⟩, fun i w => ?_⟩
  · rw [hfinish] at hf
    cases hf
  · show ((calls deletion o).toNat, if completes then _ else 0) = (0, 0)
    unfold failing
    rw [hcalls, hfinish]
    cases completes <;> rfl

/-- What a delivery needs so that it may still fail. -/
def Backed (completes : Bool) (n : Amount) : Prop := completes = true → 1 ≤ n.2

/-- What the body of the deletion ends in: an error the runner makes a failure of, only if
it may still fail. -/
def Post (completes : Bool) (r : Except Exn Unit) (n : Amount) (_ : OpState) : Prop :=
  ∀ e, r = .error (.app e) → Backed completes n

abbrev Runs (rt : Runtime) (carriedOut : Nat → Bool) (completes : Bool) (p : OpProg Unit) (n : Amount)
    (θ : OpState) : Prop := within (opMachine rt) (budget rt carriedOut completes) p (Post completes) n θ

theorem post_backed {r : Except Exn Unit} (h : Backed completes n) : Post completes r n θ :=
  fun _ _ => h

theorem post_refused {ρ : Type} {o : RunnerOp ρ} {i : Input} {θ₀ : OpState} {w : World} {e : Exn}
    (hmay : (budget rt carriedOut completes).may n o i θ₀ w) (he : i.reject = some e) :
    Post completes (.error e) n θ := by
  intro a ha hc
  cases ha
  have hanswered := (Bool.and_eq_true_iff.mp (hmay hc)).1
  rw [he] at hanswered
  cases hanswered

theorem commitTo_result {i : Input} {θ' : OpState} {w w' : World} {db : Db} {r : Except Exn Unit}
    (h : commitTo i θ w db = (θ', w', r)) :
    (∃ e, i.reject = some e ∧ r = .error e) ∨ r = .ok () ∧ θ'.current = θ.current := by
  unfold commitTo at h
  split at h
  · next e he =>
    cases h
    exact Or.inl ⟨e, he, rfl⟩
  · cases h
    exact Or.inr ⟨rfl, rfl⟩

theorem spares_still {o : RunnerOp ρ} (h : still o = true) (hcalls : calls deletion o = false) :
    Spares (budget rt carriedOut completes) o := by
  refine spares_plain ?_ (fun e he => ?_) ?_ hcalls
  · cases o <;> first | rfl | cases h
  · cases o <;> first | cases h; done | cases he
  · cases o <;> first | rfl | cases h

theorem keeping_still {o : RunnerOp ρ} (h : still o = true) (hcalls : calls deletion o = false) :
    Keeping rt (budget rt carriedOut completes) J (op o) := only_op (keeps_still h (spares_still h hcalls))

theorem keeping_now : Keeping rt (budget rt carriedOut completes) J now := keeping_still rfl rfl

theorem keeping_assign {e : Edit} (he : Lowering e) (hJ : ∀ θ, J θ → J (θ.assign e)) :
    Keeping rt (budget rt carriedOut completes) J (assign e) := by
  refine only_op (keeps_assign hJ (spares_plain rfl (fun e' he' => ?_) rfl rfl))
  cases he'
  exact he

theorem spares_session : Spares (budget rt carriedOut completes) .session :=
  spares_plain rfl (fun _ he => by cases he) rfl rfl

theorem lowering_task (f : PveTask → PveTask) (time : Option Instant) :
    Lowering { task := f, heartbeatAt := time } := fun _ => ⟨rfl, id⟩

/-- A call that does not delete is free. -/
theorem runs_call {r : Request} {f : Reply r → OpProg Unit} (hr : deletion r = false)
    (hf : ∀ i w, (budget rt carriedOut completes).may n (RunnerOp.call r) i θ w →
      match i.answers r with
      | .ok a => within (opMachine rt) (budget rt carriedOut completes) (f a) (Post completes) n θ
      | .error e => Post completes (.error e) n θ) :
    Runs rt carriedOut completes (call (.ok ()) r >>= f) n θ := by
  have hspares : Spares (budget rt carriedOut completes) (RunnerOp.call r) :=
    spares_plain rfl (fun _ he => by cases he) rfl hr
  refine within_perform (hspares θ).1 fun i w θ' w' a hmay hx => ⟨n, ?_, ?_⟩
  · rw [(hspares θ).2 i w, zero_add]
  · have hout : (RunnerOp.call r).exec rt i θ w = (θ', w', a) := Option.some.inj hx
    cases hout
    have hanswer := hf i w hmay
    revert hanswer
    cases i.answers r <;> exact id

/-- A commit of what was assigned keeps the session. -/
theorem runs_commit {f : Unit → OpProg Unit}
    (hf : ∀ θ', θ'.current = θ.current → Runs rt carriedOut completes (f ()) n θ') :
    Runs rt carriedOut completes (commit >>= f) n θ := by
  have hspares : Spares (budget rt carriedOut completes) .commit :=
    spares_plain rfl (fun _ he => by cases he) rfl rfl
  refine within_perform (hspares θ).1 fun i w θ' w' a hmay hx => ⟨n, ?_, ?_⟩
  · rw [(hspares θ).2 i w, zero_add]
  · have hout : commitTo i θ w (θ.flush w.db) = (θ', w', a) := Option.some.inj hx
    rcases commitTo_result hout with ⟨e, he, rfl⟩ | ⟨rfl, hcur⟩
    · exact post_refused hmay he
    · exact hf θ' hcur

/-- The success of a deletion that has set its workload absent. -/
theorem runs_succeeded {f : Finish} (hf : f.status = .succeeded)
    (h : ∃ c, θ.current.workload = some c ∧ c.isPresent = false) :
    Runs rt carriedOut completes (finish f) n θ := by
  refine ⟨⟨rfl, fun _ he => (by cases he), fun _ _ _ => h⟩, fun i w θ' w' r hmay hx => ⟨n, ?_, ?_⟩⟩
  · have hcost : (budget rt carriedOut completes).cost (.finish f) i θ w = 0 := by
      show (0, if completes then 0 + failing (.finish f) else 0) = (0, 0)
      have : failing (.finish f) = 0 := if_pos hf
      rw [this]
      cases completes <;> rfl
    rw [hcost, zero_add]
  · have hout : commitTo i (θ.finished f) w (_ : Db) = (θ', w', r) := Option.some.inj hx
    show Post completes r n θ'
    rcases commitTo_result hout with ⟨e, he, rfl⟩ | ⟨rfl, -⟩
    · exact post_refused hmay he
    · intro e he
      cases he

/-- Any result is allowed while the delivery may fail, but a failure uses that up. -/
theorem runs_failed {f : Finish} (hf : f.status ≠ .succeeded) (h : Backed completes n) :
    within (opMachine rt) (budget rt carriedOut completes) (finish f) (fun _ _ _ => True) n θ := by
  refine ⟨⟨rfl, fun _ he => (by cases he), fun f' hf' hs => ?_⟩, fun i w θ' w' r _ _ =>
    ⟨(n.1, n.2 - 1), ?_, trivial⟩⟩
  · cases hf'
    exact absurd hs hf
  · have hfailing : failing (.finish f) = 1 := if_neg hf
    show ((0, if completes then 0 + failing (.finish f) else 0) : Amount) + (n.1, n.2 - 1) ≤ n
    rw [hfailing]
    cases completes with
    | false => exact ⟨le_of_eq (Nat.zero_add _), le_trans (le_of_eq (Nat.zero_add _)) (Nat.sub_le _ _)⟩
    | true =>
      have hone : 1 ≤ n.2 := h rfl
      exact ⟨le_of_eq (Nat.zero_add _), show 0 + 1 + (n.2 - 1) ≤ n.2 by omega⟩

/-- What leaves the session as it is is free. -/
theorem runs_still {o : RunnerOp ρ} {f : ρ → OpProg Unit} (h : still o = true)
    (hcalls : calls deletion o = false) (hf : ∀ a, Runs rt carriedOut completes (f a) n θ) :
    Runs rt carriedOut completes (op o >>= f) n θ := by
  have hspares : Spares (budget rt carriedOut completes) o := spares_still h hcalls
  refine ⟨(hspares θ).1, fun i w θ' w' a _ hx => ⟨n, ?_, ?_⟩⟩
  · rw [(hspares θ).2 i w, zero_add]
  · rw [exec_still h hx]
    exact hf a

theorem runs_assign {e : Edit} {f : Unit → OpProg Unit} (he : Lowering e)
    (hf : Runs rt carriedOut completes (f ()) n (θ.assign e)) :
    Runs rt carriedOut completes (assign e >>= f) n θ := by
  have hspares : Spares (budget rt carriedOut completes) (.assign e) :=
    spares_plain rfl (fun _ h => Option.some.inj h ▸ he) rfl rfl
  refine ⟨(hspares θ).1, fun i w θ' w' a _ hx => ⟨n, ?_, ?_⟩⟩
  · rw [(hspares θ).2 i w, zero_add]
  · have hout : (RunnerOp.assign e).exec rt i θ w = (θ', w', a) := Option.some.inj hx
    cases hout
    exact hf

theorem commitTask_result {t : PveTask} {i : Input} {θ' : OpState} {w w' : World} {r : Except Exn Unit}
    (h : commitTask t i θ w = (θ', w', r)) :
    (∃ e, r = .error e ∧ (e = .integrity ∨ i.reject = some e)) ∨
      r = .ok () ∧ θ'.current = { θ.current with task := some t } := by
  unfold commitTask at h
  split at h
  · cases h
    exact Or.inl ⟨_, rfl, Or.inl rfl⟩
  split at h
  · exact (commitTo_result h).imp (fun ⟨e, he, hr⟩ => ⟨e, hr, Or.inr he⟩) id
  · cases h
    exact Or.inl ⟨_, rfl, Or.inl rfl⟩

/-- The commit of the task. -/
theorem runs_addTask {t : PveTask} {f : Unit → OpProg Unit}
    (hf : ∀ θ', θ'.current = { θ.current with task := some t } →
      Runs rt carriedOut completes (f ()) n θ') :
    Runs rt carriedOut completes (perform (.addTask t) >>= f) n θ := by
  have hspares : Spares (budget rt carriedOut completes) (.addTask t) :=
    spares_plain rfl (fun _ he => by cases he) rfl rfl
  refine within_perform (hspares θ).1 fun i w θ' w' a hmay hx => ⟨n, ?_, ?_⟩
  · rw [(hspares θ).2 i w, zero_add]
  · have hout : commitTask t i θ w = (θ', w', a) := Option.some.inj hx
    rcases commitTask_result hout with ⟨e, rfl, rfl | he⟩ | ⟨rfl, hcur⟩
    · intro e he
      cases he
    · exact post_refused hmay he
    · exact hf θ' hcur

/-- A failure, where no deletion is to complete. -/
theorem runs_failure {f : Instant → Finish} (hf : ∀ time, (f time).status ≠ .succeeded)
    (hc : completes = false) :
    Runs rt carriedOut completes (now >>= fun time => finish (f time)) n θ := by
  have hbacked (n : Amount) : Backed completes n := fun h => by rw [hc] at h; cases h
  refine runs_still rfl rfl fun time => within_mono (fun r n θ _ => ?_)
    (runs_failed (hf time) (hbacked n))
  exact post_backed (hbacked n)

theorem seen_running {max polls : Nat} {status : Dict}
    (hrunning : status.get? "status" = some (.str "running"))
    (h : seen max polls (.ok status) = true) : polls < max := by
  simpa [seen, hrunning] using h

theorem seen_stopped {max polls : Nat} {status : Dict}
    (hrunning : status.get? "status" ≠ some (.str "running"))
    (h : seen max polls (.ok status) = true) :
    status.get? "status" = some (.str "stopped") ∧ status.get? "exitstatus" = some (.str "OK") := by
  simpa [seen, hrunning] using h

/-- The polls of a deletion: as long as one is left, the next may be the last. -/
theorem runs_pollDelete (polls : Nat) {t : PveTask} (ht : θ.current.task = some t)
    (hpolls : t.pollAttempts + polls = rt.settings.pveTaskMaxPollAttempts)
    (hworkload : θ.current.workload.isSome = true) (hleft : completes = true → 0 < polls) :
    Runs rt carriedOut completes (pollDelete rt (.ok ()) polls) n θ := by
  induction polls generalizing θ t with
  | zero =>
    have hc : completes = false := by
      cases completes with
      | false => rfl
      | true => exact absurd (hleft rfl) (Nat.lt_irrefl 0)
    exact runs_assign (lowering_task _ _) (runs_failure (fun _ => OperationStatus.timeout_ne) hc)
  | succ polls ih =>
    refine runs_still rfl rfl fun polled => runs_assign (lowering_task _ _) ?_
    refine within_session spares_session ?_
    generalize hθ : θ.assign _ = θ₁
    have ht₁ : θ₁.current.task =
        some { t with pollAttempts := t.pollAttempts + 1, lastPolledAt := some polled } := by
      rw [← hθ]
      show θ.current.task.map _ = _
      rw [ht]
      rfl
    have hworkload₁ : θ₁.current.workload.isSome = true := by
      rw [← hθ]
      show (θ.current.workload.map _).isSome = true
      rw [Option.isSome_map]
      exact hworkload
    rw [ht₁]
    refine runs_call rfl fun i w hmay => ?_
    have hseen (hc : completes = true) : seen rt.settings.pveTaskMaxPollAttempts (t.pollAttempts + 1)
        (i.answers (.getTaskStatus t.pveNode t.upid)) = true := by
      have hanswered := (Bool.and_eq_true_iff.mp (hmay hc)).2
      simp only [ht₁] at hanswered
      exact hanswered
    cases hanswer : i.answers (.getTaskStatus t.pveNode t.upid) with
    | error e =>
      intro a ha hc
      have hseen := hseen hc
      rw [hanswer] at hseen
      cases ha
      cases hseen
    | ok status =>
      rw [hanswer] at hseen
      simp only
      split
      · next hrunning =>
        refine runs_commit fun θ' hcur => ih (by rw [hcur]; exact ht₁) (by simp only; omega)
          (by rw [hcur]; exact hworkload₁) fun hc => ?_
        have := seen_running hrunning (hseen hc)
        omega
      · next hrunning =>
        refine runs_still rfl rfl fun completed => runs_assign (lowering_task _ _) ?_
        split
        · next hnot =>
          have hc : completes = false := by
            cases hc : completes with
            | false => rfl
            | true =>
              obtain ⟨hstopped, hexit⟩ := seen_stopped hrunning (hseen hc)
              rcases hnot with hnot | hnot
              · exact absurd hstopped hnot
              · exact absurd hexit hnot
          exact runs_assign (lowering_task _ _) (runs_failure (fun _ => OperationStatus.failed_ne) hc)
        · refine runs_still rfl rfl fun observed => runs_assign (fun wl => ⟨rfl, fun hp => by cases hp⟩) ?_
          refine runs_still rfl rfl fun time => runs_succeeded rfl ?_
          obtain ⟨c, hc⟩ := Option.isSome_iff_exists.mp hworkload₁
          refine ⟨{ c with isPresent := false, observedAt := observed, version := c.version + 1 }, ?_, rfl⟩
          show (θ₁.current.workload.map _).map _ = _
          rw [hc]
          rfl

/-- The body of a deletion. The submission is what it has in hand for; from then on a
failure is not allowed, if it was carried out. -/
theorem runs_delete {client : Except AppError Unit} {workload : Workload} {operation : Operation}
    (hworkload : θ.current.workload.isSome = true) (hpolls : 0 < rt.settings.pveTaskMaxPollAttempts)
    (hfunded : 1 ≤ n.1 ∧ 1 ≤ n.2) :
    Runs rt carriedOut completes (adminBody rt client workload operation .delete) n θ := by
  have hbacked : Backed completes n := fun _ => hfunded.2
  cases client with
  | error e => exact post_backed hbacked
  | ok =>
    refine runs_call rfl fun i w _ => ?_
    cases i.answers (.getGuestStatus workload.kind workload.node workload.vmid) with
    | error e => exact post_backed hbacked
    | ok current =>
      simp only
      split
      · exact post_backed hbacked
      refine within_perform ⟨rfl, fun _ he => (by cases he), fun _ hf => (by cases hf)⟩
        fun i w θ' w' a hmay hx => ?_
      have hout : (RunnerOp.call (.deleteGuest workload.kind workload.node workload.vmid)).exec rt i θ w
          = (θ', w', a) := Option.some.inj hx
      cases hout
      have hcost : (budget rt carriedOut completes).cost
          (.call (.deleteGuest workload.kind workload.node workload.vmid)) i θ w =
          (1, if completes then (carriedOut w.calls.length).toNat else 0) := rfl
      have hanswered (hc : completes = true) (hcarried : carriedOut w.calls.length = true) :
          (i.answers (.deleteGuest workload.kind workload.node workload.vmid)).toOption.isSome = true := by
        have := (Bool.and_eq_true_iff.mp (hmay hc)).2
        simpa [hcarried] using this
      refine ⟨(n.1 - 1, n.2 - (if completes then (carriedOut w.calls.length).toNat else 0)), ?_, ?_⟩
      · rw [hcost]
        have hle : (if completes then (carriedOut w.calls.length).toNat else 0) ≤ n.2 := by
          refine le_trans ?_ hfunded.2
          split
          · exact Bool.toNat_le _
          · exact Nat.zero_le _
        exact ⟨show 1 + (n.1 - 1) ≤ n.1 by omega, le_of_eq (Nat.add_sub_of_le hle)⟩
      · cases hanswer : i.answers (.deleteGuest workload.kind workload.node workload.vmid) with
        | error e =>
          rw [hanswer] at hanswered
          refine fun _ _ hc => ?_
          have hnot : carriedOut w.calls.length = false := by
            cases hcarried : carriedOut w.calls.length with
            | false => rfl
            | true => cases hanswered hc hcarried
          simp only [hc, hnot]
          exact hfunded.2
        | ok upid =>
          refine runs_still rfl rfl fun submitted => runs_still rfl rfl fun id => ?_
          refine runs_addTask fun θ' hcur => ?_
          refine runs_pollDelete _ (t := _) (by rw [hcur]) (Nat.zero_add _) (by rw [hcur]; exact hworkload)
            fun _ => hpolls

/-- What follows the admission of a deletion. -/
theorem safe_runAdminAction {operation : Operation} (hpolls : 0 < rt.settings.pveTaskMaxPollAttempts)
    (hfunded : 1 ≤ n.1 ∧ 1 ≤ n.2) :
    Safe rt (budget rt carriedOut completes) (runAdminAction rt operation .delete) n θ := by
  refine safe_session spares_session (safe_row fun workload hworkload => ?_)
  have hclient : Keeping rt (budget rt carriedOut completes)
      (fun θ => θ.current.workload.isSome = true) (openClient workload) := by
    refine only_bind (keeping_still rfl rfl) fun cluster => only_bind (keeping_still rfl rfl)
      fun credential => ?_
    split
    · split
      · exact keeping_still rfl rfl
      · exact only_done
    · exact only_done
  refine safe_then hclient (by rw [hworkload]; rfl) fun client θ hworkload => ?_
  refine within_bind (within_attempt (within_mono (fun r n θ hpost => ?_)
    (runs_delete hworkload hpolls hfunded)))
  cases r with
  | ok => trivial
  | error e =>
    cases e with
    | app error =>
      have hbacked : Backed completes n := hpost error rfl
      refine safe_then (J := Any) keeping_now trivial fun time θ _ => ?_
      split
      · exact runs_failed OperationStatus.timeout_ne hbacked
      · exact runs_failed OperationStatus.failed_ne hbacked
    | _ => trivial

end Programs

/-! ### Admission -/

section Admission
variable {rt : Runtime} {i : Input} {θ θ' : OpState} {w w' : World} {r : Admission}

/-- What an admission of a deletion has found and done. -/
structure Started (θ : OpState) (w : World) (θ' : OpState) (w' : World) : Prop where
  kind : θ.kind = .power
  row : ∃ o, θ'.current.operation = some o ∧ o.action = .admin .delete

theorem admitAdmin_ok {o : Operation} {s : OpSession} (kind : θ.kind = .power) (row : s.operation = some o)
    (haction : o.action = .admin .delete)
    (h : admitAdmin i (θ.load s) w = (θ', w', .ok r)) : r = .ended ∨ r = .admin ∧ Started θ w θ' w' := by
  unfold admitAdmin at h
  split at h
  · exact Or.inl (refuse_ok h)
  split at h
  · exact Or.inl (refuse_ok h)
  split at h
  · obtain ⟨hr, rfl, rfl⟩ := commitStart_ok h
    refine Or.inr ⟨hr, kind, startedOperation w.clock o, ?_, haction⟩
    show s.operation.map (startedOperation w.clock) = _
    rw [row]
    rfl
  · exact Or.inl (refuse_ok h)

/-- An admission of a deletion: only the power runner makes one. -/
theorem enter_delete (hw : OfWorkload θ.operationId wid w.db)
    (h : enter rt i θ w = (θ', w', .ok r)) : r = .ended ∨ r = .admin ∧ Started θ w θ' w' := by
  unfold enter at h
  cases hk : θ.kind with
  | power =>
    simp only [hk] at h
    unfold admitPower at h
    cases ho : w.db.operations.get? θ.operationId with
    | none =>
      rw [ho] at h
      cases h
      exact Or.inl rfl
    | some o =>
      simp only [ho] at h
      split at h
      · cases h
        exact Or.inl rfl
      · have haction : o.action = .admin .delete := by rw [o.consistent, (hw o ho).1]; rfl
        rw [haction] at h
        exact admitAdmin_ok hk rfl haction h
  | backup =>
    simp only [hk] at h
    unfold admitBackup at h
    cases ho : w.db.operations.get? θ.operationId with
    | none =>
      rw [ho] at h
      cases h
      exact Or.inl rfl
    | some o =>
      simp only [ho, (hw o ho).1] at h
      cases h
      exact Or.inl rfl
  | restore =>
    simp only [hk] at h
    unfold admitRestore at h
    cases ho : w.db.operations.get? θ.operationId with
    | none =>
      rw [ho] at h
      cases h
      exact Or.inl rfl
    | some o =>
      simp only [ho, (hw o ho).1] at h
      cases h
      exact Or.inl rfl

/-- A deletion that has begun: a delivery that does not start it over, because it is another runner's, or the
operation has ended, or the database refuses its commit, changes nothing. -/
theorem enter_settled {r : Except Exn Admission} (hw : OfWorkload θ.operationId wid w.db)
    (hbegun : begun w.db θ.operationId = true)
    (hnot : θ.kind = .power → statusOf w.db θ.operationId = some .running → i.reject.isSome = true)
    (h : enter rt i θ w = (θ', w', r)) : w' = w ∧ (r = .ok .ended ∨ ∃ e, r = .error e) := by
  rcases enter_cases (θ := θ) rt i w with hended | ⟨s, o, loads, hadmits⟩
  · cases hended.symm.trans h
    exact ⟨rfl, Or.inl rfl⟩
  have found : w.db.operations.get? θ.operationId = some o := by rw [← loads.named, loads.found]
  have hpower : θ.kind = .power := by
    have haccepts := loads.accepts
    rw [(hw o found).1] at haccepts
    cases hk : θ.kind with
    | power => rfl
    | backup | restore =>
      rw [hk] at haccepts
      cases haccepts
  have hrunning : statusOf w.db θ.operationId = some .running := by
    obtain ⟨o', ho', hnotQueued⟩ := begun_iff.mp hbegun
    cases found.symm.trans ho'
    have hopen := loads.unfinished
    unfold statusOf
    rw [found]
    cases hs : o.status with
    | running => rw [Option.map_some, hs]
    | queued => exact absurd hs hnotQueued
    | succeeded | failed | timeout =>
      rw [hs] at hopen
      cases hopen
  obtain ⟨e, hreject⟩ := Option.isSome_iff_exists.mp (hnot hpower hrunning)
  rcases hadmits with hout | ⟨a, hout⟩ | ⟨code, hout⟩
  · cases hout.symm.trans h
    exact ⟨rfl, Or.inl rfl⟩
  · rw [hout] at h
    unfold commitStart commitEdits commitTo at h
    rw [hreject] at h
    cases h
    exact ⟨rfl, Or.inr ⟨e, rfl⟩⟩
  · rw [hout] at h
    unfold refuse commitFinish commitTo at h
    rw [hreject] at h
    cases h
    exact ⟨rfl, Or.inr ⟨e, rfl⟩⟩

end Admission

/-! ### Deliveries -/

structure Local (rt : Runtime) (carriedOut : Nat → Bool) (completes : Bool) (k wid : Uuid) (θ : OpState)
    (p : OpProg Unit) (n : Amount) (w : World) : Prop where
  sound : θ.Sound
  named : θ.operationId = k
  holds : Holds wid θ w.db
  stage : Stage rt (budget rt carriedOut completes) k θ p n

/-- What the states of a run satisfy. -/
def Kept (k wid : Uuid) (w : World) : Prop := OfWorkload k wid w.db ∧ Gone k wid w.db

section Deliveries
variable {rt : Runtime} {carriedOut : Nat → Bool} {completes : Bool} {w w' : World} {θ θ' : OpState} {n n' : Amount}

/-- A delivery that is not admitted does nothing more. -/
theorem safe_unadmitted {r : Except Exn Admission} {f : Except Exn Admission → OpProg Unit} {kind : RunnerKind}
    (hf : OpMessage.program rt ⟨kind, k⟩ = .node .enter f) (hr : r = .ok .ended ∨ ∃ e, r = .error e) (n : Amount) :
    Safe rt (budget rt carriedOut completes) (f r) n θ := by
  rcases hr with rfl | ⟨e, rfl⟩ <;> cases kind <;> cases hf <;> trivial

/-- **The admission** of a delivery gives it what one submission and one failure cost, or nothing. -/
theorem entered_next {i : Input} {r : Except Exn Admission} {f : Except Exn Admission → OpProg Unit}
    (hw : OfWorkload k wid w.db) (hk : θ.operationId = k)
    (hf : OpMessage.program rt ⟨θ.kind, k⟩ = .node .enter f) (hentered : enter rt i θ w = (θ', w', r)) :
    Safe rt (budget rt carriedOut completes) (f r) (1, 1) θ' := by
  cases r with
  | error e => exact safe_unadmitted hf (Or.inr ⟨e, rfl⟩) _
  | ok r =>
    rw [← hk] at hw
    rcases enter_delete hw hentered with rfl | ⟨rfl, hstarted⟩
    · exact safe_unadmitted hf (Or.inl rfl) _
    obtain ⟨operation, hrow, haction⟩ := hstarted.row
    rw [hstarted.kind] at hf
    cases hf
    refine safe_session spares_session (safe_row fun operation' ho' => ?_)
    have : operation = operation' := Option.some.inj (hrow.symm.trans ho')
    rw [← this, haction]
    exact safe_runAdminAction rt.settings.attempts.1 ⟨le_rfl, le_rfl⟩

theorem effect_ofWorkload {now : Instant} {ρ : Type} {op : RunnerOp ρ} {db db' : Db}
    (he : OpEffect now op θ db θ' db') (hs : θ.Sound) (hw : OfWorkload k wid db) :
    OfWorkload k wid db' := by
  intro o' ho'
  obtain ⟨g, hg, hrow⟩ := effect_row he hs k
  rw [hg] at ho'
  obtain ⟨o, ho, rfl⟩ := Option.map_eq_some_iff.mp ho'
  rw [(hrow o ho).type, (hrow o ho).workload]
  exact hw o ho

/-- What an operation of a delivery leaves, where the delivery stands well behind it. -/
theorem local_next {ρ : Type} {o : RunnerOp ρ} {p : OpProg Unit} {rest : ρ → OpProg Unit} {i : Input} {r : ρ}
    (hI : Kept k wid w) (hL : Local rt carriedOut completes k wid θ p n w)
    (hexec : (opMachine rt).exec o i θ w = some (θ', w', r))
    (hassigned : ∀ e, o.assigned = some e → Lowering e)
    (hfinish : ∀ f, o.finishWith = some f → f.status = .succeeded →
      ∃ c, θ.current.workload = some c ∧ c.isPresent = false)
    (hstage : Stage rt (budget rt carriedOut completes) k θ' (rest r) n') :
    Kept k wid w' ∧ (present w'.db wid = true → present w.db wid = true) ∧
      Local rt carriedOut completes k wid θ' (rest r) n' w' := by
  have heffect := exec_effect rt hexec
  obtain ⟨hsound, hid, -⟩ := effect_sound heffect hL.sound
  have hw : OfWorkload θ.operationId wid w.db := by
    rw [hL.named]
    exact hI.1
  obtain ⟨hholds, hpresent⟩ := effect_holds heffect hL.holds hw hassigned
  exact ⟨⟨effect_ofWorkload heffect hL.sound hI.1, effect_gone heffect hL.sound hL.holds hw hassigned hI.2 hfinish⟩,
    hpresent, hsound, hid.trans hL.named, hholds, hstage⟩

variable (carriedOut) in
/-- The submissions an operation of a delivery makes, and those that are carried out. -/
theorem exec_submissions {ρ : Type} {o : RunnerOp ρ} {i : Input} {r : ρ} (hk : θ.operationId = k)
    (hexec : (opMachine rt).exec o i θ w = some (θ', w', r)) :
    submissions k w' = submissions k w + (calls deletion o).toNat ∧
      deleted carriedOut k w' = deleted carriedOut k w + (calls deletion o && carriedOut w.calls.length).toNat := by
  have hcounts : (submissions k w', deleted carriedOut k w') =
      (submissions k w, deleted carriedOut k w) + _ := exec_counts hexec
  rw [hk, beq_self_eq_true, Bool.and_true] at hcounts
  have hfst : submissions k w' = _ := congrArg Prod.fst hcounts
  have hsnd : deleted carriedOut k w' = _ := congrArg Prod.snd hcounts
  rw [hfst, hsnd]
  cases calls deletion o <;> cases carriedOut w.calls.length <;> exact ⟨rfl, rfl⟩

end Deliveries

/-! ### Conditions -/

/-- The power runner is about to start over an operation that is `RUNNING` and has been submitted. -/
def startsOver (k : Uuid) (θ : OpState) (p : OpProg Unit) (i : Input) (w : World) : Bool :=
  match p with
  | .node o _ => o.enters && θ.kind == .power && statusOf w.db k == some .running && i.reject.isNone &&
      submissions k w != 0
  | .done _ => false

/-- What the rest of the program may do to the operation and its workload: request the
operation, or find that the guest is gone. -/
structure Outside (carriedOut : Nat → Bool) (k wid : Uuid) (w w' : World) : Prop where
  type : OfWorkload k wid w'.db
  status : statusOf w'.db k = statusOf w.db k ∨
    statusOf w.db k = none ∧ statusOf w'.db k = some .queued
  submissions : submissions k w' = submissions k w
  deleted : deleted carriedOut k w' = deleted carriedOut k w
  present : present w'.db wid = true → present w.db wid = true

/-- Deliveries of the operation, none of which starts over what has been submitted, with Proxmox's answers. -/
def deliveries (rt : Runtime) (carriedOut : Nat → Bool) (completes : Bool) (k wid : Uuid) :
    Conditions Exn RunnerOp OpState World Input OpMessage where
  spawn m _ := m.operationId = k
  step θ p i w := startsOver k θ p i w = false ∧ (completes = true → match p with
    | .node o _ => answered rt carriedOut o i θ w = true
    | .done _ => True)
  env w w' := Outside carriedOut k wid w w'

/-- A delivery is about to submit the deletion. -/
def submits (p : OpProg Unit) : Bool :=
  match p with
  | .node o _ => calls deletion o
  | .done _ => false

/-- A delivery has been admitted and has not ended. -/
def underway (p : OpProg Unit) : Bool :=
  match p with
  | .node o _ => !o.enters
  | .done _ => false

/-- Who submits the deletion is the only delivery under way, and none has ended the operation before. -/
def Alone (k : Uuid) (s : OpSys) : OpAction → Prop
  | .step pid _ => ∀ θ p, s.procs pid = some (θ, p) → submits p = true → statusOf s.shared.db k = some .running ∧
      ∀ q, q ≠ pid → ∀ θ' p', s.procs q = some (θ', p') → underway p' = false
  | _ => True

/-! ### Before the submission -/

section Before
variable {rt : Runtime} {carriedOut : Nat → Bool} {completes : Bool}

/-- The deliveries' operations but for the submission. -/
def preparing (rt : Runtime) (carriedOut : Nat → Bool) (completes : Bool) (k wid : Uuid) :
    Conditions Exn RunnerOp OpState World Input OpMessage where
  spawn m _ := m.operationId = k
  step θ p i w := submits p = false ∧ (deliveries rt carriedOut completes k wid).step θ p i w
  env w w' := Outside carriedOut k wid w w'

theorem kept_outside {w w' : World} (hI : Kept k wid w) (h : Outside carriedOut k wid w w') : Kept k wid w' := by
  refine ⟨h.type, fun hsucceeded => ?_⟩
  have hbefore : statusOf w.db k = some .succeeded := by
    rcases h.status with hsame | ⟨-, hqueued⟩
    · rw [← hsame, hsucceeded]
    · rw [hqueued] at hsucceeded
      cases hsucceeded
  have habsent := hI.2 hbefore
  cases hp : present w'.db wid with
  | false => rfl
  | true => rw [h.present hp] at habsent; cases habsent

theorem local_start {m : OpMessage} {w : World} (hm : m.operationId = k) :
    Local rt carriedOut completes k wid { kind := m.task, operationId := m.operationId } (m.program rt) 0 w := by
  refine ⟨sound_start m.task m.operationId, hm, ⟨fun _ hl => ?_, fun _ hc => ?_⟩, ?_⟩
  · cases hl
  · cases hc
  · exact .waiting (by rw [← hm]) rfl

/-- **Before the submission** any number of deliveries may be admitted; each could still make it. -/
theorem before (carriedOut : Nat → Bool) (completes : Bool) (k wid : Uuid) :
    Protocol (opMachine rt) (preparing rt carriedOut completes k wid) (fun w => Kept k wid w ∧ submissions k w = 0)
      (fun θ p w => ∃ n ≤ ((1, 1) : Amount), Local rt carriedOut completes k wid θ p n w)
      (fun w w' => present w'.db wid = true → present w.db wid = true) where
  refl _ := id
  start _ _ _ hm := ⟨0, ⟨Nat.zero_le _, Nat.zero_le _⟩, local_start hm⟩
  step o rest i θ θ' w w' r hI hL hcond hexec := by
    obtain ⟨⟨hkept, hnone⟩, n, hn, hL⟩ := hI, hL
    obtain ⟨hplain, -, hanswered⟩ := hcond
    have hplain : calls deletion o = false := hplain
    have hnone' : submissions k w' = 0 := by
      rw [(exec_submissions carriedOut hL.named hexec).1, hnone, hplain]
      rfl
    cases hL.stage with
    | waiting program nothing =>
      obtain ⟨f, hf⟩ := program_enter rt θ.kind k
      cases program.trans hf
      have hsafe : Safe rt (budget rt carriedOut completes) (f r) (1, 1) θ' :=
        entered_next hkept.1 hL.named hf (Option.some.inj hexec)
      obtain ⟨hkept', hpresent, hL'⟩ := local_next hkept hL hexec (fun e he => by cases he) (fun f hf => by cases hf)
        (.admitted hsafe)
      exact ⟨⟨hkept', hnone'⟩, hpresent, (1, 1), le_rfl, hL'⟩
    | admitted safe =>
      obtain ⟨⟨-, hassigned, hfinish⟩, hnext⟩ := safe
      obtain ⟨n', hcost, hsafe⟩ := hnext i w θ' w' r hanswered hexec
      obtain ⟨hkept', hpresent, hL'⟩ := local_next hkept hL hexec hassigned hfinish (.admitted hsafe)
      exact ⟨⟨hkept', hnone'⟩, hpresent, n', le_trans le_add_self (le_trans hcost hn), hL'⟩
  drop _ _ w hI _ _ := ⟨hI, id⟩
  env w w' hI h := ⟨⟨kept_outside hI.1 h, h.submissions.trans hI.2⟩, h.present⟩
  stable _ _ _ _ hG hL := by
    obtain ⟨n, hn, hL⟩ := hL
    exact ⟨n, hn, hL.sound, hL.named, hL.holds.mono hG, hL.stage⟩

end Before

/-! ### From the submission on -/

/-- What has been spent. -/
def account (carriedOut : Nat → Bool) (completes : Bool) (k : Uuid) (w : World) : Amount :=
  (submissions k w, if completes then deleted carriedOut k w + (failed w.db k).toNat else 0)

/-- A deletion that has been submitted. -/
structure Submitted (k wid : Uuid) (w : World) : Prop where
  kept : Kept k wid w
  begun : begun w.db k = true
  made : submissions k w ≠ 0

section After
variable {rt : Runtime} {carriedOut : Nat → Bool} {completes : Bool} {w w' : World} {θ θ' : OpState} {n n' : Amount}

/-- What a session's operation does to the account. -/
theorem account_performed {ρ : Type} {o : RunnerOp ρ} {i : Input} {r : ρ} (hs : θ.Sound) (hk : θ.operationId = k)
    (hop : o.enters = false) (hexec : (opMachine rt).exec o i θ w = some (θ', w', r)) :
    account carriedOut completes k w' ≤ account carriedOut completes k w + (budget rt carriedOut completes).cost o i θ w := by
  have hfailed := effect_failed (k := k) (exec_effect rt hexec) hs hop
  obtain ⟨hsubmissions, hdeleted⟩ := exec_submissions carriedOut hk hexec
  unfold account
  rw [hsubmissions, hdeleted]
  cases completes with
  | false => exact le_rfl
  | true =>
    refine ⟨le_rfl, ?_⟩
    show deleted carriedOut k w + _ + (failed w'.db k).toNat ≤
      deleted carriedOut k w + (failed w.db k).toNat + (_ + failing o)
    omega

/-- **From the submission on** the deliveries spend no more than what one submission and one failure cost. -/
theorem ledger (rt : Runtime) (carriedOut : Nat → Bool) (completes : Bool) (k wid : Uuid) :
    Ledger (opMachine rt) (deliveries rt carriedOut completes k wid) (Submitted k wid)
      (fun θ p n w => Local rt carriedOut completes k wid θ p n w)
      (fun w w' => present w'.db wid = true → present w.db wid = true)
      (account carriedOut completes k) (1, 1) where
  refl _ := id
  start _ _ _ hm := local_start hm
  step o rest i θ θ' n w w' r hI hL _ hcond hexec := by
    obtain ⟨hstarts, hanswered⟩ := hcond
    have hbegun := effect_begun (exec_effect rt hexec) hL.sound hI.begun
    have hmade : submissions k w' ≠ 0 := by
      rw [(exec_submissions carriedOut hL.named hexec).1]
      exact Nat.ne_of_gt (Nat.add_pos_left (Nat.pos_of_ne_zero hI.made) _)
    cases hL.stage with
    | waiting program nothing =>
      obtain ⟨f, hf⟩ := program_enter rt θ.kind k
      cases program.trans hf
      have hstarts : (true && θ.kind == .power && statusOf w.db k == some .running && i.reject.isNone &&
        submissions k w != 0) = false := hstarts
      have hnot (hpower : θ.kind = .power) (hrunning : statusOf w.db k = some .running) : i.reject.isSome = true := by
        simpa [hpower, hrunning, hI.made, Option.isSome_iff_ne_none] using hstarts
      obtain ⟨rfl, hr⟩ := enter_settled (by rw [hL.named]; exact hI.kept.1) (by rw [hL.named]; exact hI.begun)
        (by rw [hL.named]; exact hnot) (Option.some.inj hexec)
      obtain ⟨hkept, hpresent, hL'⟩ := local_next hI.kept hL hexec (fun e he => by cases he) (fun f hf => by cases hf)
        (.admitted (safe_unadmitted hf hr n))
      exact ⟨⟨hkept, hbegun, hmade⟩, hpresent, n, le_rfl, hL'⟩
    | admitted safe =>
      obtain ⟨⟨hop, hassigned, hfinish⟩, hnext⟩ := safe
      obtain ⟨n', hcost, hsafe⟩ := hnext i w θ' w' r hanswered hexec
      obtain ⟨hkept, hpresent, hL'⟩ := local_next hI.kept hL hexec hassigned hfinish (.admitted hsafe)
      refine ⟨⟨hkept, hbegun, hmade⟩, hpresent, n', ?_, hL'⟩
      calc account carriedOut completes k w' + n'
          ≤ account carriedOut completes k w + (budget rt carriedOut completes).cost o i θ w + n' := by
            gcongr
            exact account_performed hL.sound hL.named hop hexec
        _ = account carriedOut completes k w + ((budget rt carriedOut completes).cost o i θ w + n') := add_assoc _ _ _
        _ ≤ account carriedOut completes k w + n := by gcongr
  drop _ _ _ w hI _ := ⟨hI, id, le_rfl⟩
  env w w' hI h := by
    have hfailed : failed w'.db k = failed w.db k := by
      unfold failed
      rcases h.status with hsame | ⟨hnone, hqueued⟩
      · rw [hsame]
      · rw [hnone, hqueued]
        rfl
    refine ⟨⟨kept_outside hI.kept h, Routing.begun_outside h.status hI.begun, ?_⟩, h.present, le_of_eq ?_⟩
    · rw [h.submissions]
      exact hI.made
    · unfold account
      rw [h.submissions, h.deleted, hfailed]
  stable _ _ _ w w' hG hL := ⟨hL.sound, hL.named, hL.holds.mono hG, hL.stage⟩

end After

/-! ### Runs -/

/-- Where a run stands. -/
inductive Course (rt : Runtime) (carriedOut : Nat → Bool) (completes : Bool) (k wid : Uuid) (s : OpSys) : Prop
  | before (holds : s.Holds (fun w => Kept k wid w ∧ submissions k w = 0)
      (fun θ p w => ∃ n ≤ ((1, 1) : Amount), Local rt carriedOut completes k wid θ p n w))
  | after (accounted : s.Accounted (Submitted k wid) (fun θ p n w => Local rt carriedOut completes k wid θ p n w)
      (account carriedOut completes k) (1, 1))

/-- The condition on an action of a run. -/
def Orderly (rt : Runtime) (carriedOut : Nat → Bool) (completes : Bool) (k wid : Uuid) (s : OpSys) (a : OpAction) : Prop :=
  (deliveries rt carriedOut completes k wid).Met s a ∧ Alone k s a

variable {rt : Runtime} {carriedOut : Nat → Bool} {completes : Bool}

/-- A delivery that is not under way needs nothing in hand. -/
theorem local_idle {θ : OpState} {p : OpProg Unit} {n : Amount} {w : World}
    (hL : Local rt carriedOut completes k wid θ p n w) (hidle : underway p = false) :
    Local rt carriedOut completes k wid θ p 0 w := by
  refine ⟨hL.sound, hL.named, hL.holds, ?_⟩
  cases hL.stage with
  | waiting program nothing => exact .waiting program rfl
  | admitted safe =>
    cases p with
    | done r => exact .admitted trivial
    | node o rest =>
      have henters : (!o.enters) = false := hidle
      rw [safe.1.1] at henters
      cases henters

/-- **The submission**: the one delivery under way pays for it, and the others have nothing in hand. -/
theorem course_submitted {s : OpSys} {pid : Nat} {i : Input} {θ θ' : OpState} {ρ : Type} {o : RunnerOp ρ}
    {rest : ρ → OpProg Unit} {w' : World} {r : ρ}
    (hs : s.Holds (fun w => Kept k wid w ∧ submissions k w = 0)
      (fun θ p w => ∃ n ≤ ((1, 1) : Amount), Local rt carriedOut completes k wid θ p n w))
    (hp : s.procs pid = some (θ, .node o rest)) (hdeletes : calls deletion o = true)
    (hcond : (deliveries rt carriedOut completes k wid).step θ (.node o rest) i s.shared)
    (hrunning : statusOf s.shared.db k = some .running)
    (halone : ∀ q, q ≠ pid → ∀ θ' p', s.procs q = some (θ', p') → underway p' = false)
    (hexec : (opMachine rt).exec o i θ s.shared = some (θ', w', r)) :
    (Sys.setProc { s with shared := w' } pid (some (θ', rest r))).Accounted (Submitted k wid)
      (fun θ p n w => Local rt carriedOut completes k wid θ p n w) (account carriedOut completes k) (1, 1) := by
  obtain ⟨⟨hkept, hnone⟩, heach⟩ := hs
  obtain ⟨n, hn, hL⟩ := heach pid θ _ hp
  cases hL.stage with
  | waiting program nothing =>
    obtain ⟨f, hf⟩ := program_enter rt θ.kind k
    cases program.trans hf
    cases hdeletes
  | admitted safe =>
    obtain ⟨⟨hop, hassigned, hfinish⟩, hnext⟩ := safe
    obtain ⟨n', hcost, hsafe⟩ := hnext i s.shared θ' w' r hcond.2 hexec
    obtain ⟨hkept', hpresent, hL'⟩ := local_next hkept hL hexec hassigned hfinish (.admitted hsafe)
    have hbegun : begun s.shared.db k = true := by
      rw [Routing.begun_status, hrunning]
      rfl
    have hmade : submissions k w' ≠ 0 := by
      rw [(exec_submissions carriedOut hL.named hexec).1, hdeletes]
      exact Nat.succ_ne_zero _
    have hnothing : account carriedOut completes k s.shared = 0 := by
      have hdeleted : deleted carriedOut k s.shared = 0 := Nat.le_zero.mp (hnone ▸ carriedCount_le s.shared)
      have hfailed : failed s.shared.db k = false := by
        unfold failed
        rw [hrunning]
        rfl
      unfold account
      rw [hnone, hdeleted, hfailed]
      cases completes <;> rfl
    refine ⟨⟨hkept', effect_begun (exec_effect rt hexec) hL.sound hbegun, hmade⟩, Finsupp.single pid n',
      fun q θ₁ p₁ hq => ?_, ?_⟩
    · by_cases hqp : q = pid
      · rw [hqp, Sys.setProc_same] at hq
        cases hq
        rw [hqp, Finsupp.single_eq_same]
        exact hL'
      · rw [Sys.setProc_of_ne _ _ hqp] at hq
        rw [Finsupp.single_eq_of_ne hqp]
        obtain ⟨n₁, -, hL₁⟩ := heach q θ₁ p₁ hq
        have hidle := local_idle hL₁ (halone q hqp θ₁ p₁ hq)
        exact ⟨hidle.sound, hidle.named, hidle.holds.mono hpresent, hidle.stage⟩
    · rw [Finsupp.sum_single_index rfl]
      calc account carriedOut completes k w' + n'
          ≤ account carriedOut completes k s.shared + (budget rt carriedOut completes).cost o i θ s.shared + n' := by
            gcongr
            exact account_performed hL.sound hL.named hop hexec
        _ = (budget rt carriedOut completes).cost o i θ s.shared + n' := by rw [hnothing, zero_add]
        _ ≤ (1, 1) := le_trans hcost hn

/-- **One action** keeps a run on its course. -/
theorem course_next {s : OpSys} {a : OpAction} (hs : Course rt carriedOut completes k wid s)
    (ha : Orderly rt carriedOut completes k wid s a) : Course rt carriedOut completes k wid (s.next (opMachine rt) a) := by
  obtain ⟨hmet, halone⟩ := ha
  cases hs with
  | after accounted => exact .after ((ledger rt carriedOut completes k wid).accounted_next accounted hmet)
  | before holds =>
    have prepared (h : (preparing rt carriedOut completes k wid).Met s a) :
        Course rt carriedOut completes k wid (s.next (opMachine rt) a) :=
      .before ((before carriedOut completes k wid).holds_next holds h).1
    cases a with
    | spawn pid m => exact prepared hmet
    | env f => exact prepared hmet
    | crash pid => exact prepared hmet
    | step pid i =>
      cases hp : s.procs pid with
      | none => exact prepared (by simp only [Conditions.Met, hp])
      | some proc =>
        obtain ⟨θ, p⟩ := proc
        simp only [Conditions.Met, hp] at hmet
        cases hdeletes : submits p with
        | false => exact prepared (by simp only [Conditions.Met, hp]; exact ⟨hdeletes, hmet⟩)
        | true =>
          cases p with
          | done r => cases hdeletes
          | node o rest =>
            obtain ⟨hrunning, hothers⟩ := halone θ _ hp hdeletes
            obtain ⟨out, hexec⟩ : ∃ out, (opMachine rt).exec o i θ s.shared = some out := ⟨_, rfl⟩
            obtain ⟨θ', w', r⟩ := out
            have hnext := course_submitted holds hp hdeletes hmet hrunning hothers hexec
            simp only [Sys.next, hp, hexec]
            exact .after hnext

/-- The operation as its request inserts it, or not yet there, and nothing done for it. -/
def Requested (k wid : Uuid) (w : World) : Prop :=
  OfWorkload k wid w.db ∧ begun w.db k = false ∧ submissions k w = 0

variable (rt) in
/-- The state after a run of deliveries. -/
def reached (w : World) (actions : List OpAction) : World :=
  (runFrom (Sys.next (opMachine rt)) (Sys.idle w) actions).shared

/-- What a deletion promises: one submission, and that a deletion which Proxmox completes is
recorded as a success when the operation ends. -/
structure Settles (carriedOut : Nat → Bool) (completes : Bool) (k wid : Uuid) (w : World) : Prop where
  once : submissions k w ≤ 1
  recorded : completes = true → deleted carriedOut k w ≠ 0 → failed w.db k = false ∧
    (statusOf w.db k = some .succeeded → present w.db wid = false)

theorem Course.settles {s : OpSys} (h : Course rt carriedOut completes k wid s) :
    Settles carriedOut completes k wid s.shared := by
  cases h with
  | before holds =>
    obtain ⟨-, hnone⟩ := holds.shared
    refine ⟨hnone.le.trans (Nat.zero_le 1), fun _ hdeleted => absurd ?_ hdeleted⟩
    exact Nat.le_zero.mp (hnone ▸ carriedCount_le s.shared)
  | after accounted =>
    have hle := Ledger.account_le accounted
    refine ⟨hle.1, fun hc hnot => ⟨?_, accounted.shared.kept.2⟩⟩
    have hsecond := hle.2
    simp only [account, hc, if_true] at hsecond
    cases hf : failed s.shared.db k with
    | false => rfl
    | true =>
      rw [hf] at hsecond
      have : deleted carriedOut k s.shared + 1 ≤ 1 := hsecond
      omega

variable (rt) in
/-- **A deletion settles** over every run of its deliveries in which the delivery that submits it is the only one
under way, none starts it over afterwards and, if Proxmox completes the deletion, it answers. -/
theorem deletion_settles (carriedOut : Nat → Bool) (completes : Bool) (k wid : Uuid) (w : World)
    (hw : Requested k wid w) (actions : List OpAction)
    (hrun : Along (Sys.next (opMachine rt)) (Orderly rt carriedOut completes k wid) (Sys.idle w) actions) :
    Settles carriedOut completes k wid (reached rt w actions) := by
  obtain ⟨hof, hbegun, hnone⟩ := hw
  have hkept : Kept k wid w := by
    refine ⟨hof, fun hsucceeded => ?_⟩
    rw [Routing.begun_status, hsucceeded] at hbegun
    cases hbegun
  have hstart : Course rt carriedOut completes k wid (Sys.idle w) := .before (Sys.holds_idle ⟨hkept, hnone⟩)
  exact (run_invariant (fun _ _ hs ha => course_next hs ha) hstart hrun).settles

/-! A deletion that is delivered again after its UPID has been persisted. -/

instance (k wid : Uuid) (db : Db) : Decidable (OfWorkload k wid db) :=
  decidable_of_iff ((db.operations.get? k).all
      (fun o => o.operationType == .vmDelete && o.workloadId == wid) = true) (by
    unfold OfWorkload
    cases db.operations.get? k <;> simp)

instance (k wid : Uuid) (w : World) : Decidable (Requested k wid w) :=
  inferInstanceAs (Decidable (_ ∧ _))

instance (carriedOut : Nat → Bool) (completes : Bool) (k wid : Uuid) (w : World) :
    Decidable (Settles carriedOut completes k wid w) :=
  decidable_of_iff (submissions k w ≤ 1 ∧ (completes = true → deleted carriedOut k w ≠ 0 →
      failed w.db k = false ∧ (statusOf w.db k = some .succeeded → present w.db wid = false)))
    ⟨fun h => ⟨h.1, h.2⟩, fun h => ⟨h.once, h.recorded⟩⟩

instance (carriedOut : Nat → Bool) (k wid : Uuid) (w w' : World) :
    Decidable (Outside carriedOut k wid w w') :=
  decidable_of_iff (OfWorkload k wid w'.db ∧ (statusOf w'.db k = statusOf w.db k ∨
      statusOf w.db k = none ∧ statusOf w'.db k = some .queued) ∧
    submissions k w' = submissions k w ∧ deleted carriedOut k w' = deleted carriedOut k w ∧
    (present w'.db wid = true → present w.db wid = true))
    ⟨fun h => ⟨h.1, h.2.1, h.2.2.1, h.2.2.2.1, h.2.2.2.2⟩,
      fun h => ⟨h.type, h.status, h.submissions, h.deleted, h.present⟩⟩

section Conditions
variable (carriedOut : Nat → Bool) (completes : Bool) (k wid : Uuid)

instance (m : OpMessage) (w : World) :
    Decidable ((deliveries rt carriedOut completes k wid).spawn m w) :=
  inferInstanceAs (Decidable (m.operationId = k))

instance (θ : OpState) (p : OpProg Unit) (i : Input) (w : World) :
    Decidable ((deliveries rt carriedOut completes k wid).step θ p i w) :=
  match p with
  | .node o _ => inferInstanceAs (Decidable (_ ∧ (_ → answered rt carriedOut o i θ w = true)))
  | .done _ => .isTrue ⟨rfl, fun _ => trivial⟩

instance (θ : OpState) (p : OpProg Unit) (w : World) :
    Decidable ((deliveries rt carriedOut completes k wid).crash θ p w) := .isTrue trivial

instance (w w' : World) : Decidable ((deliveries rt carriedOut completes k wid).env w w') :=
  inferInstanceAs (Decidable (Outside carriedOut k wid w w'))

end Conditions

/-- `Alone` where only the first `n` deliveries have been started, which can be checked. -/
def aloneAmong (n : Nat) (k : Uuid) (s : OpSys) : OpAction → Bool
  | .spawn pid _ => decide (pid < n)
  | .step pid _ =>
    match s.procs pid with
    | none => true
    | some (_, p) => !submits p || (statusOf s.shared.db k == some .running &&
        (List.range n).all fun q => q == pid || !(s.procs q).any fun proc => underway proc.2)
  | _ => true

theorem alone_among {n : Nat} {s : OpSys} {a : OpAction} (hs : ∀ q, n ≤ q → s.procs q = none)
    (h : aloneAmong n k s a = true) : Alone k s a := by
  cases a with
  | spawn pid m => trivial
  | env f => trivial
  | crash pid => trivial
  | step pid i =>
    intro θ p hp hsubmits
    simp only [aloneAmong, hp, hsubmits, Bool.not_true, Bool.false_or, Bool.and_eq_true, beq_iff_eq] at h
    refine ⟨h.1, fun q hq θ' p' hp' => ?_⟩
    have hlt : q < n := by
      by_contra hge
      rw [hs q (Nat.le_of_not_lt hge)] at hp'
      cases hp'
    have hall := List.all_eq_true.mp h.2 q (List.mem_range.mpr hlt)
    simpa [hq, hp'] using hall

/-- A fixed run is checked for its conditions delivery by delivery. -/
theorem orderly_of_among {n : Nat} {w : World} {actions : List OpAction}
    (h : Along (Sys.next (opMachine rt))
      (fun s a => (deliveries rt carriedOut completes k wid).inside.Met s a ∧ aloneAmong n k s a = true)
      (Sys.idle w) actions) :
    Along (Sys.next (opMachine rt)) (Orderly rt carriedOut completes k wid) (Sys.idle w) actions := by
  refine along_of_invariant (I := fun s => ∀ q, n ≤ q → s.procs q = none) (fun s a hs ha => ?_)
    (fun s a hs ha => ⟨Conditions.met_inside ha.1, alone_among hs ha.2⟩) (fun _ _ => rfl) h
  refine fun q hq => Sys.procs_none_next _ (hs q hq) ?_
  rintro m rfl
  exact absurd hq (Nat.not_le_of_lt (of_decide_eq_true ha.2))

/-- A guest that is stopped, and a deletion that is answered with a UPID. -/
def deleting (upid : String) (id : Uuid) : Input :=
  { sampleInput "stopped" with
    answers := fun r => match r with
      | .deleteGuest .. => .ok upid
      | r => sampleAnswers "stopped" r
    uuid := fun _ => id }

/-- The first operations of a delivery. -/
def delivery (pid steps : Nat) (upid : String) : List OpAction :=
  .spawn pid ⟨.power, 1⟩ :: List.replicate steps (.step pid (deleting upid (100 + pid)))

/-- A delivery up to the commit of its task. -/
def submitting (pid : Nat) (upid : String) : List OpAction := delivery pid 11 upid

/-- A delivery dies before the submission, the next one submits, and others come while it polls and after it. -/
theorem deletion_settles_once :
    Settles (· == 1) true 1 1 (reached asciiRuntime (sampleWorld .vmDelete)
      (delivery 0 5 "UPID:0" ++ .crash 0 :: submitting 1 "UPID:1" ++ .spawn 2 ⟨.backup, 1⟩ ::
        List.replicate 3 (.step 2 (deleting "UPID:2" 102)) ++ List.replicate 12 (.step 1 (deleting "UPID:1" 101)) ++
        delivery 3 5 "UPID:3")) :=
  deletion_settles asciiRuntime (· == 1) true 1 1 _ (by decide) _ (orderly_of_among (n := 4) (by decide +kernel))

/-- **Two deliveries at once**: both are admitted before either has submitted, and each submits. -/
theorem deletion_overlapped : submissions 1 (reached asciiRuntime (sampleWorld .vmDelete)
    (delivery 0 5 "UPID:0" ++ submitting 1 "UPID:1" ++ List.replicate 6 (.step 0 (deleting "UPID:0" 100)))) = 2 := by
  decide +kernel

/-- The guest is gone, and every call that names it is answered with a 5xx. -/
def gone : Input :=
  { sampleInput "stopped" with
    answers := fun _ =>
      .error (.app ⟨502, "PVE_UPSTREAM_ERROR", "The Proxmox API returned a server error.", []⟩) }

/-- Two more deliveries submit the deletion again, each after a crash of the one before, and
a fourth does not find the guest. -/
def resubmits : List OpAction :=
  .crash 0 :: submitting 1 "UPID:2" ++ .crash 1 :: submitting 2 "UPID:3" ++
    .crash 2 :: .spawn 3 ⟨.power, 1⟩ :: List.replicate 9 (.step 3 gone)

/-- **A deletion submitted again** after its UPID has been persisted, and a completed one
that ends `FAILED` with its workload present. -/
theorem deletion_resubmitted : Requested 1 1 (sampleWorld .vmDelete) ∧
    (taskOf (reached asciiRuntime (sampleWorld .vmDelete) (submitting 0 "UPID:1")).db 1).isSome = true ∧
    ¬ submissions 1 (reached asciiRuntime (sampleWorld .vmDelete) (submitting 0 "UPID:1" ++ resubmits)) ≤
      submissions 1 (reached asciiRuntime (sampleWorld .vmDelete) (submitting 0 "UPID:1")) + 1 ∧
    ¬ Settles (· == 1) true 1 1
      (reached asciiRuntime (sampleWorld .vmDelete) (submitting 0 "UPID:1" ++ resubmits)) ∧
    deleted (· == 1) 1
      (reached asciiRuntime (sampleWorld .vmDelete) (submitting 0 "UPID:1" ++ resubmits)) = 1 ∧
    statusOf (reached asciiRuntime (sampleWorld .vmDelete) (submitting 0 "UPID:1" ++ resubmits)).db 1 =
      some .failed ∧
    present (reached asciiRuntime (sampleWorld .vmDelete) (submitting 0 "UPID:1" ++ resubmits)).db 1 =
      true := by
  decide +kernel

end PveMaster.Deletion
