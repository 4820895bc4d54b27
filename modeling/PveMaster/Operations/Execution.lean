import PveMaster.Operations.Conduct
import PveMaster.Operations.Routing

/-! How often Proxmox executes a reboot or a reset.

Whether a call was carried out is Proxmox's to know (`carriedOut`). One delivery submits the action, the one that finds the operation
`QUEUED`; but it submits again after a transport error or a 5xx, which do not say that
nothing happened. -/
namespace PveMaster.Execution

open Conduct
open Routing (OfType statusOf)

/-- A call that asks for a power action. -/
def powerSubmission : Request → Bool
  | .submitGuestPowerAction .. => true
  | _ => false

/-- The submissions of an operation's action. -/
def attempts (k : Uuid) (w : World) : Nat := callCount powerSubmission k w

/-- How often Proxmox has executed it, as only Proxmox knows. -/
def executions (carriedOut : Nat → Bool) (k : Uuid) (w : World) : Nat :=
  carriedCount powerSubmission carriedOut k w

/-- An answer that `_submit` follows with another attempt, if one is left: the error may have come
before or after the action was carried out. -/
def retried {α : Type} : Except Exn α → Bool
  | .error (.app e) => retryableCodes.contains e.code && e.code != "PVE_TIMEOUT"
  | _ => false

/-- A submission, answered in a way that does not tell what became of it. -/
def ambiguous {ρ : Type} (o : RunnerOp ρ) (i : Input) : Bool :=
  match o with
  | .call r => powerSubmission r && retried (i.answers r)
  | _ => false

variable {k : Uuid} {carriedOut : Nat → Bool}

/-! ### Admission -/

section Admission
variable {rt : Runtime} {i : Input} {θ θ' : OpState} {w w' : World} {r : Admission} {a : PowerAction}

/-- What an admission of a power action that goes on has found and done. `recovering` is the
status it found, which decides whether the action may be submitted. -/
structure Proceeds (θ : OpState) (w : World) (θ' : OpState) (w' : World) (o : Operation)
    (r : Admission) : Prop where
  recovering : r = .proceed (o.status == .running)
  unfinished : o.status.terminal = false
  row : θ'.current.operation = some (startedOperation w.clock o)
  begun : begun w'.db θ.operationId = true

theorem admitPowerAction_ok {o : Operation} {s : OpSession} (row : s.operation = some o)
    (found : w.db.operations.get? o.id = some o) (hid : o.id = θ.operationId)
    (unfinished : o.status.terminal = false)
    (h : admitPowerAction rt o s i θ w = (θ', w', .ok r)) : r = .ended ∨ Proceeds θ w θ' w' o r := by
  unfold admitPowerAction at h
  split at h
  · exact Or.inl (refuse_ok h)
  split at h
  · exact Or.inl (refuse_ok h)
  split at h
  · simp only at h
    split at h
    · cases h
      exact Or.inl rfl
    · obtain ⟨hr, rfl, rfl⟩ := commitStart_ok h
      have hbegun : begun (((θ.load { s with task := taskOf w.db o.id }).started w.clock).flush w.db) o.id =
          true := begun_started row found
      rw [hid] at hbegun
      refine Or.inr ⟨hr, unfinished, ?_, hbegun⟩
      show s.operation.map (startedOperation w.clock) = _
      rw [row]
      rfl
  · exact Or.inl (refuse_ok h)

/-- An admission of a power action: its runner goes on, no other does. -/
theorem enter_power (htype : OfType θ.operationId (.power a) w.db)
    (h : enter rt i θ w = (θ', w', .ok r)) :
    r = .ended ∨ ∃ o, w.db.operations.get? θ.operationId = some o ∧ θ.kind = .power ∧
      Proceeds θ w θ' w' o r := by
  unfold enter at h
  cases hk : θ.kind with
  | power =>
    simp only [hk] at h
    unfold admitPower at h
    cases ho : w.db.operations.get? θ.operationId with
    | none =>
      rw [ho] at h
      cases h
      exact Or.inl rfl
    | some o =>
      have hid : o.id = θ.operationId := Table.get?_key ho
      simp only [ho] at h
      split at h
      · cases h
        exact Or.inl rfl
      · next hopen =>
        have haction : o.action = .power a := by rw [o.consistent, htype o ho]; rfl
        rw [haction] at h
        exact (admitPowerAction_ok rfl (by rw [hid, ho]) hid (by simpa using hopen) h).imp id
          fun hp => ⟨o, rfl, rfl, hp⟩
  | backup =>
    simp only [hk] at h
    unfold admitBackup at h
    cases ho : w.db.operations.get? θ.operationId with
    | none =>
      rw [ho] at h
      cases h
      exact Or.inl rfl
    | some o =>
      simp only [ho, htype o ho] at h
      cases h
      exact Or.inl rfl
  | restore =>
    simp only [hk] at h
    unfold admitRestore at h
    cases ho : w.db.operations.get? θ.operationId with
    | none =>
      rw [ho] at h
      cases h
      exact Or.inl rfl
    | some o =>
      simp only [ho, htype o ho] at h
      cases h
      exact Or.inl rfl

end Admission

/-! ### What a delivery may do -/

section Programs
open Prog OpProg PowerRunner

/-- Attempts, and executions. -/
abbrev Amount : Type := Nat × Nat

/-- What has been spent, and what the row still entitles a delivery to. -/
def account (rt : Runtime) (carriedOut : Nat → Bool) (k : Uuid) (w : World) : Amount :=
  (attempts k w, executions carriedOut k w) + entitlement (rt.settings.pveActionMaxAttempts, 1) k w

/-- A submission costs an attempt, and an execution if it is carried out. One that is carried out
without a sign of it is the last, as far as this budget allows. -/
def budget (rt : Runtime) (carriedOut : Nat → Bool) (k : Uuid) :
    Budget RunnerOp OpState World Input Amount where
  may n o i _ w := account rt carriedOut k w + n ≤ (rt.settings.pveActionMaxAttempts, 1) ∧
    (ambiguous o i = true → carriedOut w.calls.length = true →
      rt.settings.pveActionMaxAttempts ≤ attempts k w + 1)
  cost o _ _ w :=
    if calls powerSubmission o then (1, if carriedOut w.calls.length then 1 else 0) else 0

variable {rt : Runtime} {n : Amount} {θ : OpState}

theorem lenient : Lenient (budget rt carriedOut k) := by
  intro ρ o ho θ
  refine ⟨trivial, fun i w => ?_⟩
  have hs : calls powerSubmission o = false := by
    cases o with
    | call r => cases r <;> first | rfl | cases ho
    | _ => rfl
  show (if calls powerSubmission o then _ else 0) = 0
  rw [hs]
  rfl

/-- The loop of `_submit` with `m` attempts left. -/
theorem safe_submit (client : Except AppError Unit) (workload : Workload) (action : PowerAction)
    (m : Nat) (n : Amount) (θ : OpState) (hm : m ≤ n.1) (hn : 1 ≤ n.2) :
    Safe rt (budget rt carriedOut k) (submit client workload action m) n θ := by
  induction m generalizing n θ with
  | zero => trivial
  | succ m ih =>
    have ended (e : AppError) (n : Amount) (θ : OpState) :
        Safe rt (budget rt carriedOut k)
          (finishFromError e true >>= fun _ => (pure none : OpProg (Option String))) n θ :=
      safe_only (only_bind (keeping_finishFromError lenient e true false) fun _ => only_done) trivial
    cases client with
    | error e =>
      show Safe rt _ (if _ then submit (.error e) workload action m else _) n θ
      split
      · exact ih n θ (by omega) hn
      · exact ended e n θ
    | ok _ =>
      refine safe_call trivial fun i w hmay => ?_
      obtain ⟨hhand, hlast⟩ := hmay
      have hattempts : attempts k w + n.1 ≤ rt.settings.pveActionMaxAttempts := by
        have hle := hhand.1
        have haccount : attempts k w ≤ (account rt carriedOut k w).1 := Nat.le_add_right _ _
        have hsum : (account rt carriedOut k w).1 + n.1 ≤ rt.settings.pveActionMaxAttempts := hle
        omega
      have hcost : (budget rt carriedOut k).cost (RunnerOp.call
          (.submitGuestPowerAction workload.kind workload.node workload.vmid action)) i θ w =
          (1, if carriedOut w.calls.length then 1 else 0) := rfl
      -- all that is left, if nothing more can be executed
      have spent : (budget rt carriedOut k).cost (RunnerOp.call
          (.submitGuestPowerAction workload.kind workload.node workload.vmid action)) i θ w +
          ((n.1 - 1, 0) : Amount) ≤ n := by
        rw [hcost]
        refine ⟨show 1 + (n.1 - 1) ≤ n.1 by omega, ?_⟩
        show (if carriedOut w.calls.length = true then 1 else 0) + 0 ≤ n.2
        split <;> omega
      generalize hanswer : i.answers (.submitGuestPowerAction workload.kind workload.node
        workload.vmid action) = answer
      cases answer with
      | ok upid => exact ⟨_, spent, trivial⟩
      | error e =>
        cases e with
        | app error =>
          simp only
          split
          · next hretry =>
            have hambiguous : ambiguous (RunnerOp.call (.submitGuestPowerAction workload.kind
                workload.node workload.vmid action)) i = true := by
              show (true && retried (i.answers _)) = true
              rw [hanswer]
              simp only [retried, Bool.true_and, Bool.and_eq_true, bne_iff_ne]
              exact ⟨hretry.1, hretry.2.1⟩
            -- an attempt is left, so this one has not been carried out
            have hnot : carriedOut w.calls.length = false := by
              cases hc : carriedOut w.calls.length with
              | false => rfl
              | true =>
                have := hlast hambiguous hc
                have := hretry.2.2
                omega
            refine ⟨(n.1 - 1, n.2), ?_, ih _ θ (show m ≤ n.1 - 1 by omega) hn⟩
            rw [hcost, hnot]
            exact ⟨show 1 + (n.1 - 1) ≤ n.1 by omega, show 0 + n.2 ≤ n.2 by omega⟩
          · exact ⟨_, spent, ended error _ θ⟩
        | _ => exact ⟨_, spent, trivial⟩

/-- A delivery that did not find the operation `RUNNING` has the action in hand, with all its
attempts. -/
def Funded (rt : Runtime) (recovering : Bool) (n : Amount) : Prop :=
  recovering = false → rt.settings.pveActionMaxAttempts ≤ n.1 ∧ 1 ≤ n.2

theorem safe_runAction {recovering : Bool} {action : PowerAction} (workload : Workload) (id : Uuid)
    (ha : action = .reboot ∨ action = .reset) (hn : Funded rt recovering n) :
    Safe rt (budget rt carriedOut k) (runAction rt recovering workload id action) n θ := by
  refine safe_then (keeping_openClient lenient workload) trivial fun client θ _ => ?_
  refine safe_session (lenient _ rfl) ?_
  split
  · exact safe_only (keeping_runPoll lenient client workload action) trivial
  refine safe_then (keeping_safeGuestStatus lenient client workload) trivial fun current θ _ => ?_
  split
  · trivial
  split
  · exact safe_only (keeping_finishFromError lenient _ _ _) trivial
  · refine safe_only (only_bind (keeping_op lenient rfl) fun _ => only_bind (keeping_op lenient rfl)
      fun _ => only_bind (keeping_op lenient rfl) fun _ => keeping_finish lenient _) trivial
  split
  · exact safe_only (keeping_fail lenient _ _) trivial
  · next hfresh =>
    have hrecovering : recovering = false := by
      cases recovering with
      | false => rfl
      | true => exact absurd ⟨rfl, ha⟩ hfresh
    obtain ⟨hattempts, hexecution⟩ := hn hrecovering
    refine safe_bind (safe_submit client workload action _ n θ hattempts hexecution) fun x n θ => ?_
    split
    · trivial
    · refine safe_only (only_bind (keeping_op lenient rfl) fun _ => only_bind (keeping_op lenient rfl)
        fun _ => only_bind (keeping_op lenient rfl) fun _ => only_bind (keeping_op lenient rfl)
        fun _ => only_bind (keeping_perform lenient rfl) fun _ => ?_) trivial
      exact keeping_runPoll lenient client workload action

/-- What follows an admission of a reboot or a reset keeps to the budget. -/
theorem safe_admitted {f : Except Exn Admission → OpProg Unit} {a : PowerAction}
    (ha : a = .reboot ∨ a = .reset) (hf : OpMessage.program rt ⟨.power, k⟩ = .node .enter f)
    {b : Bool} (row : ∃ o, θ.current.operation = some o ∧ o.operationType = .power a)
    (hn : Funded rt b n) :
    Safe rt (budget rt carriedOut k) (f (.ok (.proceed b))) n θ := by
  cases hf
  refine safe_session (lenient _ rfl) (safe_row fun operation ho => ?_)
  obtain ⟨o, ho', htype⟩ := row
  have : o = operation := Option.some.inj (ho'.symm.trans ho)
  have haction : operation.action = .power a := by rw [operation.consistent, ← this, htype]; rfl
  rw [haction]
  refine safe_session (lenient _ rfl) (safe_row fun workload _ => ?_)
  exact safe_runAction workload operation.id ha hn

end Programs

/-! ### Runs -/

variable {a : PowerAction}

structure Local (rt : Runtime) (carriedOut : Nat → Bool) (k : Uuid) (θ : OpState) (p : OpProg Unit)
    (n : Amount) : Prop where
  sound : θ.Sound
  stage : θ.operationId = k → Stage rt (budget rt carriedOut k) k θ p n

/-- A submission that was carried out, though its answer does not say so, and that is not the last
attempt: the next one carries the action out again. -/
def lost (rt : Runtime) (carriedOut : Nat → Bool) (k : Uuid) (θ : OpState) (p : OpProg Unit)
    (i : Input) (w : World) : Bool :=
  match p with
  | .node o _ => θ.operationId == k && ambiguous o i && carriedOut w.calls.length &&
      attempts k w + 1 < rt.settings.pveActionMaxAttempts
  | .done _ => false

/-- What the rest of the program may do to the operation: request it. -/
structure Outside (carriedOut : Nat → Bool) (k : Uuid) (a : PowerAction) (w w' : World) : Prop where
  type : OfType k (.power a) w'.db
  status : statusOf w'.db k = statusOf w.db k ∨
    statusOf w.db k = none ∧ statusOf w'.db k = some .queued
  attempts : attempts k w' = attempts k w
  executions : executions carriedOut k w' = executions carriedOut k w

/-- No submission that another attempt follows has been carried out. It is a condition on Proxmox
and the network, not on the program. -/
def unambiguous (rt : Runtime) (carriedOut : Nat → Bool) (k : Uuid) (a : PowerAction) :
    Conditions Exn RunnerOp OpState World Input OpMessage where
  step θ p i w := lost rt carriedOut k θ p i w = false
  env w w' := Outside carriedOut k a w w'

variable (rt : Runtime)

/-- The admission of a delivery: it takes what the row entitles it to. -/
theorem entered_next {i : Input} {θ θ' : OpState} {w w' : World} {r : Except Exn Admission}
    {f : Except Exn Admission → OpProg Unit} (ha : a = .reboot ∨ a = .reset)
    (htype : OfType k (.power a) w.db) (hk : θ.operationId = k)
    (hf : OpMessage.program rt ⟨θ.kind, k⟩ = .node .enter f)
    (hentered : enter rt i θ w = (θ', w', r))
    (hbegun : begun w.db k = true → begun w'.db k = true)
    (hcounts : (attempts k w', executions carriedOut k w') =
      (attempts k w, executions carriedOut k w)) :
    ∃ n', account rt carriedOut k w' + n' ≤ account rt carriedOut k w ∧
      Stage rt (budget rt carriedOut k) k θ' (f r) n' := by
  have nothing (hstop : ∀ (n : Amount), Safe rt (budget rt carriedOut k) (f r) n θ') :
      ∃ n', account rt carriedOut k w' + n' ≤ account rt carriedOut k w ∧
        Stage rt (budget rt carriedOut k) k θ' (f r) n' := by
    refine ⟨0, ?_, .admitted (hstop 0)⟩
    rw [add_zero (account rt carriedOut k w')]
    exact account_idle hbegun (le_of_eq hcounts)
  have stops (hr : ∀ b, r ≠ .ok (.proceed b)) (hadmin : r ≠ .ok .admin) (n : Amount) :
      Safe rt (budget rt carriedOut k) (f r) n θ' := by
    cases hkind : θ.kind <;> rw [hkind] at hf <;> cases hf <;> cases r with
    | error e => trivial
    | ok r =>
      cases r with
      | ended => trivial
      | admin => exact absurd rfl hadmin
      | proceed b => exact absurd rfl (hr b)
  cases r with
  | error e => exact nothing (stops nofun nofun)
  | ok r =>
    rw [← hk] at htype
    rcases enter_power htype hentered with rfl | ⟨o, ho, hkind, hproceeds⟩
    · exact nothing (stops nofun nofun)
    have hr := hproceeds.recovering
    cases hr
    have hafter := hproceeds.begun
    rw [hk] at hafter ho
    rw [hkind] at hf
    refine ⟨entitlement (rt.settings.pveActionMaxAttempts, 1) k w, ?_, .admitted ?_⟩
    · unfold account
      rw [entitlement_begun hafter, hcounts, add_zero]
    · refine safe_admitted ha hf ⟨_, hproceeds.row, htype o (by rw [hk]; exact ho)⟩ fun hnot => ?_
      have hqueued : begun w.db k = false := by
        unfold begun
        rw [ho]
        have hopen := hproceeds.unfinished
        cases hs : o.status with
        | queued => simp [hs]
        | running => rw [hs] at hnot; cases hnot
        | succeeded | failed | timeout => rw [hs] at hopen; cases hopen
      rw [entitlement_unbegun hqueued]
      exact ⟨le_rfl, le_rfl⟩

theorem effect_type {now : Instant} {ρ : Type} {op : RunnerOp ρ} {θ θ' : OpState} {db db' : Db}
    {type : OperationType} (he : OpEffect now op θ db θ' db') (hs : θ.Sound)
    (ht : OfType k type db) : OfType k type db' := by
  intro o' ho'
  obtain ⟨g, hg, hrow⟩ := effect_row he hs k
  rw [hg] at ho'
  obtain ⟨o, ho, rfl⟩ := Option.map_eq_some_iff.mp ho'
  rw [(hrow o ho).type]
  exact ht o ho

theorem ledger (carriedOut : Nat → Bool) (k : Uuid) (ha : a = .reboot ∨ a = .reset) :
    Ledger (opMachine rt) (unambiguous rt carriedOut k a) (fun w => OfType k (.power a) w.db)
      (fun θ p n _ => Local rt carriedOut k θ p n) (fun _ _ => True) (account rt carriedOut k)
      (rt.settings.pveActionMaxAttempts, 1) where
  refl _ := trivial
  start m w _ _ := by
    refine ⟨sound_start m.task m.operationId, fun hk => ?_⟩
    have hk : m.operationId = k := hk
    exact .waiting (by rw [← hk]; rfl) rfl
  step o rest i θ θ' n w w' r hI hL htotal hlost hexec := by
    have heffect := exec_effect rt hexec
    have hcounts : (attempts k w', executions carriedOut k w') =
        (attempts k w, executions carriedOut k w) + _ := exec_counts hexec
    obtain ⟨hsound, hid, hkind⟩ := effect_sound heffect hL.sound
    have hbegun := effect_begun (k := k) heffect hL.sound
    refine ⟨effect_type heffect hL.sound hI, trivial, ?_⟩
    by_cases hk : θ.operationId = k
    · cases hL.stage hk with
      | waiting program nothing =>
        obtain ⟨f, hf⟩ := program_enter rt θ.kind k
        rw [hf] at program
        cases program
        have hentered : enter rt i θ w = (θ', w', r) := Option.some.inj hexec
        obtain ⟨n', hbalance, hstage⟩ := entered_next rt ha hI hk hf hentered hbegun
          (by rw [hcounts]; rfl)
        refine ⟨n', ?_, hsound, fun _ => hstage⟩
        rw [nothing, add_zero (account rt carriedOut k w)]
        exact hbalance
      | admitted safe =>
        have hmay : (budget rt carriedOut k).may n o i θ w := by
          refine ⟨htotal, fun hambiguous hcarried => ?_⟩
          have hlost : (θ.operationId == k && ambiguous o i && carriedOut w.calls.length &&
              decide (attempts k w + 1 < rt.settings.pveActionMaxAttempts)) = false := hlost
          rw [hk, hambiguous, hcarried] at hlost
          simpa using hlost
        obtain ⟨n', hcost, hsafe⟩ := safe.2 i w θ' w' r hmay hexec
        refine ⟨n', account_step hbegun (le_of_eq ?_) hcost, hsound, fun _ => .admitted hsafe⟩
        rw [hcounts, hk]
        simp only [beq_self_eq_true, Bool.and_true]
        rfl
    · refine ⟨n, ?_, hsound, fun h => absurd (hid.symm.trans h) hk⟩
      refine add_le_add_left (account_idle hbegun (le_of_eq ?_)) n
      rw [hcounts]
      simp [hk]
  drop _ _ _ w hI _ := ⟨hI, trivial, le_rfl⟩
  env w w' _ h := by
    refine ⟨h.type, trivial, account_idle (Routing.begun_outside h.status) (le_of_eq ?_)⟩
    rw [h.attempts, h.executions]
  stable _ _ _ _ _ _ hL := hL

/-- The operation as its request inserts it, or not yet there, and nothing done for it. -/
def Requested (k : Uuid) (a : PowerAction) (w : World) : Prop :=
  OfType k (.power a) w.db ∧ begun w.db k = false ∧ attempts k w = 0

/-- The state after a run of deliveries. -/
def reached (w : World) (actions : List OpAction) : World :=
  (runFrom (Sys.next (opMachine rt)) (Sys.idle w) actions).shared

/-- **At most one execution** of a reboot or a reset, over every run of deliveries in which
no submission that is followed by another attempt has been carried out. -/
theorem executed_once (carriedOut : Nat → Bool) (k : Uuid) (a : PowerAction)
    (ha : a = .reboot ∨ a = .reset) (w : World) (hw : Requested k a w) (actions : List OpAction)
    (hrun : Along (Sys.next (opMachine rt)) (unambiguous rt carriedOut k a).Met (Sys.idle w) actions) :
    executions carriedOut k (reached rt w actions) ≤ 1 := by
  obtain ⟨htype, hbegun, hattempts⟩ := hw
  have hexecutions : executions carriedOut k w = 0 :=
    Nat.le_zero.mp (hattempts ▸ carriedCount_le w)
  have haccount : account rt carriedOut k w ≤ (rt.settings.pveActionMaxAttempts, 1) := by
    unfold account
    rw [hattempts, hexecutions, entitlement_unbegun hbegun]
    exact le_of_eq (zero_add _)
  have hend := (ledger rt carriedOut k ha).run (Sys.accounted_idle htype haccount) hrun
  have hle : account rt carriedOut k (reached rt w actions) ≤ _ := Ledger.account_le hend
  exact le_trans (Nat.le_add_right _ _) hle.2

/-! A reboot whose first submission is answered with a 5xx. -/

instance (carriedOut : Nat → Bool) (k : Uuid) (a : PowerAction) (m : OpMessage) (w : World) :
    Decidable ((unambiguous rt carriedOut k a).spawn m w) := .isTrue trivial

instance (carriedOut : Nat → Bool) (k : Uuid) (a : PowerAction) (θ : OpState) (p : OpProg Unit)
    (i : Input) (w : World) : Decidable ((unambiguous rt carriedOut k a).step θ p i w) :=
  inferInstanceAs (Decidable (_ = false))

instance (carriedOut : Nat → Bool) (k : Uuid) (a : PowerAction) (θ : OpState) (p : OpProg Unit)
    (w : World) : Decidable ((unambiguous rt carriedOut k a).crash θ p w) := .isTrue trivial

instance (k : Uuid) (type : OperationType) (db : Db) : Decidable (OfType k type db) :=
  decidable_of_iff ((db.operations.get? k).all (·.operationType == type) = true) (by
    unfold OfType
    cases db.operations.get? k <;> simp)

instance (carriedOut : Nat → Bool) (k : Uuid) (a : PowerAction) (w w' : World) :
    Decidable ((unambiguous rt carriedOut k a).env w w') :=
  decidable_of_iff (OfType k (.power a) w'.db ∧ (statusOf w'.db k = statusOf w.db k ∨
      statusOf w.db k = none ∧ statusOf w'.db k = some .queued) ∧
    attempts k w' = attempts k w ∧ executions carriedOut k w' = executions carriedOut k w)
    ⟨fun h => ⟨h.1, h.2.1, h.2.2.1, h.2.2.2⟩,
      fun h => ⟨h.type, h.status, h.attempts, h.executions⟩⟩

instance (k : Uuid) (a : PowerAction) (w : World) : Decidable (Requested k a w) :=
  inferInstanceAs (Decidable (_ ∧ _))

/-- The guest runs, and a submission is answered with a 5xx. -/
def upstreamError : Input :=
  { sampleInput "running" with
    answers := fun r => match r with
      | .submitGuestPowerAction .. =>
        .error (.app ⟨502, "PVE_UPSTREAM_ERROR", "The Proxmox API returned a server error.", []⟩)
      | r => sampleAnswers "running" r }

/-- A reboot that is submitted twice by one delivery. -/
def submittedTwice : List OpAction :=
  .spawn 0 ⟨.power, 1⟩ :: List.replicate 9 (.step 0 upstreamError) ++
    [.step 0 (sampleInput "running")]

theorem executed_once_refused :
    executions (· == 2) 1 (reached asciiRuntime (sampleWorld (.power .reboot)) submittedTwice) ≤ 1 :=
  executed_once asciiRuntime (· == 2) 1 .reboot (Or.inl rfl) _ (by decide) submittedTwice
    (by decide +kernel)

/-- **A reboot executed twice**: the 5xx came after Proxmox had taken the request. -/
theorem reboot_executed_twice : Requested 1 .reboot (sampleWorld (.power .reboot)) ∧
    ¬ executions (fun _ => true) 1
      (reached asciiRuntime (sampleWorld (.power .reboot)) submittedTwice) ≤ 1 := by
  decide +kernel

end PveMaster.Execution
