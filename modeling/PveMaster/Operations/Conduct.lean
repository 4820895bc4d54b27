import PveMaster.Foundation.Budget
import PveMaster.Operations.Effects

/-! Rules for what the runners' programs may do.

A program of a runner is `Safe` for a budget if it keeps to it from a session on, whatever
the database and the answers. The rules follow the text of the programs. -/
namespace PveMaster.Conduct
open Prog OpProg

variable {rt : Runtime} {A : Type} [AddCommMonoid A] [PartialOrder A]
  {B : Budget RunnerOp OpState World Input A} {α β ρ : Type} {J : OpState → Prop} {n : A}
  {θ : OpState}

/-- Nothing is asked of the session. -/
abbrev Any : OpState → Prop := fun _ => True

/-- The session has a task, so what happens next is a matter of polling it. -/
def Tasked (θ : OpState) : Prop := θ.current.task.isSome = true

theorem tasked_assign (e : Edit) (θ : OpState) (h : Tasked θ) : Tasked (θ.assign e) := by
  show (θ.current.task.map e.task).isSome = true
  rw [Option.isSome_map]
  exact h

/-- The budget has nothing against an operation, and it costs nothing, whatever the session and
the database are. -/
def Spares (B : Budget RunnerOp OpState World Input A) (o : RunnerOp ρ) : Prop :=
  ∀ θ, B.allowed o θ ∧ ∀ i w, B.cost o i θ w = 0

/-- What does not touch the session: readings, and calls to Proxmox. -/
def still (o : RunnerOp ρ) : Bool :=
  match o with
  | .now | .uuid4 | .session | .getCluster _ | .activeCredential _ | .connect .. | .call _ => true
  | _ => false

theorem exec_still {o : RunnerOp ρ} (h : still o = true) {i : Input} {w w' : World} {θ' : OpState}
    {r : ρ} (hx : (opMachine rt).exec o i θ w = some (θ', w', r)) : θ' = θ := by
  have hout : o.exec rt i θ w = (θ', w', r) := Option.some.inj hx
  have hfst : (o.exec rt i θ w).1 = θ' := by rw [hout]
  cases o <;> first | exact hfst.symm | cases h

omit [PartialOrder A] in
theorem keeps_still {o : RunnerOp ρ} (h : still o = true) (hB : Spares B o) :
    B.Keeps (opMachine rt) J o := by
  refine fun θ hJ => ⟨(hB θ).1, fun i w θ' w' r hx => ⟨(hB θ).2 i w, ?_⟩⟩
  rw [exec_still h hx]
  exact hJ

omit [PartialOrder A] in
theorem keeps_any {o : RunnerOp ρ} (hB : Spares B o) : B.Keeps (opMachine rt) Any o :=
  fun θ _ => ⟨(hB θ).1, fun i w _ _ _ _ => ⟨(hB θ).2 i w, trivial⟩⟩

omit [PartialOrder A] in
theorem keeps_assign {e : Edit} (h : ∀ θ, J θ → J (θ.assign e)) (hB : Spares B (.assign e)) :
    B.Keeps (opMachine rt) J (.assign e) := by
  refine fun θ hJ => ⟨(hB θ).1, fun i w θ' w' r hx => ⟨(hB θ).2 i w, ?_⟩⟩
  have hout : (RunnerOp.assign e).exec rt i θ w = (θ', w', r) := Option.some.inj hx
  cases hout
  exact h θ hJ

/-! ### Programs -/

/-- Every operation of the program is free while the session satisfies `J`. -/
abbrev Keeping (rt : Runtime) (B : Budget RunnerOp OpState World Input A) (J : OpState → Prop)
    (p : OpProg α) : Prop := p.Only (fun o => B.Keeps (opMachine rt) J o)

/-- The program keeps to the budget, with so much in hand, whatever its operations are answered
with. -/
abbrev Safe (rt : Runtime) (B : Budget RunnerOp OpState World Input A) (p : OpProg α) (n : A)
    (θ : OpState) : Prop := within (opMachine rt) B p (fun _ _ _ => True) n θ

/-! Rules for a postcondition. -/

section Post
variable {Q : Except Exn β → A → OpState → Prop}

theorem within_then {p : OpProg α} {f : α → OpProg β} (hp : Keeping rt B J p) (hJ : J θ)
    (hf : ∀ a θ, J θ → within (opMachine rt) B (f a) Q n θ) (herr : ∀ e θ, J θ → Q (.error e) n θ) :
    within (opMachine rt) B (p >>= f) Q n θ := by
  refine within_bind (within_of_only hp hJ fun r θ hJ => ?_)
  cases r with
  | ok a => exact hf a θ hJ
  | error e => exact herr e θ hJ

theorem within_session {f : OpSession → OpProg β} (hB : Spares B .session)
    (hf : within (opMachine rt) B (f θ.current) Q n θ) :
    within (opMachine rt) B (OpProg.session >>= f) Q n θ := by
  refine ⟨(hB θ).1, fun i w θ' w' r _ hx => ⟨n, ?_, ?_⟩⟩
  · rw [(hB θ).2 i w, zero_add]
  · have hout : RunnerOp.session.exec rt i θ w = (θ', w', r) := Option.some.inj hx
    cases hout
    exact hf

/-- An operation that can raise, what follows its result and its error. -/
theorem within_perform {o : RunnerOp (Except Exn α)} {f : α → OpProg β} (hallowed : B.allowed o θ)
    (h : ∀ i w θ' w' r, B.may n o i θ w → (opMachine rt).exec o i θ w = some (θ', w', r) →
      ∃ n', B.cost o i θ w + n' ≤ n ∧ match r with
        | .ok a => within (opMachine rt) B (f a) Q n' θ'
        | .error e => Q (.error e) n' θ') :
    within (opMachine rt) B (perform o >>= f) Q n θ := by
  refine ⟨hallowed, fun i w θ' w' r hmay hx => ?_⟩
  obtain ⟨n', hcost, hk⟩ := h i w θ' w' r hmay hx
  refine ⟨n', hcost, ?_⟩
  cases r with
  | ok a => exact hk
  | error e => exact hk

end Post

theorem safe_only {p : OpProg α} (hp : Keeping rt B J p) (hJ : J θ) : Safe rt B p n θ :=
  within_of_only hp hJ fun _ _ _ => trivial

theorem safe_then {p : OpProg α} {f : α → OpProg β} (hp : Keeping rt B J p) (hJ : J θ)
    (hf : ∀ a θ, J θ → Safe rt B (f a) n θ) : Safe rt B (p >>= f) n θ :=
  within_then hp hJ hf fun _ _ _ => trivial

/-- What is safe with anything in hand may follow. -/
theorem safe_bind {p : OpProg α} {f : α → OpProg β} (hp : Safe rt B p n θ)
    (hf : ∀ a n θ, Safe rt B (f a) n θ) : Safe rt B (p >>= f) n θ := by
  refine within_bind (within_mono (fun r n θ _ => ?_) hp)
  cases r with
  | ok a => exact hf a n θ
  | error e => trivial

theorem safe_attempt {p : OpProg α} {f : Except Exn α → OpProg β} (hp : Safe rt B p n θ)
    (hf : ∀ r n θ, Safe rt B (f r) n θ) : Safe rt B (p.attempt >>= f) n θ :=
  within_bind (within_attempt (within_mono (fun r n θ _ => hf r n θ) hp))

/-- What the session shows. -/
theorem safe_session {f : OpSession → OpProg β} (hB : Spares B .session)
    (hf : Safe rt B (f θ.current) n θ) : Safe rt B (OpProg.session >>= f) n θ := within_session hB hf

theorem safe_row {x : Option α} {f : α → OpProg β} (hf : ∀ a, x = some a → Safe rt B (f a) n θ) :
    Safe rt B (OpProg.row x >>= f) n θ := by
  cases x with
  | none => trivial
  | some a => exact hf a rfl

/-- A call is paid for, and what follows depends on its answer. -/
theorem safe_call {r : Request} {f : Except Exn (Reply r) → OpProg β}
    (hallowed : B.allowed (RunnerOp.call r) θ)
    (hf : ∀ i w, B.may n (RunnerOp.call r) i θ w →
      ∃ n', B.cost (RunnerOp.call r) i θ w + n' ≤ n ∧ Safe rt B (f (i.answers r)) n' θ) :
    Safe rt B ((perform (.call r)).attempt >>= f) n θ := by
  refine ⟨hallowed, fun i w θ' w' answer hmay hx => ?_⟩
  obtain ⟨n', hcost, hsafe⟩ := hf i w hmay
  have hout : (RunnerOp.call r).exec rt i θ w = (θ', w', answer) := Option.some.inj hx
  cases hout
  exact ⟨n', hcost, hsafe⟩

/-! ### Calls

How many calls of one kind have been made for an operation, and how many of them Proxmox
has carried out: `carriedOut n` says it of the `n`th call ever made. -/

section Calls
variable (p : Request → Bool) (carriedOut : Nat → Bool) (k : Uuid)

/-- The operation is a call of the kind. -/
def calls (o : RunnerOp ρ) : Bool :=
  match o with
  | .call r => p r
  | _ => false

/-- The call was made for the operation, and is of the kind. -/
def madeFor (c : Called) : Bool := c.caller == .operation k && p c.request

/-- How many calls of a kind have been made for an operation, in the whole history of the world.
-/
def callCount (w : World) : Nat := w.calls.countP (madeFor p k)

/-- How many of them Proxmox has carried out. Which calls it carries out is not for the program to
know. -/
def carriedCount (w : World) : Nat :=
  w.calls.zipIdx.countP (fun c => madeFor p k c.1 && carriedOut c.2)

variable {p carriedOut k}

theorem carriedCount_le (w : World) : carriedCount p carriedOut k w ≤ callCount p k w := by
  unfold carriedCount callCount
  calc _ ≤ w.calls.zipIdx.countP (fun c => madeFor p k c.1) :=
        List.countP_mono_left fun c _ h => (Bool.and_eq_true_iff.mp h).1
    _ = (w.calls.zipIdx.map Prod.fst).countP (madeFor p k) := by rw [List.countP_map]; rfl
    _ = _ := by rw [List.zipIdx_map_fst]

theorem exec_calls {o : RunnerOp ρ} {i : Input} {θ' : OpState} {w w' : World} {r : ρ}
    (h : (opMachine rt).exec o i θ w = some (θ', w', r)) : w'.calls = w.calls ++ o.called i θ := by
  have hworld := exec_world (θ := θ) rt i w o
  have hout : o.exec rt i θ w = (θ', w', r) := Option.some.inj h
  rw [hout] at hworld
  exact congrArg World.calls hworld

theorem called_cases (o : RunnerOp ρ) (i : Input) (θ : OpState) :
    o.called i θ = [] ∧ calls p o = false ∨
      ∃ c, o.called i θ = [c] ∧ madeFor p k c = (calls p o && θ.operationId == k) := by
  cases o with
  | call r =>
    refine Or.inr ⟨_, rfl, ?_⟩
    show (θ.caller == .operation k && p r) = (p r && θ.operationId == k)
    have hcaller : (θ.caller == Caller.operation k) = (θ.operationId == k) := by
      simp [OpState.caller, beq_eq_beq]
    rw [hcaller, Bool.and_comm]
  | now | uuid4 | session | enter | getCluster | activeCredential | connect | assign | commit
  | addTask | finish => exact Or.inl ⟨rfl, rfl⟩

/-- What an operation of a runner adds to the counts. -/
theorem exec_counts {c : Nat → Bool} {o : RunnerOp ρ} {i : Input} {θ' : OpState} {w w' : World} {r : ρ}
    (h : (opMachine rt).exec o i θ w = some (θ', w', r)) :
    (callCount p k w', carriedCount p c k w') = (callCount p k w, carriedCount p c k w) +
      if (calls p o && θ.operationId == k) = true then
        (1, if c w.calls.length then 1 else 0) else 0 := by
  have hcalls := exec_calls h
  unfold callCount carriedCount
  rw [hcalls, List.countP_append, List.zipIdx_append, List.countP_append]
  rcases called_cases (p := p) (k := k) o i θ with ⟨hnone, hno⟩ | ⟨call, hcall, hby⟩
  · rw [hnone, hno]
    rfl
  · rw [hcall, ← hby]
    cases hs : madeFor p k call with
    | false => simp [hs]
    | true => simp [hs]

theorem exec_callCount {o : RunnerOp ρ} {i : Input} {θ' : OpState} {w w' : World} {r : ρ}
    (h : (opMachine rt).exec o i θ w = some (θ', w', r)) :
    callCount p k w' = callCount p k w + if (calls p o && θ.operationId == k) = true then 1 else 0 := by
  have hcounts := exec_counts (p := p) (k := k) (c := fun _ => false) h
  have hfst : callCount p k w' = _ := congrArg Prod.fst hcounts
  rw [hfst]
  split <;> rfl

end Calls

/-! ### Deliveries -/

/-- A delivery of the operation waits for its admission, or keeps to what it has in hand. -/
inductive Stage (rt : Runtime) (B : Budget RunnerOp OpState World Input A) (k : Uuid) (θ : OpState)
    (p : OpProg Unit) (n : A) : Prop
  | waiting (program : p = OpMessage.program rt ⟨θ.kind, k⟩) (nothing : n = 0)
  | admitted (safe : Safe rt B p n θ)

theorem program_enter (rt : Runtime) (kind : RunnerKind) (k : Uuid) :
    ∃ f, OpMessage.program rt ⟨kind, k⟩ = .node .enter f := by
  cases kind <;> exact ⟨_, rfl⟩

/-- What a row still entitles a delivery to: all of it, as long as none has been admitted. -/
def entitlement (total : A) (k : Uuid) (w : World) : A := if begun w.db k then 0 else total

omit [PartialOrder A] in
theorem entitlement_begun {total : A} {k : Uuid} {w : World} (h : begun w.db k = true) :
    entitlement total k w = 0 := if_pos h

omit [PartialOrder A] in
theorem entitlement_unbegun {total : A} {k : Uuid} {w : World} (h : begun w.db k = false) :
    entitlement total k w = total := if_neg (by rw [h]; nofun)

section Entitlement
variable [CanonicallyOrderedAdd A] {total spent spent' cost n' : A} {k : Uuid}
  {w w' : World}

/-- It does not come back. -/
theorem entitlement_mono (h : begun w.db k = true → begun w'.db k = true) :
    entitlement total k w' ≤ entitlement total k w := by
  cases hb : begun w.db k with
  | true => rw [entitlement_begun (h hb)]; exact zero_le
  | false =>
    rw [entitlement_unbegun hb]
    unfold entitlement
    split
    · exact zero_le
    · exact le_rfl

variable [IsOrderedAddMonoid A]

/-- What an operation that is paid for leaves in the account. -/
theorem account_step (hbegun : begun w.db k = true → begun w'.db k = true)
    (hspent : spent' ≤ spent + cost) (hcost : cost + n' ≤ n) :
    spent' + entitlement total k w' + n' ≤ spent + entitlement total k w + n :=
  calc spent' + entitlement total k w' + n'
      ≤ spent + cost + entitlement total k w + n' := by
        gcongr
        exact entitlement_mono hbegun
    _ = spent + entitlement total k w + (cost + n') := by ac_rfl
    _ ≤ spent + entitlement total k w + n := by gcongr

/-- What nobody pays for leaves the account as it is. -/
theorem account_idle (hbegun : begun w.db k = true → begun w'.db k = true) (hspent : spent' ≤ spent) :
    spent' + entitlement total k w' ≤ spent + entitlement total k w :=
  add_le_add hspent (entitlement_mono hbegun)

end Entitlement

/-! ### The power runner

What the runner does beside its calls that change something is free, if the budget has
nothing against anything else. -/

/-- A call that asks Proxmox to change something. All others can be made any number of times. -/
def mutates (o : RunnerOp ρ) : Bool :=
  match o with
  | .call r => r.mutating
  | _ => false

/-- The budget has nothing against any operation but the calls that change something. -/
def Lenient (B : Budget RunnerOp OpState World Input A) : Prop :=
  ∀ {ρ : Type} (o : RunnerOp ρ), mutates o = false → Spares B o

section PowerRunner
open PowerRunner
omit [PartialOrder A]

theorem keeping_op (hB : Lenient B) {o : RunnerOp ρ} (h : mutates o = false) :
    Keeping rt B Any (op o) := only_op (keeps_any (hB o h))

theorem keeping_perform (hB : Lenient B) {o : RunnerOp (Except Exn ρ)} (h : mutates o = false) :
    Keeping rt B Any (perform o) := only_perform (keeps_any (hB o h))

theorem keeping_finish (hB : Lenient B) (f : Finish) : Keeping rt B Any (finish f) :=
  keeping_perform (o := .finish f) hB rfl

theorem keeping_call (hB : Lenient B) (client : Except AppError Unit) {r : Request}
    (h : r.mutating = false) : Keeping rt B Any (call client r) := by
  unfold call
  split
  · exact keeping_perform hB h
  · exact only_done

theorem keeping_openClient (hB : Lenient B) (workload : Workload) :
    Keeping rt B Any (openClient workload) := by
  refine only_bind (keeping_op hB rfl) fun cluster => only_bind (keeping_op hB rfl) fun credential => ?_
  split
  · split
    · exact keeping_op hB rfl
    · exact only_done
  · exact only_done

theorem keeping_finishFromError (hB : Lenient B) (e : AppError) (submission withTask : Bool) :
    Keeping rt B Any (finishFromError e submission withTask) := by
  refine only_bind (keeping_op hB rfl) fun time => ?_
  split
  · exact keeping_finish hB _
  · exact keeping_finish hB _

theorem keeping_safeGuestStatus (hB : Lenient B) (client : Except AppError Unit)
    (workload : Workload) : Keeping rt B Any (safeGuestStatus client workload) := by
  refine only_bind (only_attempt (keeping_call hB client rfl)) fun answer => ?_
  split
  · exact only_done
  · exact only_bind (keeping_finishFromError hB _ _ _) fun _ => only_done
  · exact only_done

theorem keeping_settle (hB : Lenient B) (client : Except AppError Unit) (workload : Workload)
    (action : PowerAction) : Keeping rt B Any (settle rt client workload action) := by
  refine only_bind (keeping_safeGuestStatus hB client workload) fun answer => ?_
  split
  · exact only_done
  · refine only_bind (keeping_op hB rfl) fun _ => only_bind (keeping_op hB rfl) fun _ =>
      only_bind (keeping_op hB rfl) fun _ => ?_
    -- the expected state, then the test
    split
    · split <;> exact keeping_finish hB _
    · split <;> exact keeping_finish hB _

theorem keeping_timeOut (hB : Lenient B) : Keeping rt B Any timeOut :=
  only_bind (keeping_op hB rfl) fun _ => only_bind (keeping_op hB rfl) fun _ =>
    keeping_finish hB _

theorem keeping_fail (hB : Lenient B) (code : String) (withTask : Bool) :
    Keeping rt B Any (fail code withTask) :=
  only_bind (keeping_op hB rfl) fun _ => keeping_finish hB _

theorem keeping_poll (hB : Lenient B) (client : Except AppError Unit) (workload : Workload)
    (action : PowerAction) (deadline : Instant) (polls : Nat) :
    Keeping rt B Any (poll rt client workload action deadline polls) := by
  induction polls with
  | zero => exact keeping_timeOut hB
  | succ polls ih =>
    refine only_bind (keeping_op hB rfl) fun time => ?_
    split
    · exact keeping_timeOut hB
    refine only_bind (keeping_op hB rfl) fun polled => only_bind (keeping_op hB rfl) fun _ =>
      only_bind (keeping_op hB rfl) fun s => only_bind only_done fun task => ?_
    refine only_bind (only_attempt (keeping_call hB client rfl)) fun answer => ?_
    have again : Keeping rt B Any (commit >>= fun _ => poll rt client workload action deadline polls) :=
      only_bind (keeping_perform (o := .commit) hB rfl) fun _ => ih
    split
    · split
      · exact again
      · exact only_bind (keeping_op hB rfl) fun _ => keeping_finishFromError hB _ _ _
    · exact only_done
    · split
      · exact again
      split
      · exact only_bind (keeping_op hB rfl) fun _ => keeping_fail hB _ _
      refine only_bind (keeping_op hB rfl) fun completed => only_bind (keeping_op hB rfl) fun _ => ?_
      split
      · exact only_bind (keeping_op hB rfl) fun _ => keeping_fail hB _ _
      · exact only_bind (keeping_op hB rfl) fun _ => keeping_settle hB client workload action

theorem keeping_runPoll (hB : Lenient B) (client : Except AppError Unit) (workload : Workload)
    (action : PowerAction) : Keeping rt B Any (runPoll rt client workload action) :=
  only_bind (keeping_op hB rfl) fun _ => only_bind only_done fun _ =>
    only_bind (keeping_op hB rfl) fun _ => keeping_poll hB client workload action _ _

end PowerRunner

end PveMaster.Conduct
