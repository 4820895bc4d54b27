import Mathlib.Algebra.Order.BigOperators.Group.List
import PveMaster.Foundation.Parallel
import PveMaster.Provisioning.Capacity

/-! The conservation of capacity, over runs and administrators.

A run reserves only what its request has not reserved yet, and a request gives back only
what the accounts say it has. -/
namespace PveMaster.Capacity
open ProvisioningRunner Prog ProvProg

/-! ### Administrators -/

theorem balanced_set {n : ProvisioningNode} {p : NodeUpsert}
    (h : amounts n = (p.availableMemoryBytes, p.availableStorageBytes)) :
    Balanced n ⟨p.availableMemoryBytes, p.availableStorageBytes, []⟩ := by
  obtain ⟨hm, hd⟩ := Prod.mk.inj h
  refine ⟨?_, ?_, ?_, ?_⟩
  · rw [hm]
    exact add_zero _
  · rw [hd]
    exact add_zero _
  · rw [hm]
    exact p.memory
  · rw [hd]
    exact p.storage

/-- The row of a node that takes the values of a payload. -/
theorem upsert_amounts {l n : ProvisioningNode} {p : NodeUpsert} (h : Takes l p n) :
    amounts (l.upsert p n) = (p.availableMemoryBytes, p.availableStorageBytes) := by
  have set {loaded payload stored : Int} (h : loaded = payload → stored = payload) :
      written loaded payload stored = payload := by
    unfold written
    split
    · next heq => exact h heq.symm
    · rfl
  exact Prod.ext (set h.1) (set h.2)

/-- A node that is set starts a new account. -/
theorem settled_set {w w' : World} {a : Accounts} {id : Uuid} {p : NodeUpsert} (hs : Settled (w, a))
    (hrequests : w'.db.requests = w.db.requests)
    (own : ∀ n ∈ w'.db.nodes, n.id = id → amounts n = (p.availableMemoryBytes, p.availableStorageBytes))
    (others : ∀ n ∈ w'.db.nodes, n.id ≠ id → n ∈ w.db.nodes) :
    Settled (w', a.set id ⟨p.availableMemoryBytes, p.availableStorageBytes, []⟩) := by
  have hself : a.set id ⟨p.availableMemoryBytes, p.availableStorageBytes, []⟩ id =
      some ⟨p.availableMemoryBytes, p.availableStorageBytes, []⟩ := if_pos rfl
  have hother {k : Uuid} (hk : k ≠ id) :
      a.set id ⟨p.availableMemoryBytes, p.availableStorageBytes, []⟩ k = a k := if_neg hk
  refine ⟨fun n hn => ?_, fun k account ha e he => ?_, fun k account ha => ?_, fun r hr => ?_⟩
  · by_cases hid : n.id = id
    · refine ⟨_, ?_, balanced_set (own n hn hid)⟩
      rw [hid]
      exact hself
    · obtain ⟨account, ha, hb⟩ := hs.nodes n (others n hn hid)
      exact ⟨account, (hother hid).trans ha, hb⟩
  · by_cases hk : k = id
    · rw [hk] at ha
      cases hself.symm.trans ha
      cases he
    · obtain ⟨r, hr⟩ := hs.backed k account ((hother hk).symm.trans ha) e he
      refine ⟨r, ?_, hr.reserved, hr.target, hr.memory, hr.disk⟩
      rw [hrequests]
      exact hr.stored
  · by_cases hk : k = id
    · rw [hk] at ha
      cases hself.symm.trans ha
      exact List.nodup_nil
    · exact hs.once k account ((hother hk).symm.trans ha)
  · rw [hrequests] at hr
    exact hs.sized r hr

/-- **`upsert_node`** starts the account of its node again. -/
theorem node_settled {ρ : Type} {o : NodeOp ρ} {i : Input} {s s' : World × Accounts} {θ θ' : Unit} {r : ρ}
    (hs : Settled s) (hfair : NodeOp.fair o s)
    (h : (nodeMachine.recording fun o _ _ r a => o.note r a).exec o i θ s = some (θ', s', r)) : Settled s' := by
  obtain ⟨w, a⟩ := s
  obtain ⟨w', a'⟩ := s'
  obtain ⟨hexec, hnote⟩ := Machine.recording_exec h
  have hout : (o.exec i w).1 = w' ∧ (o.exec i w).2 = r := by
    have := Option.some.inj hexec
    simp only [Prod.mk.injEq] at this
    exact this.2
  dsimp only at hnote
  cases o with
  | getCluster id =>
    obtain ⟨rfl, -⟩ := hout
    rw [hnote]
    exact hs
  | findNode clusterId name =>
    obtain ⟨rfl, -⟩ := hout
    rw [hnote]
    exact hs
  | upsert loaded p =>
    unfold NodeOp.exec at hout
    dsimp only at hout
    cases hreject : i.reject with
    | some e =>
      rw [hreject] at hout
      obtain ⟨rfl, rfl⟩ := hout
      rw [hnote]
      exact hs
    | none =>
      rw [hreject] at hout
      dsimp only at hout
      cases hdb : upserted (i.uuid 0) loaded p w.db with
      | error e =>
        rw [hdb] at hout
        obtain ⟨rfl, rfl⟩ := hout
        rw [hnote]
        exact hs
      | ok result =>
        obtain ⟨db, node⟩ := result
        rw [hdb] at hout
        obtain ⟨rfl, rfl⟩ := hout
        rw [hnote]
        cases loaded with
        | none =>
          unfold upserted at hdb
          simp only [bind_ok, pure_ok, orRaise_ok, Prod.mk.injEq] at hdb
          obtain ⟨nodes, hinsert, rfl, rfl⟩ := hdb
          have hinsert := (insertUnless_some hinsert).2
          refine settled_set hs rfl (fun n hn hid => ?_) fun n hn hid => ?_
          · rcases (Table.mem_insert hinsert).mp hn with hn | rfl
            · exact absurd hid ((Table.insert_some hinsert).2 n hn)
            · rfl
          · rcases (Table.mem_insert hinsert).mp hn with hn | rfl
            · exact hn
            · exact absurd rfl hid
        | some l =>
          cases hdb
          have hrow {n : ProvisioningNode} (hn : n ∈ w.db.nodes.update l.id (l.upsert p)) :
              ∃ m ∈ w.db.nodes, Table.amend l.id (l.upsert p) m = n := Table.mem_update.mp hn
          refine settled_set hs rfl (fun n hn hid => ?_) fun n hn hid => ?_
          · obtain ⟨m, hm, rfl⟩ := hrow hn
            have hkey : m.id = l.id := (Table.key_amend l.id (l.upsert p) m).symm.trans hid
            rw [Table.amend_of_key hkey rfl]
            apply upsert_amounts
            have hget : w.db.nodes.get? l.id = some m := by
              rw [← hkey]
              exact Table.get?_of_mem hm
            unfold NodeOp.fair at hfair
            dsimp only at hfair
            rw [hget] at hfair
            exact hfair
          · obtain ⟨m, hm, rfl⟩ := hrow hn
            have hkey : m.id ≠ l.id := fun h => hid ((Table.key_amend l.id (l.upsert p) m).trans h)
            rw [Table.amend_of_ne _ hkey]
            exact hm

/-! ### Runs -/

section Runs
variable {rt : Runtime} {client : Except AppError Unit} {α β : Type}

/-- The runs, with the accounts beside the world: what an operation takes or gives back is written
down as it happens. -/
abbrev accounting (rt : Runtime) : Machine Exn ProvOp CapState (World × Accounts) Input ProvMessage :=
  (capMachine rt).recording fun o θ _ r a => o.note θ r a

/-- What a run relies on, and keeps: the accounts are settled, whatever others do in between. -/
def contract : Contract ProvOp CapState (World × Accounts) Input where
  may o _ θ s := Settled s ∧ ProvOp.fair o θ s
  rely _ _ := True
  guar _ s := Settled s

theorem contract_closed : contract.Closed := ⟨fun _ => trivial, fun _ _ _ _ _ => trivial⟩

/-- An operation that counts nothing, with the node the session holds. -/
theorem cap_besides {settings : Settings} {ρ : Type} {o : ProvOp ρ} (ho : Idle o) {i : Input} {θ θ' : CapState}
    {w w' : World} {r : ρ} (a : Accounts) (hθ : Paired θ.prov) (h : θ.exec settings o i w = some (θ', w', r)) :
    Besides (w, a) (w', o.note θ r a) ∧ Paired θ'.prov := by
  have run (held : Option ProvisioningNode) (hnote : o.note θ r a = a)
      (h : (o.exec settings i θ.prov w).map
        (fun x => (({ prov := x.1, held := held } : CapState), x.2.1, x.2.2)) = some (θ', w', r)) : Besides (w, a) (w', o.note θ r a) ∧ Paired θ'.prov := by
    obtain ⟨⟨prov, w₁, r₁⟩, hexec, heq⟩ := Option.map_eq_some_iff.mp h
    cases heq
    rw [hnote]
    exact idle_besides ho a hθ hexec
  cases o with
  | getNode id =>
    unfold CapState.exec at h
    dsimp only at h
    split at h
    · split at h
      · cases h
        exact ⟨besides_alike rfl (.refl _ _), hθ⟩
      · cases h
        exact ⟨besides_alike rfl (.refl _ _), hθ⟩
    · cases h
      exact ⟨besides_alike rfl (.refl _ _), hθ⟩
  | selectTarget memory disk => exact absurd rfl ho.1.1
  | releaseNodeCapacity => exact ho.2.elim
  | commit e audit =>
    cases e with
    | stepStarted id name touched started => exact run none rfl h
    | _ => exact run θ.held rfl h
  | _ => exact run θ.held rfl h

/-- **One operation** of a run, other than a reservation. -/
theorem exec_licit {ρ : Type} {o : ProvOp ρ} (ho : Licit o) {i : Input} {θ θ' : CapState}
    {s s' : World × Accounts} {r : ρ} (hθ : Paired θ.prov) (hmay : contract.may o i θ s)
    (h : (accounting rt).exec o i θ s = some (θ', s', r)) : contract.guar s s' ∧ Paired θ'.prov := by
  obtain ⟨w, a⟩ := s
  obtain ⟨w', a'⟩ := s'
  obtain ⟨hexec, hnote⟩ := Machine.recording_exec h
  obtain ⟨hs, hfair⟩ := hmay
  have idle (hidle : Idle o) : contract.guar (w, a) (w', a') ∧ Paired θ'.prov := by
    obtain ⟨hbesides, hθ'⟩ := cap_besides hidle a hθ hexec
    refine ⟨?_, hθ'⟩
    show Settled (w', a')
    rw [show a' = o.note θ r a from hnote]
    exact hs.besides hbesides
  cases o with
  | releaseNodeCapacity =>
    have hout : ({ θ with prov := (releaseHeld rt.settings i θ w).1 }, (releaseHeld rt.settings i θ w).2.1,
        (releaseHeld rt.settings i θ w).2.2) = (θ', w', r) := Option.some.inj hexec
    simp only [Prod.mk.injEq] at hout
    obtain ⟨rfl, rfl, rfl⟩ := hout
    obtain ⟨hsettled, hpaired⟩ := releaseHeld_settled rt.settings i hs hθ hfair rfl
    refine ⟨?_, hpaired⟩
    show Settled (_, a')
    rw [show a' = ProvOp.note .releaseNodeCapacity θ _ a from hnote]
    exact hsettled
  | _ => exact idle ⟨ho, trivial⟩

/-- A part of a run that keeps its session paired, and with it the accounts settled. -/
def Sound (rt : Runtime) (p : ProvProg α) : Prop :=
  ∀ θ s, Paired θ.prov → wp (accounting rt) contract p (fun _ θ _ => Paired θ.prov) θ s

theorem sound_licit {p : ProvProg α} (hp : p.Only Licit) : Sound rt p := by
  intro θ s hθ
  have stable (θ : CapState) (s s' : World × Accounts) (_ : contract.rely s s') (h : Paired θ.prov) :
      Paired θ.prov := h
  exact wp_only (J := fun θ _ => Paired θ.prov) stable
    (fun _ _ _ _ _ _ _ ho h hmay hexec => exec_licit ho h hmay hexec) hp hθ

theorem sound_bind {p : ProvProg α} {f : α → ProvProg β} (hp : Sound rt p) (hf : ∀ a, Sound rt (f a)) :
    Sound rt (p >>= f) := by
  intro θ s hθ
  apply wp_bind
  refine wp_mono (fun r θ s hr => ?_) (hp θ s hθ)
  cases r with
  | ok a => exact hf a θ s hr
  | error e => exact hr

theorem sound_attempt {p : ProvProg α} (hp : Sound rt p) : Sound rt p.attempt :=
  fun θ s hθ => wp_attempt (hp θ s hθ)

theorem sound_always {p : ProvProg α} {last : ProvProg Unit} (hp : Sound rt p) (hlast : Sound rt last) :
    Sound rt (p.always last) := by
  intro θ s hθ
  apply wp_always
  refine wp_mono (fun r θ s hr => ?_) (hp θ s hθ)
  refine wp_mono (fun l θ s hl => ?_) (hlast θ s hr)
  cases l <;> exact hl

/-! ### A reservation -/

theorem wp_rows {Q : Except Exn ProvRows → CapState → World × Accounts → Prop} {θ : CapState} {s : World × Accounts}
    (h : ∀ s x, (∀ rows, x = .ok rows → rows = θ.prov.current) → Q x θ s) :
    wp (accounting rt) contract ProvProg.rows Q θ s := by
  apply wp_perform
  intro s' _ i θ' s'' r hmay hexec
  obtain ⟨hrun, hnote⟩ := Machine.recording_exec hexec
  have hout : (θ, s'.1, if θ.prov.expired then .error .sessionState else .ok θ.prov.current) = (θ', s''.1, r) :=
    Option.some.inj hrun
  simp only [Prod.mk.injEq] at hout
  obtain ⟨hθ, hw, hr⟩ := hout
  have hrows : ∀ rows, r = .ok rows → rows = θ.prov.current := by
    rintro rows rfl
    split at hr
    · cases hr
    · exact (Except.ok.inj hr).symm
  have hsame : s'' = s' := Prod.ext hw.symm hnote
  rw [← hθ, hsame]
  exact ⟨hmay.1, h s' r hrows⟩

theorem wp_request {Q : Except Exn ProvisioningRequest → CapState → World × Accounts → Prop} {θ : CapState}
    {s : World × Accounts}
    (h : ∀ s x, (∀ r, x = .ok r → θ.prov.current.request = some r) → Q x θ s) :
    wp (accounting rt) contract ProvProg.request Q θ s := by
  apply wp_bind
  apply wp_rows
  intro s x hrows
  cases x with
  | error e => exact h s _ (fun r hr => by cases hr)
  | ok rows =>
    apply wp_ofExcept.mpr
    apply h
    intro r hr
    rw [← hrows rows rfl]
    exact orRaise_ok.mp hr

/-- `_int_spec` reads the request as the session has it. -/
theorem wp_int (key : String) {Q : Except Exn Int → CapState → World × Accounts → Prop} {θ : CapState}
    {s : World × Accounts}
    (h : ∀ s x, (∀ v, x = .ok v → ∃ r, θ.prov.current.request = some r ∧ intSpec r key = .ok v) → Q x θ s) :
    wp (accounting rt) contract (int key) Q θ s := by
  apply wp_bind
  apply wp_request
  intro s x hx
  cases x with
  | error e => exact h s _ (fun v hv => by cases hv)
  | ok r => exact h s _ fun v hv => ⟨r, hx r rfl, hv⟩

/-- **A reservation** is made for a request that has none. -/
theorem sound_selectTarget : Sound rt ProvisioningRunner.selectTarget := by
  intro θ s hθ
  apply wp_bind
  apply wp_int
  intro s memory hmemory
  cases memory with
  | error e => exact hθ
  | ok memory =>
    apply wp_bind
    apply wp_int
    intro s disk hdisk
    cases disk with
    | error e => exact hθ
    | ok disk =>
      apply wp_bind
      apply wp_request
      intro s x hx
      cases x with
      | error e => exact hθ
      | ok c =>
        have hc := hx c rfl
        dsimp only
        split
        · exact sound_licit (only_bind ((only_node.and calm_node).mono fun o ho =>
            licit_of (by rw [ho.1]; exact OpClass.noConfusion) ho.2) fun _ => only_done) θ s hθ
        · next hflag =>
          apply wp_bind
          apply wp_perform
          intro s' _ i θ' s'' r hmay hexec
          obtain ⟨hrun, hnote⟩ := Machine.recording_exec hexec
          obtain ⟨w, a⟩ := s'
          obtain ⟨w', a'⟩ := s''
          obtain ⟨c₁, hc₁, hm⟩ := hmemory memory rfl
          obtain ⟨c₂, hc₂, hd⟩ := hdisk disk rfl
          cases hc.symm.trans hc₁
          cases hc.symm.trans hc₂
          have hout : ({ θ with prov := (PveMaster.selectTarget rt.settings memory disk i θ.prov w).1 },
              (PveMaster.selectTarget rt.settings memory disk i θ.prov w).2.1,
              (PveMaster.selectTarget rt.settings memory disk i θ.prov w).2.2) = (θ', w', r) := by
            exact Option.some.inj hrun
          simp only [Prod.mk.injEq] at hout
          obtain ⟨rfl, rfl, rfl⟩ := hout
          obtain ⟨hsettled, hpaired⟩ := select_settled rt.settings i hmay.1 hθ hmay.2 hc
            (Bool.eq_false_iff.mpr hflag) hm hd rfl
          refine ⟨?_, ?_⟩
          · show Settled (_, a')
            rw [show a' = ProvOp.note (.selectTarget memory disk) θ _ a from hnote]
            exact hsettled
          · generalize (PveMaster.selectTarget rt.settings memory disk i θ.prov w).2.2 = r at hsettled ⊢
            cases r <;> exact hpaired

/-! ### The rest of a run -/

/-- A part of a run that assigns nothing that counts. -/
theorem sound_plain {p : ProvProg α} (hp : p.Only Plain) (hcalm : p.Only Calm) : Sound rt p := by
  refine sound_licit ((hp.and hcalm).mono fun o ho => licit_of ?_ ho.2)
  rw [ho.1]
  exact OpClass.noConfusion

theorem sound_now : Sound rt ProvProg.now := sound_licit (only_op ⟨OpClass.noConfusion, trivial⟩)

theorem sound_executeStep (actor : User) (principal : Principal) (stepId : Uuid) (name : StepName) :
    Sound rt (executeStep rt actor principal client stepId name) := by
  by_cases hname : name = .selectTarget
  · rw [hname]
    exact sound_selectTarget
  · refine sound_licit (((only_executeStep actor principal stepId name).and
      (calm_executeStep actor principal stepId name)).mono fun o ho => licit_of ?_ ho.2)
    rcases ho.1 with h | h | h
    · rw [h]
      exact OpClass.noConfusion
    · rw [h]
      exact OpClass.noConfusion
    · rw [h]
      exact fun heq => hname (OpClass.own.inj heq)

theorem sound_failRequest (principal : Option Principal) (stepId : Option Uuid) (error : AppError) :
    Sound rt (failRequest principal stepId error) :=
  sound_plain (only_failRequest _ _ _) (calm_failRequest _ _ _)

/-- A commit of the run itself. -/
theorem sound_commit {e : ProvEdit} {audit : List AuditLog} (hclass : e.opClass ≠ .own .selectTarget)
    (h : ProvEdit.counting e = false) : Sound rt (commit e audit) := sound_licit (only_perform ⟨hclass, h⟩)

theorem sound_endStep (principal : Principal) (stepId : Uuid) {next : ProvProg Bool} (hnext : Sound rt next)
    (result : Except Exn Dict) : Sound rt (endStep principal stepId next result) := by
  cases result with
  | ok result =>
    exact sound_bind sound_now fun _ => sound_bind sound_now fun _ =>
      sound_bind (sound_commit OpClass.noConfusion rfl) fun _ => hnext
  | error e =>
    unfold endStep
    dsimp only
    split
    · exact sound_bind (sound_failRequest _ _ _) fun _ => sound_licit only_done
    · split
      · exact sound_bind (sound_failRequest _ _ _) fun _ => sound_licit only_done
      · exact sound_licit only_done

theorem sound_runSteps (actor : User) (principal : Principal) (steps : List ProvisioningStep) :
    Sound rt (runSteps rt actor principal client steps) := by
  induction steps with
  | nil => exact sound_licit only_done
  | cons step rest ih =>
    apply sound_bind (sound_licit (only_perform ⟨OpClass.noConfusion, trivial⟩))
    intro session
    split
    · exact ih
    · exact sound_bind sound_now fun _ => sound_bind sound_now fun _ =>
        sound_bind (sound_commit OpClass.noConfusion rfl) fun _ =>
        sound_bind (sound_attempt (sound_executeStep _ _ _ _)) fun result => sound_endStep _ _ ih result

theorem sound_runClaimed : Sound rt (runClaimed rt) := by
  apply sound_bind (sound_plain only_request calm_request)
  intro r
  apply sound_bind (sound_licit (only_op ⟨OpClass.noConfusion, trivial⟩))
  intro user
  cases authorized user with
  | none =>
    exact sound_bind (sound_licit (only_op ⟨OpClass.noConfusion, rfl⟩)) fun _ => sound_failRequest _ _ _
  | some actor =>
    apply sound_bind (sound_plain (only_openClient _) (calm_openClient _))
    intro client
    apply sound_bind (sound_licit (only_op ⟨OpClass.noConfusion, trivial⟩))
    intro steps
    apply sound_bind (sound_runSteps _ _ _)
    intro ended
    cases ended with
    | false => exact sound_licit only_done
    | true =>
      exact sound_bind (sound_plain only_request calm_request) fun _ => sound_bind sound_now fun _ =>
        sound_commit OpClass.noConfusion rfl

/-- **A whole run** of the runner. -/
theorem sound_run : Sound rt (run rt) := by
  apply sound_bind sound_now
  intro claimed
  apply sound_bind (sound_licit (only_perform ⟨OpClass.noConfusion, trivial⟩))
  intro ok
  cases ok with
  | false => exact sound_licit only_done
  | true =>
    apply sound_bind (sound_licit (only_op ⟨OpClass.noConfusion, trivial⟩))
    intro _
    exact sound_always sound_runClaimed (sound_plain only_releaseClaim calm_releaseClaim)

end Runs

/-! ### Runs and administrators together -/

section System
variable (rt : Runtime)

/-- What a run of the system is assumed to keep to: reservations and releases on the rows as
they are stored, releases of what was taken since the capacity was set, and values that
reach the row; nothing else writes nodes. -/
def fair : Conditions Exn (SumOp ProvOp NodeOp) (CapState ⊕ Unit) (World × Accounts) Input
    (ProvMessage ⊕ UpsertMessage) where
  step θ p _ s :=
    match θ, p with
    | .inl θ, .node (.left o) _ => ProvOp.fair o θ s
    | .inr _, .node (.right o) _ => NodeOp.fair o s
    | _, _ => True
  env := Besides

instance (m : ProvMessage ⊕ UpsertMessage) (s : World × Accounts) : Decidable (fair.spawn m s) := .isTrue trivial

instance (θ : CapState ⊕ Unit) (p : Prog Exn (SumOp ProvOp NodeOp) Unit) (i : Input) (s : World × Accounts) :
    Decidable (fair.step θ p i s) :=
  match θ, p with
  | .inl θ, .node (.left o) _ => inferInstanceAs (Decidable (ProvOp.fair o θ s))
  | .inr _, .node (.right o) _ => inferInstanceAs (Decidable (NodeOp.fair o s))
  | .inl _, .done _ | .inl _, .node (.right _) _ | .inr _, .done _ | .inr _, .node (.left _) _ => .isTrue trivial

instance (θ : CapState ⊕ Unit) (p : Prog Exn (SumOp ProvOp NodeOp) Unit) (s : World × Accounts) :
    Decidable (fair.crash θ p s) := .isTrue trivial

/-- The conditions of the runs alone, without those of the administrators. -/
def fairRuns : Conditions Exn ProvOp CapState (World × Accounts) Input ProvMessage where
  step θ p _ s :=
    match p with
    | .node o _ => ProvOp.fair o θ s
    | _ => True
  env := Besides

/-- The conditions of the administrators alone. -/
def fairNodes : Conditions Exn NodeOp Unit (World × Accounts) Input UpsertMessage where
  step _ p _ s :=
    match p with
    | .node o _ => NodeOp.fair o s
    | _ => True
  env := Besides

theorem run_protocol : Protocol (accounting rt) fairRuns Settled
    (fun θ p s => wp (accounting rt) contract p (fun _ _ _ => True) θ s) (fun _ _ => True) := by
  refine .of_wp_during contract_closed (fun _ _ _ => trivial) (fun _ _ h _ => h) (fun _ _ _ _ _ _ => trivial)
    (fun m s _ _ => ?_) (fun o k i θ s hs hfair => ⟨hs, hfair⟩) (fun s s' hs h => ⟨hs.besides h, trivial⟩)
    (fun θ s hs => ⟨?_, trivial⟩)
  · exact wp_mono (fun _ _ _ _ => trivial) (sound_run _ s (.nothing rfl rfl))
  · exact hs.besides (besides_alike rfl (.refl _ _))

theorem node_protocol : Protocol (nodeMachine.recording fun o _ _ r a => o.note r a) fairNodes Settled
    (fun _ _ _ => True) (fun _ _ => True) where
  refl _ := trivial
  start _ _ _ _ := trivial
  step _ _ _ _ _ _ _ _ hs _ hfair hexec := ⟨node_settled hs hfair hexec, trivial, trivial⟩
  drop _ _ _ hs _ _ := ⟨hs, trivial⟩
  env _ _ hs h := ⟨hs.besides h, trivial⟩
  stable _ _ _ _ _ _ := trivial

theorem fair_met {s : Sys Exn (SumOp ProvOp NodeOp) (CapState ⊕ Unit) (World × Accounts)}
    {a : Action (World × Accounts) Input (ProvMessage ⊕ UpsertMessage)} (h : fair.Met s a) :
    (fairRuns.beside fairNodes).Met s a := by
  refine Conditions.met_mono (fun m w _ => ?_) (fun θ p i w h => ?_) (fun θ p w _ => ?_)
    (fun _ _ h => Or.inl h) h
  · cases m <;> trivial
  · cases θ with
    | inl θ =>
      rintro p₁ rfl
      cases p₁ with
      | done r => trivial
      | node o k => exact h
    | inr θ =>
      rintro p₂ rfl
      cases p₂ with
      | done r => trivial
      | node o k => exact h
  · cases θ <;> exact fun _ _ => trivial

/-- The state after some actions of runs and administrators. -/
def capacityReached (w : World) (actions : List (Action (World × Accounts) Input (ProvMessage ⊕ UpsertMessage))) :
    World × Accounts :=
  (runFrom (Sys.next (capacityMachine rt)) (Sys.idle (w, fun _ => none)) actions).shared

/-- What is promised of a node and its account: nothing is missing, nothing is given twice, and no
more is available than was set. -/
structure Conserved (n : ProvisioningNode) (account : Account) : Prop where
  memory : 0 ≤ n.availableMemoryBytes ∧ n.availableMemoryBytes ≤ account.memory
  disk : 0 ≤ n.availableStorageBytes ∧ n.availableStorageBytes ≤ account.disk
  reserved_memory : n.availableMemoryBytes + (account.reserved.map Reservation.memory).sum = account.memory
  reserved_disk : n.availableStorageBytes + (account.reserved.map Reservation.disk).sum = account.disk

/-- Reservations are not negative. -/
theorem Settled.conserved {s : World × Accounts} (hs : Settled s) {n : ProvisioningNode} (hn : n ∈ s.1.db.nodes) :
    ∃ account, s.2 n.id = some account ∧ Conserved n account := by
  obtain ⟨account, ha, hb⟩ := hs.nodes n hn
  have nonneg (f : Reservation → Int) (hf : ∀ e ∈ account.reserved, 0 ≤ f e) :
      0 ≤ (account.reserved.map f).sum := by
    apply List.sum_nonneg
    intro x hx
    obtain ⟨e, he, rfl⟩ := List.mem_map.mp hx
    exact hf e he
  have hmemory := nonneg Reservation.memory fun e he => by
    obtain ⟨r, hr⟩ := hs.backed n.id account ha e he
    exact (hs.sized r (Table.get?_mem hr.stored)).memory _ hr.memory
  have hdisk := nonneg Reservation.disk fun e he => by
    obtain ⟨r, hr⟩ := hs.backed n.id account ha e he
    exact (hs.sized r (Table.get?_mem hr.stored)).disk _ hr.disk
  obtain ⟨hm, hd, hm₀, hd₀⟩ := hb
  exact ⟨account, ha, ⟨hm₀, by omega⟩, ⟨hd₀, by omega⟩, hm, hd⟩

/-- **Capacity is conserved** in every run whose steps are fair. -/
theorem capacity_conserved (w : World) (hnodes : w.db.nodes = .empty) (hsized : ∀ r ∈ w.db.requests, Sized r)
    (actions : List (Action (World × Accounts) Input (ProvMessage ⊕ UpsertMessage)))
    (hrun : Along (Sys.next (capacityMachine rt)) fair.Met (Sys.idle (w, fun _ => none)) actions) :
    ∀ n ∈ (capacityReached rt w actions).1.db.nodes,
      ∃ account, (capacityReached rt w actions).2 n.id = some account ∧ Conserved n account := by
  have hs : Settled (w, fun _ => none) := by
    refine ⟨fun n hn => ?_, (fun _ _ h => by cases h), (fun _ _ h => by cases h), hsized⟩
    have hn : n ∈ w.db.nodes := hn
    rw [hnodes] at hn
    cases hn
  have hprotocol := (run_protocol rt).beside node_protocol
  have hholds := hprotocol.holds_run (Sys.holds_idle hs) (hrun.mono fun _ _ => fair_met)
  exact fun n hn => hholds.shared.conserved hn

end System

/-! ### A reservation that is given back -/

/-- The sample world without a node, which an administrator is going to add. -/
def emptyWorld : World := ⟨{ provisioningDb (sampleRequest 1 .linux) with nodes := .empty }, 0, [], []⟩

theorem emptyWorld_sized : ∀ r ∈ emptyWorld.db.requests, Sized r := by
  intro r hr
  have hr : r = sampleRequest 1 .linux := List.mem_singleton.mp hr
  refine ⟨fun m hm => ?_, fun d hd => ?_⟩
  · rw [hr, show intSpec (sampleRequest 1 .linux) "memory_bytes" = .ok 2147483648 by rfl] at hm
    cases hm
    decide
  · rw [hr, show intSpec (sampleRequest 1 .linux) "disk_bytes" = .ok 10737418240 by rfl] at hd
    cases hd
    decide

/-- A process takes some actions. -/
def acts (pid count : Nat) (i : Input) : List (Action (World × Accounts) Input (ProvMessage ⊕ UpsertMessage)) :=
  List.replicate count (.step pid i)

/-- An administrator sets the capacity of the node to 8 and 100 GiB. -/
def sets (pid : Nat) : List (Action (World × Accounts) Input (ProvMessage ⊕ UpsertMessage)) :=
  .spawn pid (.inr ⟨⟨1, "admin", .superAdmin, 1⟩,
    ⟨1, "pve1", true, false, 8589934592, 107374182400, by decide, by decide⟩⟩) :: acts pid 4 (provisioningInput [])

/-- The request reserves 2 and 10 of them. -/
def reserves : List (Action (World × Accounts) Input (ProvMessage ⊕ UpsertMessage)) :=
  .spawn 1 (.inl ⟨1, 7⟩) :: acts 1 37 (provisioningInput [])

/-- Proxmox does not answer, and the request fails before the clone. -/
def fails : List (Action (World × Accounts) Input (ProvMessage ⊕ UpsertMessage)) :=
  acts 1 25 { provisioningInput [] with
    answers := fun _ => .error (.app ⟨502, "PVE_UPSTREAM_ERROR", "Proxmox did not answer.", []⟩) }

/-- The memory a node has available, by the accounts and by its row. -/
def memoryOf (s : World × Accounts) (id : Uuid) : Option Int × Option Int :=
  ((s.2 id).map Account.memory, (s.1.db.nodes.get? id).map ProvisioningNode.availableMemoryBytes)

/-- A request that reserves and fails leaves the node as it was set. -/
theorem failed_request_conserved :
    (memoryOf (capacityReached asciiRuntime emptyWorld (sets 0 ++ reserves)) 1000 =
        (some 8589934592, some 6442450944) ∧
      memoryOf (capacityReached asciiRuntime emptyWorld (sets 0 ++ reserves ++ fails)) 1000 =
        (some 8589934592, some 8589934592)) ∧
    ∀ n ∈ (capacityReached asciiRuntime emptyWorld (sets 0 ++ reserves ++ fails)).1.db.nodes,
      ∃ account, (capacityReached asciiRuntime emptyWorld (sets 0 ++ reserves ++ fails)).2 n.id = some account ∧
        Conserved n account :=
  ⟨by decide +kernel, capacity_conserved asciiRuntime emptyWorld rfl emptyWorld_sized _
    (Conditions.along_inside (by decide +kernel))⟩

/-- **The capacity is set again** while the request holds its reservation, and the release
comes on top of it. -/
theorem capacity_exceeds_upsert :
    ¬ ∀ (w : World) (actions : List (Action (World × Accounts) Input (ProvMessage ⊕ UpsertMessage))),
      w.db.nodes = .empty → (∀ r ∈ w.db.requests, Sized r) →
      ∀ n ∈ (capacityReached asciiRuntime w actions).1.db.nodes,
        ∃ account, (capacityReached asciiRuntime w actions).2 n.id = some account ∧ Conserved n account := by
  intro h
  have hall := h emptyWorld (sets 0 ++ reserves ++ sets 2 ++ fails) rfl emptyWorld_sized
  have hmemory : memoryOf (capacityReached asciiRuntime emptyWorld (sets 0 ++ reserves ++ sets 2 ++ fails)) 1000 =
      (some 8589934592, some 10737418240) := by decide +kernel
  generalize capacityReached asciiRuntime emptyWorld (sets 0 ++ reserves ++ sets 2 ++ fails) = s at hall hmemory
  obtain ⟨hset, hrow⟩ := Prod.mk.inj hmemory
  obtain ⟨n, hn, havailable⟩ := Option.map_eq_some_iff.mp hrow
  obtain ⟨account, ha, hconserved⟩ := hall n (Table.get?_mem hn)
  have hid : n.id = 1000 := Table.get?_key hn
  rw [hid] at ha
  rw [ha] at hset
  have hvalue : account.memory = 8589934592 := Option.some.inj hset
  have hle := hconserved.memory.2
  omega

end PveMaster.Capacity
