import PveMaster.Foundation.RelyGuarantee
import PveMaster.Provisioning.Edits
import PveMaster.Provisioning.Secrets
import PveMaster.Requests.Acceptances
import PveMaster.Requests.Answers

/-! The life of an initial password.

It is sealed in its row by the call that creates the request, which alone answers with it,
and cleared before the step that hands it to the guest, or the request itself, ends. -/
namespace PveMaster.Secrets
open ProvisioningRunner Prog ProvProg

/-! ### Operations that need no licence -/

theorem calm_licensed {ρ : Type} {o : ProvOp ρ} (h : Calm o) {θ : ProvState} {db : Db} {e : ProvEdit}
    (he : o.edits e) : Licensed θ db e := by
  have hedit (h : e.calm = true) : Licensed θ db e := by
    cases e with
    | stepSucceeded => cases h
    | completed => cases h
    | _ => trivial
  cases o with
  | assign e' =>
    cases he
    exact hedit h
  | commit e' audit =>
    cases he
    exact hedit h
  | selectTarget memory disk =>
    rcases he with rfl | ⟨id, rfl⟩ <;> trivial
  | releaseNodeCapacity =>
    rcases he with rfl | rfl <;> trivial
  | assignOrganization actor =>
    rcases he with rfl | ⟨id, rfl⟩ <;> trivial
  | recordPartialWorkload =>
    rcases he with rfl | ⟨id, rfl⟩ <;> trivial
  | _ =>
    cases he
    trivial


/-! ### What a run knows -/

section Runs
variable {rt : Runtime} {client : Except AppError Unit} {k : Uuid} {F : Lasting}

/-- What the runs of requests rely on and guarantee: passwords only go, and what holds of every
request stays. -/
def contract : Contract ProvOp ProvState World Input where
  may _ _ _ w := Guarded w.db
  rely w w' := Onward w.db w'.db
  guar w w' := Onward w.db w'.db ∧ Guarded w'.db

theorem contract_closed : contract.Closed where
  refl w := .refl w.db
  trans _ _ _ h h' := h.trans h'

/-- What a run may learn of the tables: nothing takes it back. -/
structure Lasting where
  holds : Db → Prop
  stays : ∀ db db', Onward db db' → holds db → holds db'

/-- The password of the request is gone, and stays so. -/
def Lasting.gone (k : Uuid) : Lasting where
  holds := Gone k
  stays _ _ ho h := ho.gone k h

def Lasting.and (F G : Lasting) : Lasting where
  holds db := F.holds db ∧ G.holds db
  stays db db' ho h := ⟨F.stays db db' ho h.1, G.stays db db' ho h.2⟩

/-- A run of the request `k`, and what its session knows of it. -/
structure Knowing (k : Uuid) (θ : ProvState) (w : World) : Prop where
  own : θ.requestId = k
  knows : Knows θ w.db

/-- A run that has its request, for which a lasting fact holds. -/
structure Working (k : Uuid) (F : Lasting) (θ : ProvState) (w : World) : Prop extends Knowing k θ w where
  row : ∃ c, θ.current.request = some c
  fact : F.holds w.db

theorem Knowing.mono {θ : ProvState} {w w' : World} (h : Knowing k θ w) (ho : Onward w.db w'.db) :
    Knowing k θ w' := ⟨h.own, h.knows.mono ho⟩

theorem Working.mono {θ : ProvState} {w w' : World} (h : Working k F θ w) (ho : Onward w.db w'.db) :
    Working k F θ w' := ⟨h.toKnowing.mono ho, h.row, F.stays _ _ ho h.fact⟩

theorem Working.learn {F' : Lasting} {θ : ProvState} {w : World} (h : Working k F θ w)
    (hF : F'.holds w.db) : Working k F' θ w := ⟨h.toKnowing, h.row, hF⟩

/-- **One operation** of a run, if it is licensed. -/
theorem exec_knowing {ρ : Type} {o : ProvOp ρ} {i : Input} {θ θ' : ProvState} {w w' : World} {r : ρ}
    (h : Knowing k θ w) (hG : Guarded w.db) (licensed : ∀ e, o.edits e → Licensed θ w.db e)
    (hexec : (provMachine rt).exec o i θ w = some (θ', w', r)) :
    contract.guar w w' ∧ Knowing k θ' w' := by
  have heffect := (prov_step hexec).effect
  obtain ⟨hG', honward, hknows⟩ := effect_guarded heffect licensed hG h.knows
  exact ⟨⟨honward, hG'⟩, heffect.requestId.trans h.own, hknows⟩

theorem exec_working {ρ : Type} {o : ProvOp ρ} {i : Input} {θ θ' : ProvState} {w w' : World} {r : ρ}
    (h : Working k F θ w) (hG : Guarded w.db) (licensed : ∀ e, o.edits e → Licensed θ w.db e)
    (hloads : o.loads = false) (hexec : (provMachine rt).exec o i θ w = some (θ', w', r)) :
    contract.guar w w' ∧ Working k F θ' w' := by
  obtain ⟨hguar, hknowing⟩ := exec_knowing h.toKnowing hG licensed hexec
  exact ⟨hguar, hknowing, (prov_step hexec).effect.row hloads h.row,
    F.stays _ _ hguar.1 h.fact⟩

theorem calm_loads {ρ : Type} {o : ProvOp ρ} (h : Calm o) : o.loads = false := by
  cases o <;> first | rfl | cases h

/-- A program that needs no licence. -/
theorem wp_calm {α : Type} {p : ProvProg α} (hp : p.Only Calm) {θ : ProvState} {w : World}
    (h : Working k F θ w) : wp (provMachine rt) contract p (fun _ θ w => Working k F θ w) θ w :=
  wp_only (fun _ _ _ ho h => h.mono ho)
    (fun _ _ _ _ _ _ _ ho h hG hexec =>
      exec_working h hG (fun _ => calm_licensed ho) (calm_loads ho) hexec) hp h

/-- What follows such a program. -/
theorem wp_calm_bind {α β : Type} {p : ProvProg α} {f : α → ProvProg β}
    {Q : Except Exn β → ProvState → World → Prop} (hp : p.Only Calm) {θ : ProvState} {w : World}
    (h : Working k F θ w) (hf : ∀ a θ w, Working k F θ w → wp (provMachine rt) contract (f a) Q θ w)
    (he : ∀ e θ w, Working k F θ w → Q (.error e) θ w) :
    wp (provMachine rt) contract (p >>= f) Q θ w := by
  apply wp_bind
  refine wp_mono (fun r θ w hr => ?_) (wp_calm hp h)
  cases r with
  | ok a => exact hf a θ w hr
  | error e => exact he e θ w hr

theorem wp_rows {Q : Except Exn ProvRows → ProvState → World → Prop} {θ : ProvState} {w : World}
    (h : ∀ w' x, Onward w.db w'.db → (∀ rows, x = .ok rows → rows = θ.current) → Q x θ w') :
    wp (provMachine rt) contract ProvProg.rows Q θ w := by
  apply wp_perform
  intro w' ho i θ' w'' r hG hexec
  have hout : (θ, w', if θ.expired then .error .sessionState else .ok θ.current) = (θ', w'', r) :=
    Option.some.inj hexec
  have hrows : ∀ rows, r = .ok rows → rows = θ.current := by
    intro rows hr
    rw [hr] at hout
    split at hout
    · cases hout
    · cases hout
      rfl
  obtain ⟨hθ, hw, -⟩ : θ = θ' ∧ w' = w'' ∧ True := by
    cases hout
    exact ⟨rfl, rfl, trivial⟩
  rw [← hθ, ← hw]
  exact ⟨⟨.refl _, hG⟩, h w' r ho hrows⟩

theorem wp_request {Q : Except Exn ProvisioningRequest → ProvState → World → Prop} {θ : ProvState}
    {w : World} (h : ∀ w' x, Onward w.db w'.db → (∀ r, x = .ok r → θ.current.request = some r) → Q x θ w') :
    wp (provMachine rt) contract ProvProg.request Q θ w := by
  apply wp_bind
  apply wp_rows
  intro w' x ho hrows
  cases x with
  | error e =>
    apply h w' _ ho
    intro r hr
    cases hr
  | ok rows =>
    apply wp_ofExcept.mpr
    apply h w' _ ho
    intro r hr
    rw [← hrows rows rfl]
    exact orRaise_ok.mp hr

/-! ### The identity of the guest -/

/-- The commit that hands the password to nobody any more. -/
theorem wp_passwordCleared {now : Instant} {θ : ProvState} {w : World} (h : Working k F θ w) :
    wp (provMachine rt) contract (commit (.passwordCleared now))
      (fun r θ w => Working k F θ w ∧ (r = .ok () → Gone k w.db)) θ w := by
  apply wp_perform
  intro w' ho i θ' w'' r hG hexec
  have hw := h.mono ho
  have hcalm : Calm (.commit (.passwordCleared now) []) := rfl
  obtain ⟨hguar, hworking⟩ := exec_working hw hG (fun _ he => calm_licensed hcalm he) rfl hexec
  refine ⟨hguar, hworking, fun hr => ?_⟩
  have hassigned := hw.knows.assign rt.settings (e := .passwordCleared now) trivial
  obtain ⟨c, hc⟩ := hw.row
  have hcurrent : (θ.assign rt.settings (.passwordCleared now)).current.request =
      some (clearInitialPassword now c) := by
    show θ.current.request.map _ = _
    rw [hc]
    rfl
  have hcommit : (θ.assign rt.settings (.passwordCleared now)).commit i w'
      { w'.db with auditLogs := w'.db.auditLogs ++ [] } = (θ', w'', r) := Option.some.inj hexec
  rcases commit_cases (θ.assign rt.settings (.passwordCleared now)) i w'
    { w'.db with auditLogs := w'.db.auditLogs ++ [] } with ⟨-, hout⟩ | ⟨x, hout, -⟩ | ⟨-, -, -, hout⟩
  · rw [hcommit, hr] at hout
    cases hout
  · rw [hcommit, hr] at hout
    cases hout
  · rw [hcommit] at hout
    have hdb : w''.db = (θ.assign rt.settings (.passwordCleared now)).flush
        { w'.db with auditLogs := w'.db.auditLogs ++ [] } := by
      cases hout
      rfl
    obtain ⟨r, hr, hcleared⟩ := flush_cleared hassigned hcurrent (cleared_clearInitialPassword now c)
    have hown : θ.requestId = k := h.own
    refine ⟨r, ?_, hcleared⟩
    rw [hdb, ← hown]
    exact hr

/-- A request that is not for Windows has no password. -/
theorem Working.linux {θ : ProvState} {w : World} (h : Working k F θ w) {c : ProvisioningRequest}
    (hc : θ.current.request = some c) (hlinux : ¬ isWindows c) : Gone k w.db := by
  cases h.knows.request with
  | nothing _ current =>
    rw [current] at hc
    cases hc
  | @row l c' loaded current own draft =>
    rw [current] at hc
    cases hc
    rcases draft.loaded with ⟨-, hwindows⟩ | ⟨-, hgone⟩
    · exact absurd (draft.os hwindows) hlinux
    · rw [← h.own, ← own]
      exact hgone

/-- **`CONFIGURE_IDENTITY` succeeds** without the password in the row. -/
theorem wp_configureIdentity {θ : ProvState} {w : World} (h : Working k F θ w) :
    wp (provMachine rt) contract (configureIdentity rt client)
      (fun r θ w => Working k F θ w ∧ (∀ d, r = .ok d → Gone k w.db)) θ w := by
  apply wp_bind
  apply wp_request
  intro w' x ho hx
  have hw := h.mono ho
  cases x with
  | error e => exact ⟨hw, nofun⟩
  | ok c =>
    dsimp only
    split
    · apply wp_bind
      apply wp_request
      intro w₁ x ho hx
      have hw := hw.mono ho
      cases x with
      | error e => exact ⟨hw, nofun⟩
      | ok r =>
        apply wp_bind
        apply wp_ofExcept.mpr
        cases decryptInitialPassword rt r with
        | error e => exact ⟨hw, nofun⟩
        | ok password =>
          refine wp_calm_bind calm_node hw (fun node θ w hw => ?_) fun e θ w hw => ⟨hw, nofun⟩
          refine wp_calm_bind calm_vmid hw (fun vmid θ w hw => ?_) fun e θ w hw => ⟨hw, nofun⟩
          refine wp_calm_bind (calm_str _) hw (fun user θ w hw => ?_) fun e θ w hw => ⟨hw, nofun⟩
          refine wp_calm_bind (calm_call _) hw (fun _ θ w hw => ?_) fun e θ w hw => ⟨hw, nofun⟩
          refine wp_calm_bind (p := ProvProg.now) (only_op rfl) hw (fun cleared θ w hw => ?_) fun e θ w hw => ⟨hw, nofun⟩
          apply wp_bind
          refine wp_mono (fun r θ w hr => ?_) (wp_passwordCleared hw)
          cases r with
          | error e => exact ⟨hr.1, nofun⟩
          | ok _ => exact ⟨hr.1, fun _ _ => hr.2 rfl⟩
    · next hlinux =>
      have hgone := hw.linux (hx c rfl) hlinux
      have hboth : Working k (F.and (.gone k)) θ w' := hw.learn ⟨hw.fact, hgone⟩
      exact wp_mono (fun r θ w hr => ⟨hr.learn hr.fact.1, fun _ _ => hr.fact.2⟩)
        (wp_calm calm_configureKeys hboth)

/-! ### The steps -/

/-- A step that is stored for the request, under its name. -/
def Listed (k : Uuid) (db : Db) (s : ProvisioningStep) : Prop :=
  ∃ s', db.steps.get? s.id = some s' ∧ stepColumns s' = (k, s.stepName)

theorem Listed.mono {db db' : Db} {s : ProvisioningStep} (h : Listed k db s) (ho : Onward db db') :
    Listed k db' s := by
  obtain ⟨s', hs', hcolumns⟩ := h
  obtain ⟨s'', hs'', hkept⟩ := ho.steps _ s' hs'
  exact ⟨s'', hs'', hkept.trans hcolumns⟩

/-- A step of the session is the stored one of its name. -/
theorem Listed.name {θ : ProvState} {db : Db} {s t : ProvisioningStep} (h : Listed k db s)
    (ht : Seen θ db t) (hid : t.id = s.id) : t.stepName = s.stepName := by
  obtain ⟨s', hs', hcolumns⟩ := h
  obtain ⟨t', ht', hcolumns'⟩ := ht.stored
  rw [hid, hs'] at ht'
  cases ht'
  exact (Prod.mk.inj (hcolumns'.symm.trans hcolumns)).2

/-- What is known before the loop over some steps: they are stored, and after those before
them, if `CONFIGURE_IDENTITY` was one, the password is gone. -/
def Lasting.before (k : Uuid) (D : Prop) (steps : List ProvisioningStep) : Lasting where
  holds db := (D → Gone k db) ∧ ∀ s ∈ steps, Listed k db s
  stays _ _ ho h := ⟨fun hD => ho.gone k (h.1 hD), fun s hs => (h.2 s hs).mono ho⟩

/-- A step, with what it has done to the password. -/
theorem wp_executeStep (actor : User) (principal : Principal) (stepId : Uuid) (name : StepName)
    {θ : ProvState} {w : World} (h : Working k F θ w) :
    wp (provMachine rt) contract (executeStep rt actor principal client stepId name)
      (fun r θ w => Working k F θ w ∧ (∀ d, r = .ok d → name = .configureIdentity → Gone k w.db)) θ w := by
  by_cases hname : name = .configureIdentity
  · rw [hname]
    exact wp_mono (fun r θ w hr => ⟨hr.1, fun d hd _ => hr.2 d hd⟩) (wp_configureIdentity h)
  · exact wp_mono (fun r θ w hr => ⟨hr, fun _ _ he => absurd he hname⟩)
      (wp_calm (calm_executeStep actor principal stepId name) h)

/-- The commit of a step's success, of a step that has done its part. -/
theorem wp_stepSucceeded {D : Prop} {step : ProvisioningStep} {rest : List ProvisioningStep} (result : Dict)
    (finished touched : Instant) {θ : ProvState} {w : World}
    (h : Working k ((Lasting.before k D (step :: rest)).and
      (.before k (step.stepName = .configureIdentity) [])) θ w) :
    wp (provMachine rt) contract (commit (.stepSucceeded step.id result finished touched))
      (fun _ θ w => Working k (.before k (D ∨ step.stepName = .configureIdentity) rest) θ w) θ w := by
  apply wp_perform
  intro w' ho i θ' w'' r hG hexec
  have hw := h.mono ho
  obtain ⟨⟨hpast, hlisted⟩, hdone, -⟩ := hw.fact
  have hlicensed : ∀ e, (ProvOp.commit (.stepSucceeded step.id result finished touched) []).edits e →
      Licensed θ w'.db e := by
    rintro e rfl s hs hid hname
    rw [h.own]
    apply hdone
    rw [← hname]
    exact ((hlisted step List.mem_cons_self).name (hw.knows.current s hs) hid).symm
  obtain ⟨hguar, hworking⟩ := exec_working hw hG hlicensed rfl hexec
  refine ⟨hguar, hworking.learn ⟨fun hD => ?_, fun s hs => ?_⟩⟩
  · exact hD.elim hworking.fact.1.1 hworking.fact.2.1
  · exact hworking.fact.1.2 s (List.mem_cons_of_mem _ hs)

/-- What follows a step: the rest of the loop, or the failure of the request. -/
theorem wp_endStep {principal : Principal} {step : ProvisioningStep} {rest : List ProvisioningStep}
    {next : ProvProg Bool} {result : Except Exn Dict} {D : Prop}
    {Q : Except Exn Bool → ProvState → World → Prop} {θ : ProvState} {w : World}
    (h : Working k (.before k D (step :: rest)) θ w)
    (hdone : ∀ d, result = .ok d → step.stepName = .configureIdentity → Gone k w.db)
    (hnext : ∀ θ w, Working k (.before k (D ∨ step.stepName = .configureIdentity) rest) θ w →
      wp (provMachine rt) contract next Q θ w)
    (hend : ∀ F r θ w, r ≠ .ok true → Working k F θ w → Q r θ w) :
    wp (provMachine rt) contract (endStep principal step.id next result) Q θ w := by
  cases result with
  | ok result =>
    have hboth : Working k ((Lasting.before k D (step :: rest)).and
        (.before k (step.stepName = .configureIdentity) [])) θ w :=
      h.learn ⟨h.fact, hdone result rfl, fun s hs => by cases hs⟩
    refine wp_calm_bind (p := ProvProg.now) (only_op rfl) hboth (fun finished θ w hw => ?_)
      fun e θ w hw => hend _ _ θ w (fun h => by cases h) hw
    refine wp_calm_bind (p := ProvProg.now) (only_op rfl) hw (fun touched θ w hw => ?_)
      fun e θ w hw => hend _ _ θ w (fun h => by cases h) hw
    apply wp_bind
    refine wp_mono (fun r θ w hr => ?_) (wp_stepSucceeded result finished touched hw)
    cases r with
    | error e => exact hend _ _ θ w (fun h => by cases h) hr
    | ok _ => exact hnext θ w hr
  | error e =>
    unfold endStep
    dsimp only
    split
    · next error _ =>
      exact wp_calm_bind (calm_failRequest _ _ error) h
        (fun _ θ w hw => hend _ _ θ w (fun h => by cases h) hw)
        fun e θ w hw => hend _ _ θ w (fun h => by cases h) hw
    · split
      · exact wp_calm_bind (calm_failRequest _ _ internalError) h
          (fun _ θ w hw => hend _ _ θ w (fun h => by cases h) hw)
          fun e θ w hw => hend _ _ θ w (fun h => by cases h) hw
      · exact hend _ _ θ w (fun h => by cases h) h

/-- **The loop over the steps**: it comes to its end without the password in the row, if
`CONFIGURE_IDENTITY` is one of them. -/
theorem wp_runSteps (actor : User) (principal : Principal) (steps : List ProvisioningStep) {D : Prop}
    {θ : ProvState} {w : World} (h : Working k (.before k D steps) θ w) :
    wp (provMachine rt) contract (runSteps rt actor principal client steps)
      (fun r θ w => Working k (.before k (r = .ok true ∧
        (D ∨ ∃ s ∈ steps, s.stepName = .configureIdentity)) []) θ w) θ w := by
  have nothing {P : Prop} (hP : ¬ P) {F : Lasting} {θ : ProvState} {w : World} (h : Working k F θ w) :
      Working k (.before k P []) θ w := h.learn ⟨fun h => absurd h hP, fun s hs => by cases hs⟩
  induction steps generalizing D θ w with
  | nil =>
    refine h.learn ⟨fun hD => h.fact.1 (hD.2.resolve_right ?_), fun s hs => by cases hs⟩
    rintro ⟨s, hs, -⟩
    cases hs
  | cons step rest ih =>
    have weaken {r : Except Exn Bool} {θ : ProvState} {w : World}
        (hr : Working k (.before k (r = .ok true ∧ ((D ∨ step.stepName = .configureIdentity) ∨
          ∃ s ∈ rest, s.stepName = .configureIdentity)) []) θ w) :
        Working k (.before k (r = .ok true ∧
          (D ∨ ∃ s ∈ step :: rest, s.stepName = .configureIdentity)) []) θ w := by
      refine hr.learn ⟨fun hD => hr.fact.1 ⟨hD.1, ?_⟩, hr.fact.2⟩
      rcases hD.2 with hD | ⟨s, hs, hname⟩
      · exact Or.inl (Or.inl hD)
      · rcases List.mem_cons.mp hs with rfl | hs
        · exact Or.inl (Or.inr hname)
        · exact Or.inr ⟨s, hs, hname⟩
    apply wp_bind
    apply wp_rows
    intro w₁ x ho hrows
    cases x with
    | error e => exact nothing (fun h => by cases h.1) (h.mono ho)
    | ok session =>
      cases hrows session rfl
      dsimp only
      split
      · -- the session has seen the step succeed
        next hseen =>
        have hw := h.mono ho
        refine wp_mono (fun r θ w hr => weaken hr) (ih (hw.learn ⟨fun hD => ?_, fun s hs => ?_⟩))
        · rcases hD with hD | hname
          · exact hw.fact.1 hD
          · obtain ⟨t, ht, hstatus⟩ := Option.map_eq_some_iff.mp hseen
            have hknown := hw.knows.current t (Table.get?_mem ht)
            have hsame := (hw.fact.2 step List.mem_cons_self).name hknown (Table.get?_key ht)
            rw [← hw.own]
            exact hknown.passed (hsame.trans hname) hstatus
        · exact hw.fact.2 s (List.mem_cons_of_mem _ hs)
      · have hw := h.mono ho
        refine wp_calm_bind (p := ProvProg.now) (only_op rfl) hw (fun touched θ w hw => ?_)
          fun e θ w hw => nothing (fun h => by cases h.1) hw
        refine wp_calm_bind (p := ProvProg.now) (only_op rfl) hw (fun started θ w hw => ?_)
          fun e θ w hw => nothing (fun h => by cases h.1) hw
        refine wp_calm_bind (p := commit (.stepStarted step.id step.stepName touched started)) (only_perform rfl) hw (fun _ θ w hw => ?_)
          fun e θ w hw => nothing (fun h => by cases h.1) hw
        apply wp_bind
        apply wp_attempt
        refine wp_mono (fun r θ w hr => ?_) (wp_executeStep actor principal step.id step.stepName hw)
        exact wp_endStep hr.1 hr.2 (fun θ w hw => wp_mono (fun r θ w hr => weaken hr) (ih hw))
          (fun _ r θ w hr hw => nothing (fun h => hr h.1) hw)

/-! ### Whole runs -/

/-- The end of a run, without the password. -/
theorem wp_complete (actor : User) {θ : ProvState} {w : World} (h : Working k (.gone k) θ w) :
    wp (provMachine rt) contract (complete actor) (fun _ θ w => Knowing k θ w) θ w := by
  refine wp_calm_bind calm_request h (fun r θ w hw => ?_) fun e θ w hw => hw.toKnowing
  refine wp_calm_bind (p := ProvProg.now) (only_op rfl) hw (fun finished θ w hw => ?_)
    fun e θ w hw => hw.toKnowing
  apply wp_perform
  intro w' ho i θ' w'' r' hG hexec
  have hw := hw.mono ho
  refine exec_knowing hw.toKnowing hG ?_ hexec
  rintro e rfl
  show Gone θ.requestId w'.db
  rw [hw.own]
  exact hw.fact

/-- What a load of the steps finds. -/
theorem Working.listed {θ : ProvState} {w : World} (h : Working k F θ w) (hG : Guarded w.db) :
    (∀ s ∈ inOrder (storedSteps w.db k), Listed k w.db s) ∧
      ∃ s ∈ inOrder (storedSteps w.db k), s.stepName = .configureIdentity := by
  have hmem (s : ProvisioningStep) : s ∈ inOrder (storedSteps w.db k) ↔
      s ∈ w.db.steps ∧ s.provisioningRequestId = k := by
    unfold inOrder
    rw [List.mem_insertionSort]
    show s ∈ storedSteps w.db k ↔ _
    unfold storedSteps
    rw [Table.mem_restrict, beq_iff_eq]
  refine ⟨fun s hs => ?_, ?_⟩
  · obtain ⟨hstored, hreq⟩ := (hmem s).mp hs
    exact ⟨s, Table.get?_of_mem hstored, Prod.ext hreq rfl⟩
  · cases h.knows.request with
    | nothing _ current =>
      obtain ⟨c, hc⟩ := h.row
      rw [current] at hc
      cases hc
    | @row l c loaded current own draft =>
      obtain ⟨r, hr⟩ := draft.present
      have hid : r.id = k := (Table.get?_key hr).trans (own.trans h.own)
      obtain ⟨s, hs, hidentifies⟩ := (hG.kept r (Table.get?_mem hr)).planned
      exact ⟨s, (hmem s).mpr ⟨hs, hidentifies.1.trans hid⟩, hidentifies.2⟩

theorem wp_runAuthorized (actor : User) (clusterId : Uuid) {θ : ProvState} {w : World}
    (h : Working k F θ w) :
    wp (provMachine rt) contract (runAuthorized rt actor clusterId) (fun _ θ w => Knowing k θ w) θ w := by
  refine wp_calm_bind (calm_openClient clusterId) h (fun client θ w hw => ?_) fun e θ w hw => hw.toKnowing
  apply wp_bind
  apply wp_op
  intro w' ho i θ' w'' steps hG hexec
  have hw := hw.mono ho
  obtain ⟨hguar, hw'⟩ := exec_working (o := .loadSteps) hw hG
    (fun _ he => calm_licensed (o := .loadSteps) rfl he) rfl hexec
  obtain ⟨hsteps, hdb⟩ : steps = inOrder (storedSteps w'.db k) ∧ w'' = w' := by
    have hout : (PveMaster.loadSteps θ w'.db, w', inOrder (storedSteps w'.db θ.requestId)) =
        (θ', w'', steps) := Option.some.inj hexec
    cases hout
    exact ⟨by rw [hw.own], rfl⟩
  obtain ⟨hlisted, hidentity⟩ := hw.listed hG
  rw [← hsteps] at hlisted hidentity
  refine ⟨hguar, ?_⟩
  have hbefore : Working k (.before k False steps) θ' w'' :=
    hw'.learn ⟨False.elim, fun s hs => by rw [hdb]; exact hlisted s hs⟩
  apply wp_bind
  refine wp_mono (fun r θ w hr => ?_) (wp_runSteps actor _ steps hbefore)
  cases r with
  | error e => exact hr.toKnowing
  | ok ended =>
    cases ended with
    | false => exact hr.toKnowing
    | true => exact wp_complete actor (hr.learn (hr.fact.1 ⟨rfl, Or.inr hidentity⟩))

/-- A run of a request, whether or not it has found its row. -/
theorem wp_runClaimed {θ : ProvState} {w : World} (h : Knowing k θ w) :
    wp (provMachine rt) contract (runClaimed rt) (fun _ θ w => Knowing k θ w) θ w := by
  apply wp_bind
  apply wp_request
  intro w₁ x ho hx
  have hknowing := h.mono ho
  cases x with
  | error e => exact hknowing
  | ok r =>
    have hw : Working k ⟨fun _ => True, fun _ _ _ _ => trivial⟩ θ w₁ :=
      ⟨hknowing, ⟨r, hx r rfl⟩, trivial⟩
    refine wp_calm_bind (p := Prog.op (.getUser r.requestedById)) (only_op rfl) hw
      (fun user θ w hw => ?_) fun e θ w hw => hw.toKnowing
    cases authorized user with
    | none =>
      refine wp_calm_bind (p := Prog.op (.assign .revoked)) (only_op rfl) hw (fun _ θ w hw => ?_)
        fun e θ w hw => hw.toKnowing
      exact wp_mono (fun r θ w hr => hr.toKnowing) (wp_calm (calm_failRequest none none _) hw)
    | some actor => exact wp_runAuthorized actor _ hw

theorem wp_releaseClaim {θ : ProvState} {w : World} (h : Knowing k θ w) :
    wp (provMachine rt) contract ProvisioningRunner.releaseClaim (fun _ _ _ => True) θ w := by
  apply wp_bind
  apply wp_request
  intro w₁ x ho hx
  cases x with
  | error e => trivial
  | ok r =>
    apply wp_op
    intro w' ho' i θ' w'' r' hG hexec
    refine ⟨(exec_knowing ((h.mono ho).mono ho') hG (fun _ he => ?_) hexec).1, trivial⟩
    exact calm_licensed (o := .releaseClaim) rfl he

/-- **A run of the runner** keeps to the contract. -/
theorem wp_run {θ : ProvState} {w : World} (h : Knowing k θ w) :
    wp (provMachine rt) contract (run rt) (fun _ _ _ => True) θ w := by
  apply wp_bind
  apply wp_op
  intro w₁ ho₁ i₁ θ₁ w₁' time hG₁ hexec₁
  obtain ⟨hguar₁, hk₁⟩ := exec_knowing (o := .now) (h.mono ho₁) hG₁
    (fun _ he => calm_licensed (o := .now) rfl he) hexec₁
  refine ⟨hguar₁, ?_⟩
  apply wp_bind
  apply wp_perform
  intro w₂ ho₂ i₂ θ₂ w₂' claimed hG₂ hexec₂
  obtain ⟨hguar₂, hk₂⟩ := exec_knowing (o := .claim time) (hk₁.mono ho₂) hG₂
    (fun _ he => calm_licensed (o := .claim time) rfl he) hexec₂
  refine ⟨hguar₂, ?_⟩
  cases claimed with
  | error e => trivial
  | ok claimed =>
    cases claimed with
    | false => trivial
    | true =>
      apply wp_bind
      apply wp_op
      intro w₃ ho₃ i₃ θ₃ w₃' _ hG₃ hexec₃
      obtain ⟨hguar₃, hk₃⟩ := exec_knowing (o := .load) (hk₂.mono ho₃) hG₃ (by rintro e rfl; trivial) hexec₃
      refine ⟨hguar₃, ?_⟩
      apply wp_always
      refine wp_mono (fun r θ w hr => wp_mono (fun l θ w _ => ?_) (wp_releaseClaim hr)) (wp_runClaimed hk₃)
      cases l <;> trivial

theorem knowing_start (m : ProvMessage) (w : World) : Knowing m.requestId ((provMachine rt).start m).1 w :=
  ⟨rfl, .nothing rfl rfl, (fun _ hs => by cases hs), (fun _ hs => by cases hs)⟩

end Runs
end PveMaster.Secrets
