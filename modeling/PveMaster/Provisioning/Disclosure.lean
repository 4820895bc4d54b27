import PveMaster.Provisioning.Passwords

/-! Who is told an initial password.

The calls that answer about requests beside the runs that work them off. Only the call that
has inserted a request answers with a password, and nothing that happens later brings one
back into its row. -/
namespace PveMaster.Secrets
open ProvisioningService Prog ServiceProg
open ProvisioningRunner (isWindows)

/-! ### The insert of a request -/

/-- A request as it is inserted, with its steps: its password is sealed if the guest is to run
Windows, and there is none otherwise. -/
structure Fresh (r : ProvisioningRequest) (steps : List ProvisioningStep) : Prop where
  columns : Sealed r ∧ isWindows r ∨ Cleared r
  queued : r.status = .queued
  pending : ∀ s ∈ steps, s.status = .pending ∧ s.provisioningRequestId = r.id
  planned : ∃ s ∈ steps, Identifies r.id s

/-- A password is encrypted for a request whose template is for Windows. -/
theorem fresh_queued (rt : Runtime) (api : Api) (principal : Principal) (id : Uuid) (taskId : String)
    (keyHash fingerprint : Digest) (p : RequestCreate) (refs : References) (draws ids : Nat → Uuid) :
    Fresh (queuedRequest rt principal id taskId keyHash fingerprint p refs
      (if refs.template.osType = .windows then some (api.encryptPassword draws p.targetClusterId id) else none))
      (pendingSteps id ids) := by
  refine ⟨?_, rfl, fun s hs => ?_, ?_⟩
  · by_cases hos : refs.template.osType = .windows
    · rw [if_pos hos]
      refine Or.inl ⟨⟨nofun, nofun, nofun⟩, ?_⟩
      show (specSnapshot p refs).get? "os_type" = _
      show some (Json.str refs.template.osType.value) = _
      rw [hos]
    · rw [if_neg hos]
      exact Or.inr ⟨rfl, rfl, rfl⟩
  · obtain ⟨x, -, rfl⟩ := List.mem_map.mp hs
    exact ⟨rfl, rfl⟩
  · refine ⟨ProvisioningService.pendingStep id (ids 11) 11 .configureIdentity, ?_, rfl, rfl⟩
    exact List.mem_map.mpr ⟨(.configureIdentity, 11), by decide, rfl⟩

section Insert
variable {db db' : Db} {r : ProvisioningRequest} {steps : List ProvisioningStep} {audit : AuditLog}

theorem keeps_insertAll {γ : Type} {f : ProvisioningStep → γ} {l : List ProvisioningStep}
    {t t' : Table ProvisioningStep} (h : t.insertAll l = some t') : Table.Keeps f t t' := by
  induction l generalizing t with
  | nil =>
    cases h
    exact .refl _ _
  | cons s rest ih =>
    obtain ⟨t₁, hinsert, hrest⟩ := Option.bind_eq_some_iff.mp h
    exact (Table.keeps_insert hinsert).trans (ih hrest)

/-- **The insert of a request** keeps what holds of every request. -/
theorem create_guarded (h : db.createRequest r steps audit = .ok db') (hfresh : Fresh r steps)
    (hG : Guarded db) : Guarded db' ∧ Onward db db' := by
  obtain ⟨hrequests, hsteps, -⟩ := Acceptances.createRequest_ok h
  have hinsert := (insertUnless_some hrequests).2
  have hnew : db.requests.get? r.id = none := Table.get?_eq_none.mpr (Table.insert_some hinsert).2
  have hstored : Table.Keeps ProvisioningRequest.id db.requests db'.requests := Table.keeps_insert hinsert
  have hsame {k : Uuid} {q : ProvisioningRequest} (hq : db.requests.get? k = some q) :
      db'.requests.get? k = some q := by
    rw [Table.get?_insert_of_ne hinsert ?_]
    · exact hq
    · rintro rfl
      cases hnew.symm.trans hq
  -- the new steps are those of the new request
  have hstep {s : ProvisioningStep} (hs : s ∈ db'.steps) :
      s ∈ db.steps ∨ s.status = .pending ∧ s.provisioningRequestId = r.id :=
    ((Table.mem_insertAll hsteps).mp hs).imp_right (hfresh.pending s)
  refine ⟨⟨fun q hq => ?_, fun s hs => ?_⟩, fun k ⟨q, hq, hc⟩ => ⟨q, hsame hq, hc⟩, hstored,
    keeps_insertAll hsteps⟩
  · rcases (Table.mem_insert hinsert).mp hq with hq | rfl
    · have hkept := hG.kept q hq
      refine ⟨hkept.columns, hkept.unfinished, fun hs s hmem hidentifies hstatus => ?_, ?_⟩
      · rcases hstep hmem with hmem | ⟨hpending, -⟩
        · exact hkept.unidentified hs s hmem hidentifies hstatus
        · rw [hpending] at hstatus
          cases hstatus
      · obtain ⟨s, hs, hidentifies⟩ := hkept.planned
        exact ⟨s, (Table.mem_insertAll hsteps).mpr (Or.inl hs), hidentifies⟩
    · refine ⟨hfresh.columns, fun _ => by rw [hfresh.queued]; rfl, fun _ s hmem hidentifies hstatus => ?_, ?_⟩
      · rcases hstep hmem with hmem | ⟨hpending, -⟩
        · obtain ⟨q', hq'⟩ := hG.owned s hmem
          rw [hidentifies.1, hnew] at hq'
          cases hq'
        · rw [hpending] at hstatus
          cases hstatus
      · obtain ⟨s, hs, hidentifies⟩ := hfresh.planned
        exact ⟨s, (Table.mem_insertAll hsteps).mpr (Or.inr hs), hidentifies⟩
  · rcases hstep hs with hs | ⟨-, hreq⟩
    · obtain ⟨q, hq⟩ := hG.owned s hs
      exact ⟨q, hsame hq⟩
    · rw [hreq]
      exact ⟨r, Table.get?_insert_same hinsert⟩

end Insert

/-! ### The calls -/

section Calls
variable {rt : Runtime} {api : Api} {α ρ : Type}

/-- What the calls rely on and guarantee: whatever others do, no password comes back into a row.
-/
def answering : Contract AnswerOp AnswerProcess World Input where
  may _ _ _ w := Guarded w.db
  rely w w' := Onward w.db w'.db
  guar w w' := Onward w.db w'.db ∧ Guarded w'.db

theorem answering_closed : answering.Closed where
  refl w := .refl w.db
  trans _ _ _ h h' := h.trans h'

/-- An operation that writes nothing, so it cannot be what inserted a request. -/
def Silent {ρ : Type} (o : ServiceOp ρ) : Prop :=
  o.accepted = none ∧ o.created = none ∧ o.transaction = none

theorem quiet_silent : Acceptances.Quiet Silent := fun _ ha hc ht => ⟨ha, hc, ht⟩

/-- A part of a call, in the process that serves it, with what that process has inserted so far.
-/
abbrev Serving (rt : Runtime) (api : Api) (p : ServiceProg α)
    (Q : Except Exn α → AnswerProcess → World → Prop) : AnswerProcess → World → Prop :=
  wp (answerMachine rt api) answering (p.rename .service) Q

theorem exec_silent {o : ServiceOp ρ} (ho : Silent o) {i : Input} {θ θ' : AnswerProcess} {w w' : World} {r : ρ}
    (h : (answerMachine rt api).exec (.service o) i θ w = some (θ', w', r)) : θ' = θ ∧ w'.db = w.db := by
  have heffect := service_effect o i { userId := θ.message.principal.userId } w
  have hinserted : inserted o i w.db = [] := by
    cases o with
    | create => cases ho.2.1
    | _ => rfl
  generalize hdb : (o.exec i { userId := θ.message.principal.userId } w).2.1.db = db' at heffect
  have hsame : db' = w.db := by
    cases heffect with
    | nothing => rfl
    | accepted h => rw [ho.1] at h; cases h
    | created h => rw [ho.2.1] at h; cases h
    | transacted h => rw [ho.2.2] at h; cases h
  cases h
  rw [hinserted, List.append_nil]
  exact ⟨rfl, hdb.trans hsame⟩

theorem serving_bind {β : Type} {p : ServiceProg α} {f : α → ServiceProg β}
    {Q : Except Exn β → AnswerProcess → World → Prop} {θ : AnswerProcess} {w : World}
    (h : Serving rt api p (fun r θ w => match r with
      | .ok a => Serving rt api (f a) Q θ w
      | .error e => Q (.error e) θ w) θ w) : Serving rt api (p >>= f) Q θ w := by
  unfold Serving
  rw [Prog.rename_bind]
  refine wp_bind (wp_mono (fun r θ w hr => ?_) h)
  cases r <;> exact hr

/-- A part that writes nothing. -/
theorem serving_silent {β : Type} {p : ServiceProg α} {f : α → ServiceProg β} (hp : p.Only Silent)
    {Q : Except Exn β → AnswerProcess → World → Prop} {θ : AnswerProcess} {w : World}
    (h : ∀ a w, Serving rt api (f a) Q θ w) (he : ∀ e w, Q (.error e) θ w) :
    Serving rt api (p >>= f) Q θ w := by
  apply serving_bind
  induction p generalizing w with
  | done r =>
    cases r with
    | ok a => exact h a w
    | error e => exact he e w
  | node o k ih =>
    intro w' _ i θ' w'' r hG hexec
    obtain ⟨hθ, hdb⟩ := exec_silent hp.1 hexec
    rw [hθ]
    refine ⟨?_, ih r (hp.2 r)⟩
    show Onward w'.db w''.db ∧ Guarded w''.db
    rw [hdb]
    exact ⟨.refl _, hG⟩

/-- The call is one of `create_request` that has inserted the request. A call under a key that was
used before has not. -/
structure Created (θ : AnswerProcess) (requestId : Uuid) : Prop where
  call : ∃ payload idempotencyKey, θ.message.call = .create payload idempotencyKey
  inserted : requestId ∈ θ.created

/-- The password of an answer is that of a request the call has inserted. -/
def Told (θ : AnswerProcess) (answer : RequestResponse) : Prop :=
  answer.initialPassword ≠ none → Created θ answer.id

/-- `_request_response` tells what it is given. -/
theorem serving_response {β : Type} {request : ProvisioningRequest} {initialPassword : Option String}
    {f : RequestResponse → ServiceProg β} {Q : Except Exn β → AnswerProcess → World → Prop}
    {θ : AnswerProcess} {w : World} (hcreated : initialPassword ≠ none → Created θ request.id)
    (h : ∀ a w, Told θ a → Serving rt api (f a) Q θ w) (he : ∀ e w, Q (.error e) θ w) :
    Serving rt api (requestResponse rt request initialPassword >>= f) Q θ w := by
  unfold requestResponse
  simp only [bind_assoc]
  refine serving_silent (p := query _) (Acceptances.only_query quiet_silent _) (fun steps w => ?_) he
  refine serving_silent (p := query _) (Acceptances.only_query quiet_silent _) (fun address w => ?_) he
  refine serving_silent (p := ofExcept _) only_done (fun osType w => ?_) he
  rw [pure_bind]
  exact h _ w hcreated

theorem inserted_create {r : ProvisioningRequest} {steps : List ProvisioningStep} {audit : AuditLog} {i : Input}
    {w w' : World} {θ θ' : AnswerProcess} {x : Except Refusal Unit}
    (h : (answerMachine rt api).exec (.service (.create r steps audit id)) i θ w = some (θ', w', x)) :
    (∃ e, x = .error e) ∧ w' = w ∨
      x = .ok () ∧ (θ'.message = θ.message ∧ r.id ∈ θ'.created) ∧ w.db.createRequest r steps audit = .ok w'.db := by
  have hout : ({ θ with created := θ.created ++ inserted (.create r steps audit id) i w.db },
      commitAs i Refusal.database (·.createRequest r steps audit) w id) = (θ', w', x) := Option.some.inj h
  unfold inserted commitAs at hout
  dsimp only at hout
  cases hr : i.reject with
  | some e =>
    rw [hr] at hout
    cases hout
    exact Or.inl ⟨⟨_, rfl⟩, rfl⟩
  | none =>
    rw [hr] at hout
    cases hdb : w.db.createRequest r steps audit with
    | error e =>
      rw [hdb] at hout
      cases hout
      exact Or.inl ⟨⟨_, rfl⟩, rfl⟩
    | ok db =>
      rw [hdb] at hout
      cases hout
      exact Or.inr ⟨rfl, ⟨rfl, List.mem_append_right _ List.mem_cons_self⟩, rfl⟩

theorem silent_references (p : RequestCreate) : (validateReferences p).Only Silent :=
  only_bind (Acceptances.only_query quiet_silent _) fun _ =>
    only_bind (Acceptances.only_query quiet_silent _) fun _ =>
      only_bind (Acceptances.only_query quiet_silent _) fun _ =>
        only_bind (Acceptances.only_query quiet_silent _) fun _ =>
          only_bind (Acceptances.only_query quiet_silent _) fun _ =>
            only_bind (Acceptances.only_query quiet_silent _) fun _ => only_done

/-- **A call is accepted** with a password only if it has inserted the request. -/
theorem serving_accept (principal : Principal) (p : RequestCreate) (key : String) (θ : AnswerProcess)
    (w : World) (hcall : θ.message.call = .create p key) :
    Serving rt api (acceptRequest rt api principal p key)
      (fun r θ _ => ∀ a, r = .ok a → a.initialPassword ≠ none → Created θ a.request.id) θ w := by
  have hfail (e : Exn) (θ : AnswerProcess) : ∀ a : Accepted, Except.error e = Except.ok a →
      a.initialPassword ≠ none → Created θ a.request.id := fun a h => by cases h
  refine serving_silent (p := ofExcept _) only_done (fun _ w => ?_) fun e w => hfail e θ
  refine serving_silent (p := op _) (only_op ⟨rfl, rfl, rfl⟩) (fun found w => ?_) fun e w => hfail e θ
  cases found with
  | some existing =>
    dsimp only
    split
    · exact hfail _ θ
    · intro a ha hpassword
      cases ha
      exact absurd rfl hpassword
  | none =>
    refine serving_silent (silent_references p) (fun refs w => ?_) fun e w => hfail e θ
    refine serving_silent (Acceptances.only_validateTarget quiet_silent p _) (fun _ w => ?_)
      fun e w => hfail e θ
    refine serving_silent (p := uuid4) (only_op ⟨rfl, rfl, rfl⟩) (fun taskId w => ?_) fun e w => hfail e θ
    refine serving_silent (p := uuid4) (only_op ⟨rfl, rfl, rfl⟩) (fun requestId w => ?_) fun e w => hfail e θ
    refine serving_silent (p := op _) (only_op ⟨rfl, rfl, rfl⟩) (fun draws w => ?_) fun e w => hfail e θ
    refine serving_silent (p := op _) (only_op ⟨rfl, rfl, rfl⟩) (fun ids w => ?_) fun e w => hfail e θ
    intro w' _ i θ' w'' x hG hexec
    rcases inserted_create hexec with ⟨⟨e, rfl⟩, rfl⟩ | ⟨rfl, ⟨hmessage, hcreated⟩, hstored⟩
    · refine ⟨⟨.refl _, hG⟩, ?_⟩
      cases e <;> exact hfail _ θ'
    · obtain ⟨hG', honward⟩ := create_guarded hstored (fresh_queued rt api principal _ _ _ _ p refs draws ids) hG
      refine ⟨⟨honward, hG'⟩, fun a ha _ => ?_⟩
      cases ha
      exact ⟨⟨p, key, by rw [hmessage]; exact hcall⟩, hcreated⟩

/-- The answer of a call keeps the passwords of others to itself. -/
def Discreet (θ : AnswerProcess) (answer : Except Exn (List RequestResponse)) : Prop :=
  ∀ responses, answer = .ok responses → ∀ a ∈ responses, Told θ a

theorem discreet_error (e : Exn) (θ : AnswerProcess) : Discreet θ (.error e) := fun _ h => by cases h

theorem discreet_single {θ : AnswerProcess} {a : RequestResponse} (h : Told θ a) : Discreet θ (.ok [a]) := by
  intro rs hrs b hb
  cases hrs
  rw [List.mem_singleton.mp hb]
  exact h

theorem serving_responses (requests : List ProvisioningRequest) (θ : AnswerProcess) (w : World) :
    Serving rt api (responses rt requests) (fun r θ' _ => θ' = θ ∧ Discreet θ r) θ w := by
  induction requests generalizing w with
  | nil =>
    refine ⟨rfl, fun rs hrs a ha => ?_⟩
    cases hrs
    cases ha
  | cons request rest ih =>
    refine serving_response (fun h => absurd rfl h) (fun first w hfirst => ?_)
      fun e w => ⟨rfl, discreet_error e θ⟩
    apply serving_bind
    refine wp_mono (fun r θ' w hr => ?_) (ih w)
    obtain ⟨rfl, hothers⟩ := hr
    cases r with
    | error e => exact ⟨rfl, discreet_error e θ'⟩
    | ok others =>
      refine ⟨rfl, fun rs hrs a ha => ?_⟩
      cases hrs
      rcases List.mem_cons.mp ha with rfl | ha
      · exact hfirst
      · exact hothers others rfl a ha

/-- **Every call answers discreetly.** -/
theorem serving_answers (m : AnswerMessage) (w : World) :
    Serving rt api (m.answers rt api) (fun r θ _ => Discreet θ r) ⟨m, [], none⟩ w := by
  unfold AnswerMessage.answers
  generalize hθ : (⟨m, [], none⟩ : AnswerProcess) = θ
  have hmessage : θ.message = m := by rw [← hθ]
  cases hcall : m.call with
  | create payload key =>
    dsimp only
    unfold createAnswer
    simp only [bind_assoc]
    apply serving_bind
    refine wp_mono (fun r θ w hr => ?_) (serving_accept m.principal payload key θ w (by rw [hmessage, hcall]))
    cases r with
    | error e => exact discreet_error e θ
    | ok accepted =>
      exact serving_response (hr accepted rfl) (fun a w ha => discreet_single ha)
        fun e w => discreet_error e θ
  | get requestId =>
    dsimp only
    unfold getRequest
    simp only [bind_assoc]
    refine serving_silent (p := ofExcept _) only_done (fun _ w => ?_) fun e w => discreet_error e θ
    refine serving_silent (p := query _) (Acceptances.only_query quiet_silent _) (fun found w => ?_)
      fun e w => discreet_error e θ
    cases found with
    | none => exact discreet_error _ θ
    | some request =>
      exact serving_response (fun h => absurd rfl h) (fun a w ha => discreet_single ha)
        fun e w => discreet_error e θ
  | list =>
    refine serving_silent (p := ofExcept _) only_done (fun _ w => ?_) fun e w => discreet_error e θ
    refine serving_silent (p := query _) (Acceptances.only_query quiet_silent _) (fun requests w => ?_)
      fun e w => discreet_error e θ
    refine wp_mono (fun r θ' w hr => ?_) (serving_responses requests θ w)
    rw [hr.1]
    exact hr.2

/-- A call on its way to its answer, or past it. -/
inductive Answers (rt : Runtime) (api : Api) (θ : AnswerProcess) (p : Prog Exn AnswerOp Unit) (w : World) : Prop
  | working {q : ServiceProg (List RequestResponse)}
      (program : p = (q.rename .service).andThen fun a => op (.respond a id))
      (serving : Serving rt api q (fun r θ _ => Discreet θ r) θ w) (silent : θ.answer = none)
  | answered {r : Except Exn Unit} (program : p = .done r) (told : ∀ a, θ.answer = some a → Discreet θ a)

theorem Answers.discreet {θ : AnswerProcess} {p : Prog Exn AnswerOp Unit} {w : World}
    (h : Answers rt api θ p w) {a : Except Exn (List RequestResponse)} (ha : θ.answer = some a) :
    Discreet θ a := by
  cases h with
  | working _ _ silent =>
    rw [silent] at ha
    cases ha
  | answered _ told => exact told a ha

end Calls

/-! ### The system -/

section System
variable (rt : Runtime) (api : Api)

/-- The runs of requests beside the calls that create and read them. -/
def passwordMachine : Machine Exn (SumOp ProvOp AnswerOp) (ProvState ⊕ AnswerProcess) World Input
    (ProvMessage ⊕ AnswerMessage) := (provMachine rt).beside (answerMachine rt api)

/-- Nothing else writes the two tables, of requests and of steps. -/
def Elsewhere (w w' : World) : Prop := w'.db.requests = w.db.requests ∧ w'.db.steps = w.db.steps

theorem Elsewhere.keeps {w w' : World} (h : Elsewhere w w') (hG : Guarded w.db) :
    Guarded w'.db ∧ Onward w.db w'.db := by
  obtain ⟨hrequests, hsteps⟩ := h
  refine ⟨⟨fun r hr => ?_, ?_⟩, fun k hk => ?_, ?_, ?_⟩
  · rw [hrequests] at hr
    have hkept := hG.kept r hr
    refine ⟨hkept.columns, hkept.unfinished, ?_, ?_⟩
    · rw [hsteps]
      exact hkept.unidentified
    · rw [hsteps]
      exact hkept.planned
  · rw [hsteps, hrequests]
    exact hG.owned
  · unfold Gone
    rw [hrequests]
    exact hk
  · rw [hrequests]
    exact .refl _ _
  · rw [hsteps]
    exact .refl _ _

theorem run_protocol : Protocol (provMachine rt) { env := Elsewhere } (fun w => Guarded w.db)
    (fun θ p w => wp (provMachine rt) contract p (fun _ _ _ => True) θ w) contract.rely :=
  .of_wp_during contract_closed (fun _ _ h => h.1) (fun _ _ h _ => h.2) (fun _ _ _ _ _ _ => trivial)
    (fun m w _ _ => wp_run (knowing_start m w)) (fun _ _ _ _ _ hG _ => hG)
    (fun _ _ hG h => h.keeps hG) (fun _ w hG => ⟨hG, .refl w.db⟩)

theorem answer_protocol : Protocol (answerMachine rt api) { env := Elsewhere } (fun w => Guarded w.db)
    (Answers rt api) contract.rely where
  refl w := .refl w.db
  start m w _ _ := .working rfl (serving_answers m w) rfl
  step o k i θ θ' w w' r hG hL _ hexec := by
    cases hL with
    | answered program => cases program
    | @working q program serving silent =>
      cases q with
      | done a =>
        cases program
        cases hexec
        have hdiscreet : Discreet θ a := serving
        refine ⟨hG, .refl w.db, .answered rfl fun a' ha rs hrs b hb hpassword => ?_⟩
        cases ha
        have hcreated := hdiscreet rs hrs b hb hpassword
        exact ⟨hcreated.call, hcreated.inserted⟩
      | node o' k' =>
        cases program
        obtain ⟨⟨honward, hG'⟩, hrest⟩ := serving w (.refl w.db) i θ' w' r hG hexec
        refine ⟨hG', honward, .working rfl hrest ?_⟩
        cases hexec
        exact silent
  drop _ _ w hG _ _ := ⟨hG, .refl w.db⟩
  env _ _ hG h := h.keeps hG
  stable θ p w w' ho hL := by
    cases hL with
    | working program serving silent =>
      exact .working program (wp_rely answering_closed (fun _ _ _ _ _ h => h) ho serving) silent
    | answered program told => exact .answered program told

theorem password_protocol : Protocol (passwordMachine rt api)
    (Conditions.beside { env := Elsewhere } { env := Elsewhere }) (fun w => Guarded w.db)
    (Beside (fun θ p w => wp (provMachine rt) contract p (fun _ _ _ => True) θ w) (Answers rt api))
    contract.rely := (run_protocol rt).beside (answer_protocol rt api)

/-- What a run is assumed to keep to: nothing else writes the two tables. -/
def elsewhere : Conditions Exn (SumOp ProvOp AnswerOp) (ProvState ⊕ AnswerProcess) World Input
    (ProvMessage ⊕ AnswerMessage) where
  env := Elsewhere

instance (m : ProvMessage ⊕ AnswerMessage) (w : World) : Decidable (elsewhere.spawn m w) := .isTrue trivial

instance (θ : ProvState ⊕ AnswerProcess) (p : Prog Exn (SumOp ProvOp AnswerOp) Unit) (i : Input) (w : World) :
    Decidable (elsewhere.step θ p i w) := .isTrue trivial

instance (θ : ProvState ⊕ AnswerProcess) (p : Prog Exn (SumOp ProvOp AnswerOp) Unit) (w : World) :
    Decidable (elsewhere.crash θ p w) := .isTrue trivial

theorem elsewhere_met {s : Sys Exn (SumOp ProvOp AnswerOp) (ProvState ⊕ AnswerProcess) World}
    {a : Action World Input (ProvMessage ⊕ AnswerMessage)} (h : elsewhere.Met s a) :
    (Conditions.beside { env := Elsewhere } { env := Elsewhere }).Met s a := by
  refine Conditions.met_mono (fun m w _ => ?_) (fun θ p i w _ => ?_) (fun θ p w _ => ?_)
    (fun _ _ h => Or.inl h) h
  · cases m <;> trivial
  · cases θ <;> exact fun _ _ => trivial
  · cases θ <;> exact fun _ _ => trivial

/-- The state after some actions of runs and calls. -/
def secretsReached (w : World) (actions : List (Action World Input (ProvMessage ⊕ AnswerMessage))) :
    Sys Exn (SumOp ProvOp AnswerOp) (ProvState ⊕ AnswerProcess) World :=
  runFrom (Sys.next (passwordMachine rt api)) (Sys.idle w) actions

/-- What is promised of the password of a request: it is there as a whole or not at all, only
while it is still needed, and not after the end. -/
structure Lifecycle (db : Db) (r : ProvisioningRequest) : Prop where
  columns : Sealed r ∨ Cleared r
  sealed : Sealed r → (r.status = .queued ∨ r.status = .running) ∧
    ∀ s ∈ db.steps, s.provisioningRequestId = r.id → s.stepName = .configureIdentity → s.status ≠ .succeeded
  terminal : r.status.terminal = true → Cleared r

theorem Guarded.lifecycle {db : Db} (h : Guarded db) {r : ProvisioningRequest} (hr : r ∈ db.requests) :
    Lifecycle db r := by
  have hkept := h.kept r hr
  refine ⟨hkept.columns.imp_left And.left, fun hs => ⟨?_, fun s hmem hreq hname => ?_⟩, fun ht => ?_⟩
  · have hopen := hkept.unfinished hs
    cases hstatus : r.status with
    | queued => exact Or.inl rfl
    | running => exact Or.inr rfl
    | _ =>
      rw [hstatus] at hopen
      cases hopen
  · exact hkept.unidentified hs s hmem ⟨hreq, hname⟩
  · refine hkept.columns.resolve_left fun hs => ?_
    rw [hkept.unfinished hs.1] at ht
    cases ht

/-- **The life of an initial password**, over every run of executions and calls from tables
without requests: where it is stored, when it goes, and who is told. -/
theorem password_lifecycle (w : World) (hrequests : w.db.requests = .empty) (hsteps : w.db.steps = .empty)
    (before after : List (Action World Input (ProvMessage ⊕ AnswerMessage)))
    (hrun : Along (Sys.next (passwordMachine rt api)) elsewhere.Met (Sys.idle w) (before ++ after)) :
    (∀ r ∈ (secretsReached rt api w (before ++ after)).shared.db.requests,
      Lifecycle (secretsReached rt api w (before ++ after)).shared.db r) ∧
    (∀ k r, (secretsReached rt api w before).shared.db.requests.get? k = some r → Cleared r →
      ∃ r', (secretsReached rt api w (before ++ after)).shared.db.requests.get? k = some r' ∧ Cleared r') ∧
    (∀ pid θ p responses, (secretsReached rt api w (before ++ after)).procs pid = some (.inr θ, p) →
      θ.answer = some (.ok responses) → ∀ a ∈ responses, a.initialPassword ≠ none → Created θ a.id) := by
  have hG : Guarded w.db := by
    refine ⟨fun r hr => ?_, fun s hs => ?_⟩
    · rw [hrequests] at hr
      cases hr
    · rw [hsteps] at hs
      cases hs
  have hrun' := hrun.mono fun _ _ => elsewhere_met
  have hidle : (Sys.idle w : Sys Exn (SumOp ProvOp AnswerOp) (ProvState ⊕ AnswerProcess) World).Holds _ _ :=
    Sys.holds_idle (L := Beside (fun θ p w => wp (provMachine rt) contract p (fun _ _ _ => True) θ w)
      (Answers rt api)) (I := fun w => Guarded w.db) hG
  have hholds := (password_protocol rt api).holds_run hidle hrun'
  refine ⟨fun r hr => hholds.shared.lifecycle hr, fun k r hr hc => ?_, fun pid θ p responses hp ha a hmem => ?_⟩
  · obtain ⟨hbefore, hafter⟩ := along_append.mp hrun'
    have hgone := (password_protocol rt api).keeps_run (J := fun w => Gone k w.db)
      (fun _ _ ho h => Onward.gone ho k h) ((password_protocol rt api).holds_run hidle hbefore)
      ⟨r, hr, hc⟩ hafter
    rw [← runFrom_append] at hgone
    exact hgone
  · obtain ⟨p', -, hanswers⟩ := hholds.each pid (.inr θ) p hp
    exact hanswers.discreet ha responses rfl a hmem

end System

/-! ### A Windows request -/

/-- The sample world without a request, with the source of its Windows template. -/
def orderedWorld : World :=
  ⟨{ provisioningDb (sampleRequest 1 .windows) with
      requests := .empty
      steps := .empty
      workloads := .single { newWorkload 1 (sampleRequest 1 .windows) 9000
        ⟨1, 1, "pve1", true, false, 8589934592, 107374182400, none⟩ "STOPPED" 2 2147483648 10737418240
        none 0 with isTemplate := true } }, 0, [], []⟩

def sampleOrder : RequestCreate where
  productId := 1
  templateId := 1
  organizationId := 1
  targetClusterId := 1
  targetNodeId := none
  targetVmid := none
  targetName := "vm"
  ipPoolId := 1
  ipAddress := none
  username := "admin"
  sshPublicKeys := []
  startAfterCreate := true
  vmid _ h := by cases h
  ipv4 _ h := by cases h

/-- A process of the two machines takes some actions. -/
def performs (pid count : Nat) (guests : List Int) : List (Action World Input (ProvMessage ⊕ AnswerMessage)) :=
  List.replicate count (.step pid (provisioningInput guests))

/-- The request is created and answered. -/
def ordered : List (Action World Input (ProvMessage ⊕ AnswerMessage)) :=
  .spawn 0 (.inr ⟨administrator, .create sampleOrder "key"⟩) :: performs 0 15 []

/-- It is worked off. -/
def carriedOut : List (Action World Input (ProvMessage ⊕ AnswerMessage)) :=
  .spawn 1 (.inl ⟨1000, 7⟩) :: (performs 1 75 [] ++ performs 1 140 [100])

/-- What a process has answered about the passwords of requests. -/
def toldBy (s : Sys Exn (SumOp ProvOp AnswerOp) (ProvState ⊕ AnswerProcess) World) (pid : Nat) :
    List (Uuid × Option String) :=
  match s.procs pid with
  | some (.inr θ, _) =>
    match θ.answer with
    | some (.ok responses) => responses.map fun a => (a.id, a.initialPassword)
    | _ => []
  | _ => []

/-- **A Windows request**: its password is sealed and told once, and cleared when it succeeds. -/
theorem windows_password_lifecycle :
    (toldBy (secretsReached asciiRuntime plainApi orderedWorld ordered) 0 =
        [(1000, some "A0!aaaaaaaaaaaaaaaaaaaaa")] ∧
      ((secretsReached asciiRuntime plainApi orderedWorld ordered).shared.db.requests.get? 1000).any
        (fun r => decide (Sealed r)) = true ∧
      ((secretsReached asciiRuntime plainApi orderedWorld (ordered ++ carriedOut)).shared.db.requests.get?
        1000).any (fun r => r.status == .succeeded && decide (Cleared r)) = true) ∧
    (∀ r ∈ (secretsReached asciiRuntime plainApi orderedWorld (ordered ++ carriedOut)).shared.db.requests,
      Lifecycle (secretsReached asciiRuntime plainApi orderedWorld (ordered ++ carriedOut)).shared.db r) :=
  ⟨by decide +kernel, (password_lifecycle asciiRuntime plainApi orderedWorld rfl rfl ordered carriedOut
    (Conditions.along_inside (by decide +kernel))).1⟩

end PveMaster.Secrets
