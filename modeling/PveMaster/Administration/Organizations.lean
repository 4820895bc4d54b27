import PveMaster.Administration.Runners

/-! An organization that has been deleted stays empty.

What is counted before a deletion stays. What goes wrong is on the other side, where an
organization is read without a lock and the insert comes later. -/
namespace PveMaster.Administration
open Prog

/-- What has to go well: who inserts what names an organization finds it active when the
insert is committed. -/
def Fits (rt : Runtime) {ρ : Type} (o : EstateOp ρ) (θ : EstateProcess) (s : AdminStore) : Prop :=
  match o, θ with
  | .left (.commit w _), .inl θ => adminRules.fits θ.request w s.db
  | .right (.left (.create r _ _ _)), _ => Active s.db.db r.organizationId
  | .right (.right o), .inr (_, .inr θ) => RunnerFits rt.settings o θ s.db.db
  | _, _ => True

/-- What the rest of the platform does: it leaves the organizations, and adds nothing to them. -/
structure Aside (db db' : Db) : Prop where
  organizations : db'.organizations = db.organizations
  members : ∀ g, NoMembers db g → NoMembers db' g
  assignments : ∀ g, NoAssignments db g → NoAssignments db' g
  requests : ∀ g, NoRequests db g → NoRequests db' g
  pending : ∀ g, NoneIs pending db g → NoneIs pending db' g
  stays : RequestsStay db db'

def estateConditions (rt : Runtime) : Conditions Exn EstateOp EstateProcess AdminStore Input EstateMessage where
  spawn m _ :=
    match m with
    | .inr (_, .inl m) => isJob m = true
    | _ => True
  step θ p _ s :=
    match p with
    | .node o _ => Fits rt o θ s
    | .done _ => True
  env s s' := s'.holder = s.holder ∧ s'.log = s.log ∧ Aside s.db.db s'.db.db

section System
variable {rt : Runtime} {api : Api} {s s' : AdminStore}

theorem later_of_stays {e e' : Estate} (h : RequestsStay e.db e'.db) : adminRules.Later e e' :=
  Relation.ReflTransGen.single (.commit ⟨⟨0, "", .customer, 0⟩, .addMember 0 0⟩
    (.addMember ⟨0, 0, 0⟩ (accountAudit ⟨0, "", .customer, 0⟩ "" 0)) h)

theorem stays_of_later {e e' : Estate} (h : adminRules.Later e e') : RequestsStay e.db e'.db := by
  refine h.keeps (J := fun e' => RequestsStay e.db e'.db) (fun db db' hmove hstay => ?_) (Table.Keeps.refl _ _)
  cases hmove with
  | commit m w hchange => exact hstay.trans hchange
  | outside he =>
    cases he
    exact hstay

/-- What a process with a number keeps to. -/
def estateContract (rt : Runtime) (x : Nat) : Contract EstateOp EstateProcess AdminStore Input where
  may o _ θ s := Emptied s.db.db ∧ Fits rt o θ s
  rely := Relies x
  guar s s' := (∀ row y, y ≠ x → s.holder row = some y → s'.holder row = some y ∧ adminRules.Same row s.db s'.db) ∧
    RequestsStay s.db.db s'.db.db ∧ (Emptied s.db.db → Emptied s'.db.db)

/-- What the workers know. -/
def WorkerKnows : EstateProcess → AdminStore → Prop
  | .inr (_, .inr θ), s => Owned θ s.db.db
  | _, _ => True

/-- A step that spares what is locked. -/
theorem guar_of_world {x : Nat} {w : World} (hspares : ∀ g, unlocked s g = false → Spares g s.db.db w.db)
    (hstay : RequestsStay s.db.db w.db) (hemptied : Emptied s.db.db → Emptied w.db) :
    (estateContract rt x).guar s (withWorld s w) := by
  refine ⟨fun row y _ hrow => ⟨hrow, ?_⟩, hstay, hemptied⟩
  cases row with
  | workload id => trivial
  | organization g =>
    refine hspares g ?_
    unfold unlocked
    rw [hrow]
    rfl

theorem emptied_same {db db' : Db} (h : Emptied db) (horganizations : db'.organizations = db.organizations)
    (hempty : ∀ o ∈ db.organizations, o.isActive = false → Empty db o.id → Empty db' o.id) : Emptied db' := by
  intro o ho hinactive
  rw [horganizations] at ho
  exact hempty o ho hinactive (h o ho hinactive)

/-- A step of a provisioning runner. -/
theorem runner_guar {ρ : Type} {o : ProvOp ρ} {θ : ProvState} {w : World} {x : Nat}
    (hfree : free (.right o) (.inr θ) s = true) (h : RunnerLeaves o θ s.db.db w.db) :
    (estateContract rt x).guar s (withWorld s w) := by
  refine guar_of_world (fun g hg => ⟨by rw [h.organizations], ?_, ?_, h.follows.pending⟩) h.stays fun hsound => ?_
  · unfold NoMembers
    rw [h.members]
    exact id
  · rcases h.assignments with hsame | ⟨hassigns, r, hr, -, hothers⟩
    · exact hsame g
    · refine hothers g ?_
      rintro rfl
      unfold free at hfree
      simp only [hassigns, hr, Bool.not_true, Bool.false_or, Option.all_some, hg] at hfree
      cases hfree
  · refine emptied_same hsound h.organizations fun o ho hinactive he => ?_
    have hnot := not_active ho hinactive
    refine ⟨?_, ?_, h.follows.settled hnot he.requests⟩
    · unfold NoMembers
      rw [h.members]
      exact he.members
    · rcases h.assignments with hsame | ⟨-, r, -, hopen, hothers⟩
      · exact hsame o.id he.assignments
      · refine hothers o.id ?_ he.assignments
        rintro hg
        rw [← hg] at hopen
        exact hnot (hopen he.requests)

/-- A step of a request for a job. -/
theorem service_guar {ρ : Type} {o : ServiceOp ρ} {i : Input} {clock : Instant} {w : World} {x : Nat}
    {θ : ServiceProcess} (hjob : o.transaction = none) (hfree : free (.left o) (.inl θ) s = true)
    (hactive : ∀ r steps audit, o.created = some (r, steps, audit) → Active s.db.db r.organizationId)
    (h : ServiceEffect i clock o s.db.db w.db) : (estateContract rt x).guar s (withWorld s w) := by
  generalize hdb : w.db = db' at h
  cases h with
  | nothing =>
    refine guar_of_world (fun g _ => ?_) ?_ fun hs => ?_
    · rw [hdb]
      exact Spares.refl g _
    · rw [hdb]
      exact Table.Keeps.refl _ _
    · rw [hdb]
      exact hs
  | @accepted a _ ha stored =>
    have hrest := (accept_ok stored).rest
    refine guar_of_world (fun g _ => ?_) ?_ fun hs => ?_
    · rw [hdb, hrest]
      exact ⟨rfl, id, id, id⟩
    · rw [hdb, hrest]
      exact Table.Keeps.refl _ _
    · rw [hdb, hrest]
      exact fun o ho hi => ⟨(hs o ho hi).members, (hs o ho hi).assignments, (hs o ho hi).requests⟩
  | @created r steps audit _ hcreated stored =>
    obtain ⟨hrequests, -, hrest⟩ := Acceptances.createRequest_ok stored
    have hinsert := (insertUnless_some hrequests).2
    have hother {status : ProvisioningStatus → Bool} {g : Uuid} (hg : g ≠ r.organizationId)
        (hn : NoneIs status s.db.db g) : NoneIs status w.db g := by
      rw [hdb]
      intro q hq hqg
      rcases (Table.mem_insert hinsert).mp hq with hold | rfl
      · exact hn q hold hqg
      · exact absurd hqg.symm hg
    have horganizations : w.db.organizations = s.db.db.organizations := by rw [hdb, hrest]
    have hmembers {g : Uuid} (hn : NoMembers s.db.db g) : NoMembers w.db g := by
      rw [hdb, hrest]
      exact hn
    have hassignments {g : Uuid} (hn : NoAssignments s.db.db g) : NoAssignments w.db g := by
      rw [hdb, hrest]
      exact hn
    refine guar_of_world (fun g hg => ?_) ?_ fun hs => ?_
    · refine ⟨by rw [horganizations], hmembers, hassignments, hother ?_⟩
      -- The foreign key waits while the organization is locked.
      rintro rfl
      cases o <;> cases hcreated
      simp only [free, hg] at hfree
      cases hfree
    · rw [hdb]
      exact Table.keeps_insert hinsert
    · refine emptied_same hs horganizations fun o ho hinactive he => ?_
      refine ⟨hmembers he.members, hassignments he.assignments, hother ?_ he.requests⟩
      intro hg
      have hactive' := hactive r steps audit hcreated
      rw [← hg] at hactive'
      exact not_active ho hinactive hactive'
  | transacted ht stored =>
    rw [hjob] at ht
    cases ht

/-! The programs of the estate. -/

abbrev Keeps (rt : Runtime) (api : Api) (x : Nat) (θ : EstateProcess) (p : Prog Exn EstateOp Unit)
    (s : AdminStore) : Prop :=
  wp (estate rt api) (estateContract rt x) p (fun _ _ _ => True) θ s

theorem keeps_administrator (x : Nat) (r : AdminRequest) :
    Keeps rt api x (.inl ⟨x, r, none⟩) (r.program.rename .left) s := by
  have hobeys : Obeys ⟨x, r, none⟩ s r.program := obeys_program r
  refine wp_left (fun _ _ h => h) (fun s s' h => ?_) (fun o i θ s h => ?_) (fun _ _ _ h => h) hobeys
  · exact ⟨h.1, stays_of_later h.2.1.later, h.2.2⟩
  · refine ⟨h.1, ?_⟩
    cases o with
    | commit w k => exact h.2
    | _ => trivial

/-- The operations of a job request. -/
def OfJob {ρ : Type} : EstateOp ρ → Prop
  | .right (.left o) => o.transaction = none
  | _ => False

theorem only_ofJob {m : ServiceMessage} (hm : isJob m = true) :
    (((m.program rt api).rename .left : Prog Exn WorkerOp Unit).rename .right : Prog Exn EstateOp Unit).Only OfJob := by
  have hnone {ρ : Type} {o : ServiceOp ρ} (ho : Acceptances.Orderly m o) : o.transaction = none := by
    cases ht : o.transaction with
    | none => rfl
    | some t => cases ho.transacted t ht <;> cases hm
  have honly : ((m.program rt api).rename .left : Prog Exn WorkerOp Unit).Only (fun o => OfJob (.right o)) :=
    Prog.only_rename (fun _ h => hnone h) (Acceptances.orderly_service rt api m)
  exact Prog.only_rename (fun _ h => h) honly

theorem keeps_service {x : Nat} {m : ServiceMessage} (hm : isJob m = true) (θ : ServiceProcess) :
    Keeps rt api x (.inr (x, .inl θ)) (((m.program rt api).rename .left).rename .right) s := by
  refine wp_mono (fun _ _ _ _ => trivial) (wp_only
    (J := fun (θ : EstateProcess) (_ : AdminStore) => ∃ θ₁ : ServiceProcess, θ = .inr (x, .inl θ₁))
    (fun _ _ _ _ h => h) (fun o i θ θ' s s' r ho hJ hmay hexec => ?_) (only_ofJob hm) ⟨θ, rfl⟩)
  obtain ⟨θ₁, rfl⟩ := hJ
  cases o with
  | left o => cases ho
  | right o =>
    obtain ⟨θ₂, rfl, hstep⟩ := Machine.beside_right hexec
    cases o with
    | right o => cases ho
    | left o =>
      obtain ⟨hfree, ⟨θ₃, rfl⟩, w, heffect, rfl⟩ := service_step hstep
      refine ⟨service_guar ho hfree (fun r steps audit hcreated => ?_) heffect, θ₃, rfl⟩
      have hactive := hmay.2
      cases o <;> cases hcreated
      exact hactive

/-- The operations of a runner. -/
def OfRunner {ρ : Type} : EstateOp ρ → Prop
  | .right (.right _) => True
  | _ => False

theorem keeps_runner {x : Nat} {θ : ProvState} (howned : Owned θ s.db.db) {p : Prog Exn ProvOp Unit} :
    Keeps rt api x (.inr (x, .inr θ)) ((p.rename .right).rename .right) s := by
  have hall : (p.rename .right : Prog Exn WorkerOp Unit).Only (fun o => OfRunner (.right o)) :=
    Prog.only_rename (fun _ h => h) (Prog.only_all fun _ => trivial)
  have honly : ((p.rename .right : Prog Exn WorkerOp Unit).rename .right : Prog Exn EstateOp Unit).Only OfRunner :=
    Prog.only_rename (fun _ h => h) hall
  refine wp_mono (fun _ _ _ _ => trivial) (wp_only
    (J := fun θ s => ∃ θ₁, θ = .inr (x, .inr θ₁) ∧ Owned θ₁ s.db.db)
    (fun θ s s' hr hJ => ?_) (fun o i θ θ' s s' r ho hJ hmay hexec => ?_) honly ⟨θ, rfl, howned⟩)
  · obtain ⟨θ₁, hθ, howned⟩ := hJ
    exact ⟨θ₁, hθ, howned.stays (stays_of_later hr.2)⟩
  obtain ⟨θ₁, rfl, howned⟩ := hJ
  cases o with
  | left o => cases ho
  | right o =>
    obtain ⟨θ₂, rfl, hstep⟩ := Machine.beside_right hexec
    cases o with
    | left o => cases ho
    | right o =>
      obtain ⟨hfree, θ₃, rfl, w, heffect, rfl⟩ := runner_step hstep
      obtain ⟨hleaves, howned'⟩ := runner_leaves heffect howned hmay.2
      exact ⟨runner_guar hfree hleaves, θ₃, rfl, howned'⟩

theorem closed (x : Nat) : (estateContract rt x).Closed :=
  ⟨fun s => Relies.refl x s, fun _ _ _ h h' => h.trans h'⟩

/-- What the rest of the platform does. -/
theorem aside_kept (hsound : Emptied s.db.db) (h : s'.holder = s.holder ∧ s'.log = s.log ∧ Aside s.db.db s'.db.db) :
    Emptied s'.db.db ∧ ∀ x, Relies x s s' := by
  obtain ⟨hholder, -, haside⟩ := h
  refine ⟨emptied_same hsound haside.organizations fun o _ _ he =>
    ⟨haside.members _ he.members, haside.assignments _ he.assignments, haside.requests _ he.requests⟩, fun x =>
      ⟨fun row hrow => ⟨by rw [hholder, hrow], ?_⟩, later_of_stays haside.stays⟩⟩
  cases row with
  | workload id => trivial
  | organization g =>
    exact ⟨by rw [haside.organizations], haside.members g, haside.assignments g, haside.pending g⟩

/-- A process that ends leaves its locks. -/
theorem drop_guar (θ : EstateProcess) (s : AdminStore) :
    (estateContract rt (processNumber θ)).guar s ((estate rt api).drop θ s) := by
  cases θ with
  | inl θ => exact ⟨fun row _ hne h => ⟨Store.release_other hne h, adminRules_lawful.same_refl row s.db⟩,
      Table.Keeps.refl _ _, id⟩
  | inr θ =>
    obtain ⟨x, θ⟩ := θ
    cases θ with
    | inl θ => exact guar_of_world (w := s.db.world) (fun g _ => Spares.refl g _) (Table.Keeps.refl _ _) id
    | inr θ =>
      exact guar_of_world (w := s.db.world.unlock θ.runnerId) (fun g _ => Spares.refl g _) (Table.Keeps.refl _ _) id

theorem estate_crew (rt : Runtime) (api : Api) :
    Crew (estate rt api) (estateConditions rt) processNumber (fun s => Emptied s.db.db)
      (fun θ p s => Keeps rt api (processNumber θ) θ p s) (fun x => (estateContract rt x).guar) := by
  refine Crew.of_wp closed (fun x y s s' hne h => ⟨fun row hrow => h.1 row y hne.symm hrow, later_of_stays h.2.1⟩)
    (fun x s s' h => h.2.2) (fun _ _ _ _ _ h => h) (fun m s _ hm => ?_) (fun o k i θ s hI hc => ⟨hI, hc⟩)
    (fun o i θ θ' s s' r hexec => ?_) (fun s s' hI he => aside_kept hI he) drop_guar
  · rcases m with ⟨x, r⟩ | ⟨x, m | m⟩
    · exact keeps_administrator x r
    · exact keeps_service hm _
    · refine keeps_runner { row := fun r hr => ?_, drafted := fun l c hl => ?_ }
      · rcases hr with hr | hr <;> cases hr
      · cases hl
  · cases o with
    | left o =>
      cases θ with
      | inl θ =>
        obtain ⟨θ₁, rfl, hstep⟩ := Machine.beside_left hexec
        exact (exec_transaction hstep).1
      | inr θ => cases hexec
    | right o =>
      cases θ with
      | inl θ => cases hexec
      | inr θ =>
        obtain ⟨θ₁, rfl, hstep⟩ := Machine.beside_right hexec
        exact (Machine.numbered_exec hstep).1

end System

/-- **Deletion**: in a run in which whoever inserts a row for an organization still finds it
active at the commit, and no runner goes on for a request that has ended, an organization
that is not active has no members, no assignments and no request that is not settled. -/
theorem deleted_organizations_empty (rt : Runtime) (api : Api) {e : Estate} {actions : List EstateAction}
    (hstart : Emptied e.db) (hnumbers : (spawned (estate rt api) processNumber actions).Nodup)
    (hfits : Along (Sys.next (estate rt api)) (estateConditions rt).Met
      (Sys.idle (Store.unlocked Row AdminWrite AdminRequest e)) actions) :
    Emptied (after rt api e actions).db := by
  have hteamed := Team.teamed_idle (L := fun θ p s => Keeps rt api (processNumber θ) θ p s)
    (s := Store.unlocked Row AdminWrite AdminRequest e) hnumbers
  rw [← List.append_nil actions] at hteamed
  exact ((estate_crew rt api).crew_run hteamed hstart hfits).2

instance (e : Estate) (m : AdminRequest) : (w : AdminWrite) → Decidable (adminRules.fits m w e)
  | .addMember member _ => inferInstanceAs (Decidable (Active e.db member.organizationId))
  | .assign assignment _ => inferInstanceAs (Decidable (Active e.db assignment.organizationId))
  | .deleteOrganization profile _ =>
    inferInstanceAs (Decidable (∀ r ∈ e.db.requests.rows, r.organizationId = profile.id →
      (r.status == .manualReview) = false))
  | .updateOrganization .. => .isTrue trivial

instance (settings : Settings) {ρ : Type} (o : ProvOp ρ) (θ : ProvState) (db : Db) :
    Decidable (RunnerFits settings o θ db) :=
  inferInstanceAs (Decidable (o.commits = true → ∀ stored ∈ db.requests.get? θ.requestId,
    stored.status.unsettled = false → ¬ Active db stored.organizationId →
      o.assigns = false ∧ reviews (θ.assign settings (ownEdit o)) = false))

instance (rt : Runtime) {ρ : Type} (o : EstateOp ρ) (θ : EstateProcess) (s : AdminStore) :
    Decidable (Fits rt o θ s) := by
  unfold Fits
  split <;> infer_instance

instance (rt : Runtime) (m : EstateMessage) (s : AdminStore) : Decidable ((estateConditions rt).spawn m s) := by
  unfold estateConditions
  dsimp only
  split <;> infer_instance

instance (rt : Runtime) : (θ : EstateProcess) → (p : Prog Exn EstateOp Unit) → (i : Input) → (s : AdminStore) →
    Decidable ((estateConditions rt).step θ p i s)
  | θ, .node o _, _, s => inferInstanceAs (Decidable (Fits rt o θ s))
  | _, .done _, _, _ => .isTrue trivial

instance (rt : Runtime) (θ : EstateProcess) (p : Prog Exn EstateOp Unit) (s : AdminStore) :
    Decidable ((estateConditions rt).crash θ p s) := .isTrue trivial

theorem twoOrganizations_distinct :
    (([⟨1, true⟩, ⟨2, true⟩] : List Organization).map Keyed.key).Nodup := by decide

theorem twoProfiles_distinct :
    (([⟨1, "first", 1⟩, ⟨2, "second", 1⟩] : List OrganizationProfile).map Keyed.key).Nodup := by decide

/-- Two organizations and a user. -/
def twoOrganizations : Estate where
  world := ⟨{ Db.empty with
    users := .single ⟨1, "admin", .superAdmin, true, 1⟩
    organizations := ⟨[⟨1, true⟩, ⟨2, true⟩], twoOrganizations_distinct⟩ }, 0, [], []⟩
  profiles := ⟨[⟨1, "first", 1⟩, ⟨2, "second", 1⟩], twoProfiles_distinct⟩

def estateSteps (pid n : Nat) : List EstateAction := List.replicate n (.step pid (sampleInput "stopped"))

def adminSpawn (pid : Nat) (call : AdminCall) : EstateAction := .spawn pid (.inl (pid, ⟨administrator, call⟩))

/-- The first organization is deleted while the second gets a member. -/
def deletionRun : List EstateAction :=
  adminSpawn 0 (.addMember 2 1) :: estateSteps 0 2 ++
    adminSpawn 1 (.deleteOrganization 1 1) :: estateSteps 1 6 ++ estateSteps 0 4 ++
    adminSpawn 2 (.addMember 1 1) :: estateSteps 2 3

theorem two_organizations_emptied : Emptied twoOrganizations.db := by
  intro o ho hinactive
  rcases List.mem_cons.mp ho with rfl | ho
  · cases hinactive
  · cases List.mem_singleton.mp ho
    cases hinactive

theorem first_organization_empty : Emptied (after asciiRuntime plainApi twoOrganizations deletionRun).db :=
  deleted_organizations_empty asciiRuntime plainApi two_organizations_emptied (by decide)
    (Conditions.along_inside (by decide +kernel))

/-- The member is inserted after the organization has been deleted. -/
def lateMember : List EstateAction :=
  adminSpawn 0 (.addMember 1 1) :: estateSteps 0 2 ++
    adminSpawn 1 (.deleteOrganization 1 1) :: estateSteps 1 6 ++ estateSteps 0 4

theorem late_member_stays : Emptied twoOrganizations.db ∧
    (spawned (estate asciiRuntime plainApi) processNumber lateMember).Nodup ∧
    ¬ Emptied (after asciiRuntime plainApi twoOrganizations lateMember).db := by
  refine ⟨two_organizations_emptied, by decide, fun h => ?_⟩
  have hdeleted : (⟨1, false⟩ : Organization) ∈
      (after asciiRuntime plainApi twoOrganizations lateMember).db.organizations.rows := by decide +kernel
  have hmember : ∃ m ∈ (after asciiRuntime plainApi twoOrganizations lateMember).db.members.rows,
      m.organizationId = 1 := by decide +kernel
  obtain ⟨m, hm, horganization⟩ := hmember
  exact (h _ hdeleted rfl).members m hm horganization

end PveMaster.Administration
