import PveMaster.Customers.Console
import PveMaster.Platform.Agreement

/-! What customers see of the workloads.

Every entry point asks for the organization a workload belongs to, whether it is active and
whether the user is a member of it, except `get_job`: it asks for the organization the
operation was accepted for. The two differ once the workload has gone to another one. -/
namespace PveMaster.Isolation
open CustomerPortalService Console

/-- A user of the database who is a customer. -/
structure Customer (db : Db) where
  user : User
  stored : user ∈ db.users
  role : user.role = .customer

/-! ### The entry points -/

/-- A request that meets no other: what it returns, and the state it leaves. -/
def alone {α : Type} : ServiceProg α → (Nat → Input) → ServiceState → World → Except Exn α × World
  | .done r, _, _, w => (r, w)
  | .node o k, inputs, θ, w =>
    alone (k (o.exec (inputs 0) θ w).2.2) (fun n => inputs (n + 1)) (o.exec (inputs 0) θ w).1
      (o.exec (inputs 0) θ w).2.1

/-- What a customer can call, with what each call is given. -/
inductive Entry where
  | listVms
  | getVm (vmId : Uuid)
  | requestPowerAction (sourceIp : String) (vmId : Uuid) (action : PowerAction) (idempotencyKey : String)
      (reason : Option String) (confirmForced : Bool) (inputs : Nat → Input) (now : Instant)
  | getJob (jobId : Uuid)
  | createConsoleSession (workloadId : Uuid) (s : Surroundings)
  | connectConsole (grant : ConsoleGrant) (decrypts : Bool)

/-- The workloads and the jobs an entry point tells of, or acts on. -/
structure Disclosure where
  workloads : List Uuid
  jobs : List Operation

/-- An error discloses nothing. -/
def nothing : Disclosure := ⟨[], []⟩

/-- The operations with these identifiers. -/
def jobsOf (db : Db) (ids : List Uuid) : List Operation := ids.filterMap db.operations.get?

variable (rt : Runtime) (api : Api)

/-- The power action of a customer, executed by itself. -/
def powerRequest (u : User) (sourceIp : String) (vmId : Uuid) (action : PowerAction) (idempotencyKey : String)
    (reason : Option String) (confirmForced : Bool) (inputs : Nat → Input) (now : Instant) (db : Db) :
    Except Exn JobAnswer × World :=
  alone (CustomerPortalService.requestPowerAction api u.principal sourceIp vmId action idempotencyKey reason
    confirmForced) inputs { userId := u.id } ⟨db, now, [], []⟩

/-- What `u` is told by an entry point, or sets going. -/
def disclosed (db : Db) (u : User) : Entry → Disclosure
  | .listVms =>
    match listVms u.principal db with
    | .ok vms => ⟨vms.map VmSummary.id, []⟩
    | .error _ => nothing
  | .getVm vmId =>
    match getVm rt u.principal vmId db with
    | .ok (vm, jobs) => ⟨vm.id :: jobs.map JobResponse.vmId, jobsOf db (jobs.map JobResponse.jobId)⟩
    | .error _ => nothing
  | .requestPowerAction sourceIp vmId action idempotencyKey reason confirmForced inputs now =>
    let (answer, w) := powerRequest api u sourceIp vmId action idempotencyKey reason confirmForced inputs now db
    -- the job of the answer, and whatever operation is new
    let jobs := w.db.operations.select fun o => (db.operations.get? o.id).isNone ||
      match answer with
      | .ok job => job.jobId == o.id
      | .error _ => false
    ⟨jobs.map Operation.workloadId, jobs⟩
  | .getJob jobId =>
    match getJob rt u.principal jobId db with
    | .ok job => ⟨[job.vmId], jobsOf db [job.jobId]⟩
    | .error _ => nothing
  | .createConsoleSession workloadId s =>
    match consoleTarget rt u.principal workloadId s db with
    | .ok workload => ⟨[workload.id], []⟩
    | .error _ => nothing
  | .connectConsole grant decrypts =>
    if grant.userId = u.id then
      match loadConsoleConnection rt grant decrypts db with
      | some connection => ⟨[connection.workload.id], []⟩
      | none => nothing
    else nothing

/-! ### Isolation -/

/-- An organization that has not been deactivated. -/
def Active (db : Db) (organizationId : Uuid) : Prop :=
  ∃ g ∈ db.organizations, g.id = organizationId ∧ g.isActive = true

/-- The user is a member of the organization. -/
def Member (db : Db) (u : User) (organizationId : Uuid) : Prop :=
  ∃ m ∈ db.members, m.userId = u.id ∧ m.organizationId = organizationId

/-- A workload the user may see. -/
structure Theirs (db : Db) (u : User) (workloadId : Uuid) : Prop where
  visible : ∃ w, db.workloads.get? workloadId = some w ∧ w.isPresent = true ∧ w.isTemplate = false ∧
    ∃ organizationId, w.organizationId = some organizationId ∧ Active db organizationId ∧
      Member db u organizationId

/-- What was disclosed to a customer was theirs: every workload, and of every job also the
request. -/
structure Isolated (db : Db) (u : User) (d : Disclosure) : Prop where
  workloads : ∀ id ∈ d.workloads, Theirs db u id
  jobs : ∀ o ∈ d.jobs, o.requestedById = u.id ∧ Theirs db u o.workloadId

/-- The workload of an operation is where it was, or with another organization of the user. -/
def Follows (db : Db) (u : User) (o : Operation) : Prop :=
  ∃ w, db.workloads.get? o.workloadId = some w ∧ w.isPresent = true ∧ w.isTemplate = false ∧
    (w.organizationId = o.organizationId ∨
      ∃ organizationId, w.organizationId = some organizationId ∧ Active db organizationId ∧
        Member db u organizationId)

/-- The workloads of the power actions a user has asked for, in organizations they are in. -/
def JobsFollow (db : Db) (u : User) : Prop :=
  ∀ o ∈ db.operations, o.requestedById = u.id → (∃ action, o.action = .power action) →
    ∀ organizationId, o.organizationId = some organizationId → Active db organizationId →
      Member db u organizationId → Follows db u o

section Isolation
variable {rt : Runtime} {api : Api} {db : Db} {u : User}

theorem isolated_nothing : Isolated db u nothing :=
  ⟨fun _ h => absurd h List.not_mem_nil, fun _ h => absurd h List.not_mem_nil⟩

/-- The query of the memberships asks just that. -/
theorem membership_iff {organizationId : Uuid} :
    membership u.principal (some organizationId) db = true ↔ Member db u organizationId := by
  unfold membership
  rw [Option.isSome_iff_exists]
  constructor
  · rintro ⟨m, hm⟩
    obtain ⟨hmem, hfound⟩ := Table.first_some hm
    have hfound : m.userId = u.id ∧ m.organizationId = organizationId := by simpa using hfound
    exact ⟨m, hmem, hfound⟩
  · rintro ⟨m, hmem, huser, horganization⟩
    cases hf : db.members.first (fun m => m.userId == u.principal.userId &&
      some m.organizationId == some organizationId) with
    | some m => exact ⟨m, rfl⟩
    | none =>
      have := Table.first_none hf hmem
      simp [User.principal, huser, horganization] at this

/-- And the query of the organization that. -/
theorem activeOrganization_iff {organizationId : Uuid} :
    activeOrganization (some organizationId) db = true ↔ Active db organizationId := by
  unfold activeOrganization
  rw [Option.isSome_iff_exists]
  constructor
  · rintro ⟨g, hg⟩
    obtain ⟨hmem, hfound⟩ := Table.first_some hg
    have hfound : g.id = organizationId ∧ g.isActive = true := by simpa using hfound
    exact ⟨g, hmem, hfound⟩
  · rintro ⟨g, hmem, hid, hactive⟩
    cases hf : db.organizations.first (fun g => some g.id == some organizationId && g.isActive) with
    | some g => exact ⟨g, rfl⟩
    | none =>
      have := Table.first_none hf hmem
      simp [hid, hactive] at this

/-- A workload of an active organization the user is a member of. -/
theorem theirs_of {w : Workload} (hw : w ∈ db.workloads) (hpresent : w.isPresent = true)
    (htemplate : w.isTemplate = false) (hsome : w.organizationId.isSome = true)
    (hmember : membership u.principal w.organizationId db = true)
    (hactive : activeOrganization w.organizationId db = true) : Theirs db u w.id := by
  obtain ⟨organizationId, horganization⟩ := Option.isSome_iff_exists.mp hsome
  rw [horganization] at hmember hactive
  exact ⟨w, Table.get?_of_mem hw, hpresent, htemplate, organizationId, horganization,
    activeOrganization_iff.mp hactive, membership_iff.mp hmember⟩

/-- What the portal lists as owned belongs to an active organization that the customer is a member
of. -/
theorem theirs_of_owned {w : Workload} (hw : w ∈ db.workloads) (h : owned u.principal db w = true) :
    Theirs db u w.id := by
  simp only [owned, Bool.and_eq_true, Bool.not_eq_true'] at h
  obtain ⟨⟨⟨⟨⟨hsome, -⟩, hpresent⟩, htemplate⟩, hmember⟩, hactive⟩ := h
  exact theirs_of hw hpresent htemplate hsome hmember hactive

/-- The same of a single virtual machine. -/
theorem ownedVm_theirs {vmId : Uuid} {w : Workload} (h : ownedVm u.principal vmId db = some w) :
    Theirs db u w.id := by
  rw [ownedVm_eq] at h
  obtain ⟨hget, howned⟩ := Option.filter_eq_some_iff.mp h
  exact theirs_of_owned (Table.get?_mem hget) howned

/-- A response tells of the job and of the workload of its operation, and only of a power action.
-/
theorem jobResponse_ok {o : Operation} {job : JobResponse} (h : jobResponse rt o = .ok job) :
    job.jobId = o.id ∧ job.vmId = o.workloadId ∧ ∃ action, o.action = .power action := by
  unfold jobResponse at h
  split at h
  · next action haction =>
    cases h
    exact ⟨rfl, rfl, action, haction⟩
  · cases h

/-! ### One entry point after the other -/

theorem listVms_isolated : Isolated db u (disclosed rt api db u .listVms) := by
  simp only [disclosed]
  split
  · next vms hvms =>
    obtain ⟨_, -, hvms⟩ := bind_ok.mp hvms
    cases hvms
    refine ⟨fun id hid => ?_, fun _ h => absurd h List.not_mem_nil⟩
    obtain ⟨vm, hvm, rfl⟩ := List.mem_map.mp hid
    obtain ⟨w, hw, rfl⟩ := List.mem_map.mp hvm
    have hlisted := (List.mem_filter.mp hw).1
    unfold ownedWorkloads at hlisted
    obtain ⟨hmem, howned⟩ := Table.mem_select.mp (List.mem_mergeSort.mp hlisted)
    exact theirs_of_owned hmem howned
  · exact isolated_nothing

theorem mapM_ok {α β : Type} {f : α → Except Exn β} {l : List α} {l' : List β} (h : l.mapM f = .ok l') :
    ∀ b ∈ l', ∃ a ∈ l, f a = .ok b := by
  induction l generalizing l' with
  | nil =>
    cases h
    exact fun _ hb => absurd hb List.not_mem_nil
  | cons a rest ih =>
    rw [List.mapM_cons] at h
    obtain ⟨b, hb, h⟩ := bind_ok.mp h
    obtain ⟨bs, hbs, h⟩ := bind_ok.mp h
    cases h
    intro c hc
    rcases List.mem_cons.mp hc with rfl | hc
    · exact ⟨a, List.mem_cons_self, hb⟩
    · obtain ⟨a', ha', hf⟩ := ih hbs c hc
      exact ⟨a', List.mem_cons_of_mem _ ha', hf⟩

theorem getVm_isolated (vmId : Uuid) : Isolated db u (disclosed rt api db u (.getVm vmId)) := by
  simp only [disclosed]
  split
  · next vm jobs hgot =>
    obtain ⟨_, -, hgot⟩ := bind_ok.mp hgot
    obtain ⟨w, hw, hgot⟩ := bind_ok.mp hgot
    obtain ⟨jobs', hjobs, hgot⟩ := bind_ok.mp hgot
    obtain ⟨_, -, hgot⟩ := bind_ok.mp hgot
    cases hgot
    have htheirs := ownedVm_theirs (orRaise_ok.mp hw)
    -- a recent job is of this workload, and of this user
    have hjob {job : JobResponse} (hj : job ∈ jobs) : job.vmId = w.id ∧
        ∃ o ∈ db.operations, o.id = job.jobId ∧ o.requestedById = u.id ∧ o.workloadId = w.id := by
      obtain ⟨o, ho, hresponse⟩ := mapM_ok hjobs job hj
      obtain ⟨hid, hvm, -⟩ := jobResponse_ok hresponse
      obtain ⟨hmem, hfound⟩ := Table.mem_select.mp (List.mem_reverse.mp (List.mem_of_mem_take ho))
      have hfound : o.workloadId = w.id ∧ o.requestedById = u.id := by simpa using hfound
      exact ⟨hvm.trans hfound.1, o, hmem, hid.symm, hfound.2, hfound.1⟩
    refine ⟨fun id hid => ?_, fun o ho => ?_⟩
    · rcases List.mem_cons.mp hid with rfl | hid
      · exact htheirs
      · obtain ⟨job, hj, rfl⟩ := List.mem_map.mp hid
        rw [(hjob hj).1]
        exact htheirs
    · obtain ⟨id, hid, hget⟩ := List.mem_filterMap.mp ho
      obtain ⟨job, hj, rfl⟩ := List.mem_map.mp hid
      obtain ⟨-, o', ho', hid', huser, hworkload⟩ := hjob hj
      have hsame : o = o' := Table.eq_of_key (Table.get?_mem hget) ho' ((Table.get?_key hget).trans hid'.symm)
      rw [hsame, hworkload]
      exact ⟨huser, htheirs⟩
  · exact isolated_nothing

/-- A console is opened for a workload that the customer may open one for. -/
theorem consoleTarget_ok {principal : Principal} {workloadId : Uuid} {s : Surroundings} {w : Workload}
    (h : consoleTarget rt principal workloadId s db = .ok w) :
    authorizedConsoleWorkload principal workloadId db = .ok w := by
  obtain ⟨workload, hauthorized, h⟩ := bind_ok.mp h
  obtain ⟨_, -, h⟩ := bind_ok.mp h
  obtain ⟨_, -, h⟩ := bind_ok.mp h
  obtain ⟨_, -, h⟩ := bind_ok.mp h
  cases h
  exact hauthorized

/-- For a customer, that is one of theirs. -/
theorem authorized_theirs (hrole : u.role = .customer) {workloadId : Uuid} {w : Workload}
    (h : authorizedConsoleWorkload u.principal workloadId db = .ok w) : Theirs db u w.id := by
  have hcustomer : u.principal.role = .customer := hrole
  unfold authorizedConsoleWorkload at h
  rw [hcustomer] at h
  obtain ⟨hpresent, hmember⟩ := Option.filter_eq_some_iff.mp (orRaise_ok.mp h)
  obtain ⟨hget, hpresent⟩ := Option.filter_eq_some_iff.mp hpresent
  simp only [Bool.and_eq_true, Bool.not_eq_true'] at hpresent hmember
  exact theirs_of (Table.get?_mem hget) hpresent.1 hpresent.2 hmember.1.1 hmember.1.2 hmember.2

theorem console_isolated (hrole : u.role = .customer) (workloadId : Uuid) (s : Surroundings) :
    Isolated db u (disclosed rt api db u (.createConsoleSession workloadId s)) := by
  simp only [disclosed]
  split
  · next w hw =>
    refine ⟨fun id hid => ?_, fun _ h => absurd h List.not_mem_nil⟩
    rw [List.mem_singleton.mp hid]
    exact authorized_theirs hrole (consoleTarget_ok hw)
  · exact isolated_nothing

/-- The connection tests it again, whatever the grant says. -/
theorem connection_isolated (c : Customer db) (grant : ConsoleGrant) (decrypts : Bool) :
    Isolated db c.user (disclosed rt api db c.user (.connectConsole grant decrypts)) := by
  simp only [disclosed]
  split
  · next huser =>
    split
    · next connection hconnection =>
      obtain ⟨user, hfound, hconnection⟩ := Option.bind_eq_some_iff.mp hconnection
      obtain ⟨w, hw, hconnection⟩ := Option.bind_eq_some_iff.mp hconnection
      obtain ⟨_, -, hconnection⟩ := Option.bind_eq_some_iff.mp hconnection
      obtain ⟨_, -, hconnection⟩ := Option.bind_eq_some_iff.mp hconnection
      obtain ⟨_, -, hconnection⟩ := Option.bind_eq_some_iff.mp hconnection
      obtain ⟨_, -, hconnection⟩ := Option.bind_eq_some_iff.mp hconnection
      cases hconnection
      have hget := (Option.filter_eq_some_iff.mp hfound).1
      rw [huser, show db.users.get? c.user.id = some c.user from Table.get?_of_mem c.stored] at hget
      cases hget
      refine ⟨fun id hid => ?_, fun _ h => absurd h List.not_mem_nil⟩
      rw [List.mem_singleton.mp hid]
      cases hauthorized : authorizedConsoleWorkload c.user.principal grant.workloadId db with
      | error e =>
        rw [hauthorized] at hw
        cases hw
      | ok v =>
        rw [hauthorized] at hw
        cases hw
        exact authorized_theirs c.role hauthorized
    · exact isolated_nothing
  · exact isolated_nothing

/-! ### The power action -/

section Alone
variable {α β : Type} (inputs : Nat → Input) (θ : ServiceState) (w : World)

/-- A test that nobody interrupts passes or ends the program. -/
theorem alone_check {x : Except Exn Unit} {f : Unit → ServiceProg α} :
    alone (Prog.ofExcept x >>= f) inputs θ w =
      match x with
      | .error e => (.error e, w)
      | .ok () => alone (f ()) inputs θ w := by
  cases x <;> rfl

theorem alone_query {q : Db → β} {f : β → ServiceProg α} :
    alone (ServiceProg.query q >>= f) inputs θ w = alone (f (q w.db)) (fun n => inputs (n + 1)) θ w := rfl

theorem alone_lookup {userId : Uuid} {keyHash : Digest} {f : Option Operation → ServiceProg α} :
    alone (ServiceProg.lookup userId keyHash >>= f) inputs θ w =
      alone (f (operationOf userId keyHash w.db)) (fun n => inputs (n + 1)) θ w := rfl

theorem alone_uuid4 {f : Uuid → ServiceProg α} :
    alone (ServiceProg.uuid4 >>= f) inputs θ w = alone (f ((inputs 0).uuid 0)) (fun n => inputs (n + 1)) θ w := rfl

/-- A commit that nobody interrupts stores the operation, or the program fails and nothing is
stored. -/
theorem alone_store {a : Acceptance} {flushError commitError : Exn} :
    (∃ e, alone (ServiceProg.store a flushError commitError) inputs θ w = (.error e, w)) ∨
      ∃ db, w.db.accept a = .ok db ∧
        alone (ServiceProg.store a flushError commitError) inputs θ w =
          (.ok ⟨a.operation.id, true⟩, w.setDb db) := by
  simp only [ServiceProg.store, bind, Prog.bind, Prog.op, Prog.andThen, alone, ServiceOp.exec]
  unfold commitAs
  cases (inputs 0).reject with
  | some e => exact Or.inl ⟨e, rfl⟩
  | none =>
    cases haccept : w.db.accept a with
    | ok db => exact Or.inr ⟨db, rfl, by simp only [haccept, id]; rfl⟩
    | error e =>
      left
      cases e with
      | flush => exact ⟨flushError, by simp only [haccept, id]; rfl⟩
      | commit => exact ⟨commitError, by simp only [haccept, id]; rfl⟩
      | database e => exact ⟨e, by simp only [haccept, id]; rfl⟩

end Alone

/-- The jobs a power action tells of or accepts: of the workload it has found, by the user. -/
def PowerJobs (db : Db) (u : User) (r : Except Exn JobAnswer × World) : Prop :=
  ∀ o ∈ r.2.db.operations,
    ((db.operations.get? o.id).isNone || match r.1 with
      | .ok job => job.jobId == o.id
      | .error _ => false) = true →
    o.requestedById = u.id ∧ Theirs db u o.workloadId

/-- A refusal leaves the operations as they are. -/
theorem powerJobs_error {e : Exn} {w : World} (hw : w.db = db) : PowerJobs db u (.error e, w) := by
  intro o ho hnew
  rw [hw] at ho
  have hget : db.operations.get? o.id = some o := Table.get?_of_mem ho
  rw [hget] at hnew
  cases hnew

/-- The operation that is accepted is the only new one. -/
theorem powerJobs_accepted {a : Acceptance} {db' : Db} {w : World} (h : db.accept a = .ok db')
    (huser : a.operation.requestedById = u.id) (htheirs : Theirs db u a.operation.workloadId) :
    PowerJobs db u (.ok ⟨a.operation.id, true⟩, w.setDb db') := by
  have hrows := (accept_ok h).operations
  intro o ho hnew
  rcases (Table.mem_insert (insertUnless_some hrows).2).mp ho with hold | rfl
  · have hget : db.operations.get? o.id = some o := Table.get?_of_mem hold
    rw [hget] at hnew
    have hid : a.operation.id = o.id := eq_of_beq hnew
    have hfresh := (accept_ok h).fresh
    rw [hid, hget] at hfresh
    cases hfresh
  · exact ⟨huser, htheirs⟩

/-- What the power action answers with or accepts is an operation of the customer's own, for a
workload that is theirs. -/
theorem powerRequest_jobs (sourceIp : String) (vmId : Uuid) (action : PowerAction) (idempotencyKey : String)
    (reason : Option String) (confirmForced : Bool) (inputs : Nat → Input) (now : Instant) :
    PowerJobs db u (powerRequest api u sourceIp vmId action idempotencyKey reason confirmForced inputs now db) := by
  unfold powerRequest CustomerPortalService.requestPowerAction
  rw [alone_check]
  split
  · exact powerJobs_error rfl
  split
  · exact powerJobs_error rfl
  rw [alone_query]
  split
  · exact powerJobs_error rfl
  · next workload hfound =>
    have htheirs := ownedVm_theirs hfound
    split
    · exact powerJobs_error rfl
    dsimp only
    rw [alone_lookup]
    split
    · next existing hexisting =>
      split
      · exact powerJobs_error rfl
      split
      · exact powerJobs_error rfl
      · -- the job that was accepted before, of this workload
        next hsame =>
        have hid : existing.workloadId = workload.id := not_not.mp fun h => hsame (Or.inl h)
        obtain ⟨hmem, hkey⟩ := Table.first_some hexisting
        intro o ho hnew
        have hget : db.operations.get? o.id = some o := Table.get?_of_mem ho
        have hnew : (existing.id == o.id) = true := by
          rw [hget] at hnew
          exact hnew
        have hsame : existing = o := Table.eq_of_key hmem ho (eq_of_beq hnew)
        have huser : existing.requestedById = u.id := by
          simp only [Bool.and_eq_true, beq_iff_eq] at hkey
          exact hkey.1
        rw [← hsame, hid]
        exact ⟨huser, htheirs⟩
    · rw [alone_query]
      split
      · exact powerJobs_error rfl
      · rw [alone_uuid4, alone_uuid4]
        rcases alone_store _ _ _ with ⟨e, h⟩ | ⟨db', haccept, h⟩
        · rw [h]
          exact powerJobs_error rfl
        · rw [h]
          exact powerJobs_accepted haccept rfl htheirs

theorem power_isolated (sourceIp : String) (vmId : Uuid) (action : PowerAction) (idempotencyKey : String)
    (reason : Option String) (confirmForced : Bool) (inputs : Nat → Input) (now : Instant) :
    Isolated db u (disclosed rt api db u
      (.requestPowerAction sourceIp vmId action idempotencyKey reason confirmForced inputs now)) := by
  have hjobs : PowerJobs db u
      (powerRequest api u sourceIp vmId action idempotencyKey reason confirmForced inputs now db) :=
    powerRequest_jobs sourceIp vmId action idempotencyKey reason confirmForced inputs now
  have hjob {o : Operation} (ho : o ∈ (disclosed rt api db u (.requestPowerAction sourceIp vmId action
      idempotencyKey reason confirmForced inputs now)).jobs) :
      o.requestedById = u.id ∧ Theirs db u o.workloadId := by
    obtain ⟨hmem, hnew⟩ := Table.mem_select.mp ho
    exact hjobs o hmem hnew
  refine ⟨fun id hid => ?_, fun o ho => hjob ho⟩
  obtain ⟨o, ho, rfl⟩ := List.mem_map.mp hid
  exact (hjob ho).2

/-! ### `get_job` -/

/-- The job `get_job` tells of. -/
theorem getJob_ok {jobId : Uuid} {job : JobResponse} (h : getJob rt u.principal jobId db = .ok job) :
    ∃ o, db.operations.get? jobId = some o ∧ job.jobId = o.id ∧ job.vmId = o.workloadId ∧
      o.requestedById = u.id ∧ (∃ action, o.action = .power action) ∧
      ∃ organizationId, o.organizationId = some organizationId ∧ Active db organizationId ∧
        Member db u organizationId := by
  obtain ⟨_, -, h⟩ := bind_ok.mp h
  obtain ⟨o, hvisible, h⟩ := bind_ok.mp h
  obtain ⟨hget, hvisible⟩ := Option.filter_eq_some_iff.mp (orRaise_ok.mp hvisible)
  simp only [Bool.and_eq_true, beq_iff_eq] at hvisible
  obtain ⟨⟨huser, hmember⟩, hactive⟩ := hvisible
  obtain ⟨hid, hvm, haction⟩ := jobResponse_ok h
  cases horganization : o.organizationId with
  | none =>
    rw [horganization] at hactive
    simp [activeOrganization, Table.first] at hactive
  | some organizationId =>
    rw [horganization] at hmember hactive
    exact ⟨o, hget, hid, hvm, huser, haction, organizationId, horganization,
      activeOrganization_iff.mp hactive, membership_iff.mp hmember⟩

/-- `get_job` looks at the organization the operation was requested for. It shows a job of an
active organization of the customer's, wherever its workload is by now. -/
theorem getJob_visible {o : Operation} (ho : o ∈ db.operations) (hrole : u.role = .customer)
    (huser : o.requestedById = u.id) {action : PowerAction} (haction : o.action = .power action)
    {organizationId : Uuid} (horganization : o.organizationId = some organizationId)
    (hactive : Active db organizationId) (hmember : Member db u organizationId) :
    ∃ job, getJob rt u.principal o.id db = .ok job ∧ job.jobId = o.id ∧ job.vmId = o.workloadId := by
  have hvisible : visibleJob u.principal o.id db = some o := by
    refine Option.filter_eq_some_iff.mpr ⟨Table.get?_of_mem ho, ?_⟩
    rw [horganization, membership_iff.mpr hmember, activeOrganization_iff.mpr hactive]
    simp [huser]
  have hcustomer : requireServiceRole u.principal [.customer] = .ok () := if_pos (by simp [User.principal, hrole])
  unfold getJob
  rw [hcustomer, hvisible]
  have hresponse : ∃ job, jobResponse rt o = .ok job := by
    unfold jobResponse
    rw [haction]
    exact ⟨_, rfl⟩
  obtain ⟨job, hjob⟩ := hresponse
  obtain ⟨hid, hvm, -⟩ := jobResponse_ok hjob
  exact ⟨job, hjob, hid, hvm⟩

/-- The workload of an operation that follows is theirs, if the organization of the operation is.
-/
theorem Follows.theirs {o : Operation} (h : Follows db u o) {organizationId : Uuid}
    (horganization : o.organizationId = some organizationId) (hactive : Active db organizationId)
    (hmember : Member db u organizationId) : Theirs db u o.workloadId := by
  obtain ⟨w, hget, hpresent, htemplate, hwhere⟩ := h
  refine ⟨w, hget, hpresent, htemplate, ?_⟩
  rcases hwhere with hsame | hother
  · exact ⟨organizationId, hsame.trans horganization, hactive, hmember⟩
  · exact hother

/-- An operation of a workload that is theirs follows, whatever organization it was requested for.
-/
theorem Theirs.follows {o : Operation} (h : Theirs db u o.workloadId) : Follows db u o := by
  obtain ⟨w, hget, hpresent, htemplate, hwhere⟩ := h.visible
  exact ⟨w, hget, hpresent, htemplate, Or.inr hwhere⟩

theorem getJob_isolated (h : JobsFollow db u) (jobId : Uuid) :
    Isolated db u (disclosed rt api db u (.getJob jobId)) := by
  simp only [disclosed]
  split
  · next job hjob =>
    obtain ⟨o, hget, hid, hvm, huser, haction, organizationId, horganization, hactive, hmember⟩ := getJob_ok hjob
    have htheirs : Theirs db u o.workloadId :=
      (h o (Table.get?_mem hget) huser haction organizationId horganization hactive hmember).theirs
        horganization hactive hmember
    have hrow : db.operations.get? o.id = some o := Table.get?_of_mem (Table.get?_mem hget)
    refine ⟨fun id hid' => ?_, fun o' ho' => ?_⟩
    · rw [List.mem_singleton.mp hid', hvm]
      exact htheirs
    · obtain ⟨id, hid', hget'⟩ := List.mem_filterMap.mp ho'
      rw [List.mem_singleton.mp hid', hid, hrow] at hget'
      cases hget'
      exact ⟨huser, htheirs⟩
  · exact isolated_nothing

end Isolation

/-- **Customers see their own workloads only**, and of their jobs those of such workloads,
exactly as long as the workloads of their power actions stay where they were or go to
another organization of theirs. -/
theorem isolated_iff (rt : Runtime) (api : Api) (db : Db) (c : Customer db) :
    (∀ entry, Isolated db c.user (disclosed rt api db c.user entry)) ↔ JobsFollow db c.user := by
  constructor
  · intro hall o ho huser haction organizationId horganization hactive hmember
    obtain ⟨action, haction⟩ := haction
    obtain ⟨job, hjob, -, hvm⟩ : ∃ job, getJob rt c.user.principal o.id db = .ok job ∧ job.jobId = o.id ∧
        job.vmId = o.workloadId := getJob_visible ho c.role huser haction horganization hactive hmember
    have hisolated := (hall (.getJob o.id)).workloads
    simp only [disclosed, hjob] at hisolated
    have htheirs := hisolated job.vmId List.mem_cons_self
    rw [hvm] at htheirs
    exact htheirs.follows
  · intro hfollow entry
    cases entry with
    | listVms => exact listVms_isolated
    | getVm vmId => exact getVm_isolated vmId
    | requestPowerAction sourceIp vmId action idempotencyKey reason confirmForced inputs now =>
      exact power_isolated sourceIp vmId action idempotencyKey reason confirmForced inputs now
    | getJob jobId => exact getJob_isolated hfollow jobId
    | createConsoleSession workloadId s => exact console_isolated c.role workloadId s
    | connectConsole grant decrypts => exact connection_isolated c grant decrypts

/-! ### A workload that goes to another organization -/

/-- A power action that has ended, of a workload of the first organization; its user is a
member of that one only. -/
def customerDb : Db :=
  { (sampleWorld (.power .start)).db with
    users := ⟨[⟨1, "admin", .superAdmin, true, 1⟩, ⟨2, "eve", .customer, true, 1⟩], by decide⟩
    organizations := ⟨[⟨1, true⟩, ⟨2, true⟩], by decide⟩
    members := .single ⟨1, 1, 2⟩
    workloads := .single { sampleWorkload 1 with organizationId := some 1 }
    assignments := .single ⟨1, 1, 1, 1, none, none⟩
    operations := .single
      { requested 1 1 (.power .start) with
        requestedById := 2
        organizationId := some 1
        status := .succeeded } }

/-- The administrator takes the workload from the first organization and gives it to the second. -/
def reassignment : List Agreement.Execution :=
  [.unassign administrator 1 (sampleInput "running") 1, .assign administrator 1 2 (sampleInput "running") 2]

def eve (db : Db) (h : ⟨2, "eve", .customer, true, 1⟩ ∈ db.users.rows) : Customer db := ⟨_, h, rfl⟩

theorem reassigned_job_disclosed :
    ∃ c : Customer (Agreement.run customerDb reassignment), c.user = ⟨2, "eve", .customer, true, 1⟩ ∧
      ¬ Isolated (Agreement.run customerDb reassignment) c.user
        (disclosed asciiRuntime plainApi (Agreement.run customerDb reassignment) c.user (.getJob 1)) := by
  refine ⟨eve _ (by decide +kernel), rfl, fun h => ?_⟩
  have hlisted : 1 ∈ (disclosed asciiRuntime plainApi (Agreement.run customerDb reassignment)
      ⟨2, "eve", .customer, true, 1⟩ (.getJob 1)).workloads := by decide +kernel
  obtain ⟨w, hget, -, -, organizationId, horganization, -, m, hm, huser, hin⟩ := (h.workloads 1 hlisted).visible
  have howner : w.organizationId = some 2 := by
    have hrow : ((Agreement.run customerDb reassignment).workloads.get? 1).map Workload.organizationId =
      some (some 2) := by decide +kernel
    rw [hget] at hrow
    exact Option.some.inj hrow
  have hmembers : ∀ m ∈ (Agreement.run customerDb reassignment).members.rows, m.organizationId ≠ 2 := by
    decide +kernel
  rw [howner] at horganization
  cases horganization
  exact hmembers m hm hin

end PveMaster.Isolation
