import PveMaster.Foundation.History
import PveMaster.Ipam.Exclusivity
import PveMaster.Provisioning.Disclosure
import PveMaster.Provisioning.Segments

/-! The network configuration of a provisioned VM.

`CONFIGURE_NETWORK` takes the bridge and the VLAN tag from the saved specification, and the
prefix length, the gateway and the name servers from the pool as it is then. The two halves
agree where a request is created on the segment of its pool and the pool stays there; neither
is checked. Every configuration a run sends is recorded with what the run has read of pools
and with the tables of that moment. -/
namespace PveMaster.Networking
open ProvisioningRunner Prog ProvProg

/-! ### Rows -/

/-- What becomes of the row of a request: its plan stays, it does not come back from its end, and
its address is one of its pool. -/
structure Succeeds (db : Db) (r r' : ProvisioningRequest) : Prop where
  plan : plan r' = plan r
  opened : r'.status.terminal = false → r.status.terminal = false
  placed : Placed db r'

/-- What a change of the requests leaves: no request is lost, and every row is what one before it
has become. -/
structure Carries (db : Db) (t : Table ProvisioningRequest) : Prop where
  keeps : Table.Keeps plan db.requests t
  rows : ∀ r' ∈ t, ∃ r ∈ db.requests, Succeeds db r r'

theorem Carries.refl {db : Db} (h : Mapped db) : Carries db db.requests :=
  ⟨.refl _ _, fun r hr => ⟨r, hr, rfl, fun h => h, h.placed r hr⟩⟩

theorem carries_update {db : Db} {k : Uuid} {f : ProvisioningRequest → ProvisioningRequest} (h : Mapped db)
    (hf : ∀ r, db.requests.get? k = some r → (f r).id = r.id ∧ Succeeds db r (f r)) :
    Carries db (db.requests.update k f) := by
  refine ⟨fun j r hr => ?_, fun r' hr' => ?_⟩
  · by_cases hj : j = k
    · rw [hj] at hr ⊢
      exact ⟨f r, Table.get?_update_same hr (hf r hr).1, (hf r hr).2.plan⟩
    · exact ⟨r, by rw [Table.get?_update_of_ne _ hj]; exact hr, rfl⟩
  · obtain ⟨r, hr, rfl⟩ := Table.mem_update.mp hr'
    refine ⟨r, hr, ?_⟩
    unfold Table.amend
    split
    · next hkey =>
      refine (hf r ?_).2
      rw [← hkey.1]
      exact Table.get?_of_mem hr
    · exact ⟨rfl, fun h => h, h.placed r hr⟩

/-- **What holds of the tables** survives a change of the requests and of the pools. -/
theorem Mapped.next {db db' : Db} {k : Uuid} {asked : Option Uuid} (h : Mapped db) (hc : Carries db db'.requests)
    (hf : Follows k asked db.ipam db'.ipam)
    (hasked : ∀ poolId, asked = some poolId → ∃ r, db.requests.get? k = some r ∧ r.ipPoolId = poolId) :
    Mapped db' ∧ Onward db db' := by
  have hpools : Table.Keeps IpPool.id db.ipam.pools db'.ipam.pools := by
    intro j p hp
    obtain ⟨p', hp', -⟩ := hf.pools j p hp
    exact ⟨p', hp', (Table.get?_key hp').trans (Table.get?_key hp).symm⟩
  have hpoolId {r r' : ProvisioningRequest} (hplan : plan r' = plan r) : r'.ipPoolId = r.ipPoolId :=
    congrArg Prod.fst hplan
  refine ⟨⟨fun r' hr' => ?_, fun r' hr' hopen => ?_, fun l' hl' j hj => ?_⟩, hc.keeps, hf.addresses, hpools⟩
  · obtain ⟨r, -, hsucceeds⟩ := hc.rows r' hr'
    exact hsucceeds.placed.mono hf.addresses rfl rfl
  · obtain ⟨r, hr, hsucceeds⟩ := hc.rows r' hr'
    exact (h.fitting r hr (hsucceeds.opened hopen)).mono hf.pools hsucceeds.plan
  · rcases hf.allocations l' hl' j hj with ⟨l, hl, hsame, haddress⟩ | ⟨rfl, poolId, hpool, hin⟩
    · obtain ⟨r, hr, hin⟩ := h.allocated l hl j hsame
      obtain ⟨r', hr', hplan⟩ := hc.keeps j r hr
      rw [haddress] at hin
      refine ⟨r', hr', ?_⟩
      rw [hpoolId hplan]
      exact hin.mono hf.addresses
    · obtain ⟨r, hr, hrpool⟩ := hasked poolId hpool
      obtain ⟨r', hr', hplan⟩ := hc.keeps j r hr
      refine ⟨r', hr', ?_⟩
      rw [hpoolId hplan, hrpool]
      exact hin

/-! ### Assignments -/

/-- What has to hold before an assignment: an address that is assigned is of the request's pool.
-/
def Licensed (θ : ProvState) (db : Db) : ProvEdit → Prop
  | .ipAddress id => ∀ c, θ.current.request = some c → InPool db id c.ipPoolId
  | _ => True

theorem clearInitialPassword_plan (now : Instant) (r : ProvisioningRequest) :
    plan (clearInitialPassword now r) = plan r ∧ (clearInitialPassword now r).ipAddressId = r.ipAddressId := by
  unfold clearInitialPassword
  split <;> exact ⟨rfl, rfl⟩

theorem onRequest_plan (settings : Settings) (e : ProvEdit) (r : ProvisioningRequest) :
    plan (e.onRequest settings r) = plan r := by
  have hset (b : Bool) (key : String) (hkey : key ≠ "node_capacity_reserved") :
      (r.specSnapshot.set "node_capacity_reserved" (.bool b)).get? key = r.specSnapshot.get? key :=
    Dict.get?_set_of_ne _ _ hkey
  cases e with
  | nodeReserved nodeId =>
    exact congrArg (Prod.mk _) (Prod.ext (hset true "bridge" (by decide)) (hset true "vlan_tag" (by decide)))
  | capacityReleased =>
    exact congrArg (Prod.mk _) (Prod.ext (hset false "bridge" (by decide)) (hset false "vlan_tag" (by decide)))
  | passwordCleared now => exact (clearInitialPassword_plan now r).1
  | settled review error finished cleared => exact (clearInitialPassword_plan cleared _).1
  | _ => rfl

/-- One assignment sets the address. -/
theorem onRequest_ipAddressId (settings : Settings) (e : ProvEdit) (r : ProvisioningRequest) :
    (e.onRequest settings r).ipAddressId = r.ipAddressId ∨
      ∃ id, e = .ipAddress id ∧ (e.onRequest settings r).ipAddressId = some id := by
  cases e with
  | ipAddress id => exact Or.inr ⟨id, rfl, rfl⟩
  | passwordCleared now => exact Or.inl (clearInitialPassword_plan now r).2
  | settled review error finished cleared => exact Or.inl (clearInitialPassword_plan cleared _).2
  | _ => exact Or.inl rfl

/-! ### Sessions -/

/-- How the request of a session compares with the one it loaded and with the row. -/
structure Draft (db : Db) (l c : ProvisioningRequest) : Prop where
  id : c.id = l.id
  stored : ∃ r, db.requests.get? l.id = some r ∧ plan r = plan l
  plan : plan c = plan l
  placed : Placed db c
  status : c.status = l.status ∨ c.status.terminal = true

/-- What a session knows of its request: it has none, or a draft of the row that is stored. -/
inductive Knows (θ : ProvState) (db : Db) : Prop
  | nothing (loaded : θ.loaded.request = none) (current : θ.current.request = none)
  | row {l c : ProvisioningRequest} (loaded : θ.loaded.request = some l)
      (current : θ.current.request = some c) (own : l.id = θ.requestId) (draft : Draft db l c)

theorem Draft.mono {db db' : Db} {l c : ProvisioningRequest} (h : Draft db l c) (ho : Onward db db') :
    Draft db' l c := by
  obtain ⟨r, hr, hplan⟩ := h.stored
  obtain ⟨r', hr', hplan'⟩ := ho.requests l.id r hr
  exact ⟨h.id, ⟨r', hr', hplan'.trans hplan⟩, h.plan, h.placed.mono ho.addresses rfl rfl, h.status⟩

theorem Knows.mono {θ : ProvState} {db db' : Db} (h : Knows θ db) (ho : Onward db db') : Knows θ db' := by
  cases h with
  | nothing loaded current => exact .nothing loaded current
  | row loaded current own draft => exact .row loaded current own (draft.mono ho)

theorem Knows.current {θ : ProvState} {db : Db} {c : ProvisioningRequest} (h : Knows θ db)
    (hc : θ.current.request = some c) : ∃ l, θ.loaded.request = some l ∧ l.id = θ.requestId ∧ Draft db l c := by
  cases h with
  | nothing _ current =>
    rw [current] at hc
    cases hc
  | @row l c' loaded current own draft =>
    rw [current] at hc
    cases hc
    exact ⟨l, loaded, own, draft⟩

theorem Draft.edit {db : Db} {l c : ProvisioningRequest} (h : Draft db l c) (settings : Settings) {e : ProvEdit}
    (licensed : ∀ id, e = .ipAddress id → InPool db id c.ipPoolId) : Draft db l (e.onRequest settings c) := by
  have hplan := onRequest_plan settings e c
  refine ⟨(onRequest_id settings e c).trans h.id, h.stored, hplan.trans h.plan, fun id hid => ?_, ?_⟩
  · have hpool : (e.onRequest settings c).ipPoolId = c.ipPoolId := congrArg Prod.fst hplan
    rw [hpool]
    rcases onRequest_ipAddressId settings e c with hsame | ⟨id', he, hset⟩
    · exact h.placed id (hsame.symm.trans hid)
    · rw [hset] at hid
      cases hid
      exact licensed id he
  · rcases onRequest_status settings e c with hsame | hends
    · rw [hsame]
      exact h.status
    · exact Or.inr hends

theorem Knows.assign {θ : ProvState} {db : Db} (h : Knows θ db) (settings : Settings) {e : ProvEdit}
    (licensed : Licensed θ db e) : Knows (θ.assign settings e) db := by
  cases h with
  | nothing loaded current =>
    refine .nothing loaded ?_
    show θ.current.request.map _ = none
    rw [current]
    rfl
  | @row l c loaded current own draft =>
    refine .row (c := e.onRequest settings c) loaded ?_ own (draft.edit settings fun id he => ?_)
    · show θ.current.request.map _ = _
      rw [current]
      rfl
    · rw [he] at licensed
      exact licensed c current

/-- Only the requests of a session count. -/
theorem Knows.same {θ θ' : ProvState} {db : Db} (h : Knows θ db) (hid : θ'.requestId = θ.requestId)
    (hloaded : θ'.loaded.request = θ.loaded.request) (hcurrent : θ'.current.request = θ.current.request) :
    Knows θ' db := by
  cases h with
  | nothing l c => exact .nothing (by rw [hloaded, l]) (by rw [hcurrent, c])
  | row l c own draft => exact .row (by rw [hloaded, l]) (by rw [hcurrent, c]) (own.trans hid.symm) draft

theorem Knows.saved {θ : ProvState} {db : Db} (h : Knows θ db) : Knows θ.saved db := by
  cases h with
  | nothing loaded current => exact .nothing current current
  | @row l c loaded current own draft =>
    obtain ⟨r, hr, hplan⟩ := draft.stored
    refine .row current current (draft.id.trans own) ⟨rfl, ⟨r, ?_, hplan.trans draft.plan.symm⟩, rfl, draft.placed,
      Or.inl rfl⟩
    rw [draft.id]
    exact hr

theorem Knows.loadRequest {θ : ProvState} {db : Db} (hG : Mapped db) : Knows (loadRequest θ db) db := by
  cases hr : db.requests.get? θ.requestId with
  | none => exact .nothing hr hr
  | some r =>
    have hid : r.id = θ.requestId := Table.get?_key hr
    refine .row hr hr hid ⟨rfl, ⟨r, ?_, rfl⟩, rfl, hG.placed r (Table.get?_mem hr), Or.inl rfl⟩
    rw [hid]
    exact hr

/-! ### Commits -/

/-- What a session writes back over a row. -/
theorem merge_succeeds {db : Db} {l c r : ProvisioningRequest} (h : Draft db l c) (hr : Placed db r)
    (hplan : plan r = plan l) : Succeeds db r (ProvisioningRequest.merge l c r) := by
  have hsame : plan (ProvisioningRequest.merge l c r) = plan r := by
    have hc : plan c = plan r := h.plan.trans hplan.symm
    refine congrArg (Prod.mk _) (Prod.ext ?_ ?_)
    · show (written l.specSnapshot c.specSnapshot r.specSnapshot).get? "bridge" = _
      unfold written
      split
      · rfl
      · exact congrArg (fun x => x.2.1) hc
    · show (written l.specSnapshot c.specSnapshot r.specSnapshot).get? "vlan_tag" = _
      unfold written
      split
      · rfl
      · exact congrArg (fun x => x.2.2) hc
  have hpool : (ProvisioningRequest.merge l c r).ipPoolId = r.ipPoolId := rfl
  have hcpool : c.ipPoolId = r.ipPoolId := congrArg Prod.fst (h.plan.trans hplan.symm)
  refine ⟨hsame, fun hopen => ?_, fun id hid => ?_⟩
  · have hstatus : (written l.status c.status r.status).terminal = false := hopen
    unfold written at hstatus
    split at hstatus
    · exact hstatus
    · next hne =>
      rcases h.status with hsame | hends
      · exact absurd hsame hne
      · rw [hends] at hstatus
        cases hstatus
  · rw [hpool]
    have hwritten : written l.ipAddressId c.ipAddressId r.ipAddressId = some id := hid
    unfold written at hwritten
    split at hwritten
    · exact hr id hwritten
    · rw [← hcpool]
      exact h.placed id hwritten

theorem flush_carries {θ : ProvState} {db : Db} (h : Mapped db) (hknows : Knows θ db) :
    Carries db (θ.flushRequests db.requests) := by
  unfold ProvState.flushRequests
  cases hknows with
  | nothing loaded current =>
    rw [loaded]
    exact .refl h
  | @row l c loaded current own draft =>
    rw [loaded, current]
    refine carries_update h fun r hr => ⟨rfl, merge_succeeds draft (h.placed r (Table.get?_mem hr)) ?_⟩
    obtain ⟨r', hr', hplan⟩ := draft.stored
    rw [hr] at hr'
    cases hr'
    exact hplan

theorem claimed_succeeds {settings : Settings} {db : Db} {time : Instant} {runnerId : Uuid} {r : ProvisioningRequest}
    (h : r.claimable time = true) (hr : Placed db r) : Succeeds db r (claimed settings time runnerId r) := by
  refine ⟨rfl, fun _ => ?_, hr⟩
  unfold ProvisioningRequest.claimable at h
  cases hs : r.status <;> simp_all [ProvisioningStatus.terminal]

theorem released_succeeds {db : Db} {runnerId : Uuid} {r : ProvisioningRequest} (hr : Placed db r) :
    (released runnerId r).id = r.id ∧ Succeeds db r (released runnerId r) := by
  unfold released
  split <;> exact ⟨rfl, rfl, fun h => h, hr⟩

/-- **One effect of a run** keeps what holds of the tables and what the session knows. -/
theorem effect_mapped {settings : Settings} {θ θ' : ProvState} {db db' : Db} {ρ : Type} {o : ProvOp ρ}
    (he : ProvEffect settings θ db o θ' db') (hf : Follows θ.requestId (askedPool o) db.ipam db'.ipam)
    (licensed : ∀ e, o.edits e → Licensed θ db e)
    (hasked : ∀ poolId, askedPool o = some poolId →
      ∃ r, db.requests.get? θ.requestId = some r ∧ r.ipPoolId = poolId)
    (hG : Mapped db) (hknows : Knows θ db) : Mapped db' ∧ Onward db db' ∧ Knows θ' db' := by
  have next (hc : Carries db db'.requests) (hθ : Knows θ' db') : Mapped db' ∧ Onward db db' ∧ Knows θ' db' := by
    obtain ⟨hG', ho⟩ := hG.next hc hf hasked
    exact ⟨hG', ho, hθ⟩
  cases he with
  | @assigned e edits => exact next (.refl hG) (hknows.assign settings (licensed e edits))
  | @failed e edits => exact next (.refl hG) ((hknows.assign settings (licensed e edits)).same rfl rfl rfl)
  | @committed e db₁ edits commits live writes =>
    have hassigned := hknows.assign settings (licensed e edits)
    have hc : Carries db ((θ.assign settings e).flush db₁).requests := by
      show Carries db ((θ.assign settings e).flushRequests db₁.requests)
      rw [writes.requests]
      exact flush_carries hG hassigned
    exact next hc ((hassigned.mono (hG.next hc hf hasked).2).saved)
  | @claimed time r claims found claimable =>
    have hc : Carries db (db.requests.update θ.requestId (claimed settings time θ.runnerId)) := by
      refine carries_update hG fun q hq => ?_
      rw [found] at hq
      cases hq
      exact ⟨rfl, claimed_succeeds claimable (hG.placed r (Table.get?_mem found))⟩
    exact next hc ((hknows.mono (hG.next hc hf hasked).2).same rfl rfl rfl)
  | loaded loads => exact next (.refl hG) (.loadRequest hG)
  | stepsLoaded idle => exact next (.refl hG) (hknows.same rfl rfl rfl)
  | released idle =>
    have hc : Carries db (db.requests.update θ.requestId (released θ.runnerId)) :=
      carries_update hG fun q hq => released_succeeds (hG.placed q (Table.get?_mem hq))
    exact next hc ((hknows.mono (hG.next hc hf hasked).2).same rfl rfl rfl)

/-! ### What a run sends -/

/-- `net0` of a VM on the segment of a pool, as the pool is now. -/
def net0 (p : IpPool) : String :=
  "virtio,bridge=" ++ p.bridge ++ match p.vlanTag with
    | some tag => ",tag=" ++ toString (tag : Int)
    | none => ""

/-- The `nameserver` of a pool, left out where the pool has none. -/
def nameserver (p : IpPool) : List (String × String) :=
  if p.dnsServers = [] then [] else [("nameserver", " ".intercalate (p.dnsServers.map Inet.text))]

/-- What an operation configures the network with, if it is the call that does. -/
def configured {ρ : Type} : ProvOp ρ → Option (List (String × String))
  | .call (.configureQemu _ _ fields) => if fields.any (fun f => f.1 == "ipconfig0") then some fields else none
  | _ => none

/-- What an operation tells the run of a pool; a run that has read a pool goes on with what it has
read. -/
def pools {ρ : Type} : ProvOp ρ → ρ → List IpPool
  | .getPool _, found => found.toList
  | _, _ => []

/-- The operations of the step that depend on the stored pool. -/
def networks {ρ : Type} (o : ProvOp ρ) : Bool :=
  (configured o).isSome || match o with
    | .getPool _ => true
    | _ => false

/-- A network configuration as it is sent: what the run has read of pools by then, and the
tables at that time. -/
structure Sent where
  read : List IpPool
  db : Db
  fields : List (String × String)

/-- The configuration is of one pool, as the run has read it, with an address of that pool
and the segment the pool has. -/
def Coherent (s : Sent) : Prop :=
  ∃ p ∈ s.read, ∃ a ∈ s.db.ipam.addresses, ∃ q, s.db.ipam.pools.get? p.id = some q ∧ segment q = segment p ∧
    a.poolId = p.id ∧ s.fields = [("net0", net0 q), ("ipconfig0", ipconfig a p)] ++ nameserver p

/-- The configurations that have been sent, with this operation: each with what the run had read
of pools and with the tables of that moment. -/
def noted {ρ : Type} (o : ProvOp ρ) (θ : ProvState × List IpPool) (w : World) (_ : ρ) (sent : List Sent) : List Sent :=
  sent ++ ((configured o).map fun fields => ⟨θ.2, w.db, fields⟩).toList

/-- The runs, with what they read of pools and the configurations they send. -/
def configMachine (rt : Runtime) : Machine Exn ProvOp (ProvState × List IpPool) (World × List Sent) Input ProvMessage :=
  ((provMachine rt).hearing pools).recording noted

section Runs
variable {rt : Runtime} {client : Except AppError Unit}

/-- What holds at every moment: of the tables, and of every configuration that has been sent. -/
structure Sound (s : World × List Sent) : Prop where
  mapped : Mapped s.1.db
  coherent : ∀ e ∈ s.2, Coherent e

/-- The request, if it has ended, still has a pool of its segment. -/
def Standing (k : Uuid) (db : Db) : Prop :=
  ∀ r ∈ db.requests.get? k, r.status.terminal = true → Fitting db r

instance (k : Uuid) (db : Db) : Decidable (Standing k db) :=
  inferInstanceAs (Decidable (∀ r ∈ db.requests.get? k, r.status.terminal = true → Fitting db r))

/-- What the runs of requests rely on and guarantee. While a run is at the step that needs its
pool, the pool stands. -/
def contract : Contract ProvOp (ProvState × List IpPool) (World × List Sent) Input where
  may o _ θ s := Sound s ∧ (networks o = true → Standing θ.1.requestId s.1.db)
  rely s s' := Onward s.1.db s'.1.db
  guar s s' := Onward s.1.db s'.1.db ∧ Sound s'

theorem contract_closed : contract.Closed where
  refl s := .refl s.1.db
  trans _ _ _ h h' := h.trans h'

/-- A run of the request `k`, with what its session knows. -/
structure Knowing (k : Uuid) (θ : ProvState × List IpPool) (s : World × List Sent) : Prop where
  own : θ.1.requestId = k
  knows : Knows θ.1 s.1.db

theorem Knowing.mono {k : Uuid} {θ : ProvState × List IpPool} {s s' : World × List Sent} (h : Knowing k θ s)
    (ho : Onward s.1.db s'.1.db) : Knowing k θ s' := ⟨h.own, h.knows.mono ho⟩

/-- **One operation** of a run. -/
theorem exec_knowing {k : Uuid} {ρ : Type} {o : ProvOp ρ} {i : Input} {θ θ' : ProvState × List IpPool}
    {s s' : World × List Sent} {r : ρ} (h : Knowing k θ s) (hG : Sound s)
    (licensed : ∀ e, o.edits e → Licensed θ.1 s.1.db e)
    (hasked : ∀ poolId, askedPool o = some poolId → ∃ r, s.1.db.requests.get? k = some r ∧ r.ipPoolId = poolId)
    (hsent : ∀ fields, configured o = some fields → Coherent ⟨θ.2, s.1.db, fields⟩)
    (hexec : (configMachine rt).exec o i θ s = some (θ', s', r)) :
    contract.guar s s' ∧ Knowing k θ' s' ∧ θ'.2 = θ.2 ++ pools o r ∧
      (provMachine rt).exec o i θ.1 s.1 = some (θ'.1, s'.1, r) := by
  obtain ⟨hheard, hnoted⟩ := Machine.recording_exec hexec
  obtain ⟨hrun, hread⟩ := Machine.hearing_exec hheard
  have hfollows := exec_follows (fun poolId hp l hl hown => by
    obtain ⟨q, hq, hin⟩ := hG.mapped.allocated l hl _ hown
    obtain ⟨q', hq', hpool⟩ := hasked poolId hp
    rw [h.own, hq'] at hq
    cases hq
    rw [← hpool]
    exact hin) hrun
  have heffect := (prov_step hrun).effect
  obtain ⟨hmapped, ho, hknows⟩ := effect_mapped heffect hfollows licensed
    (by rw [h.own]; exact hasked) hG.mapped h.knows
  refine ⟨⟨ho, hmapped, fun e he => ?_⟩, ⟨heffect.requestId.trans h.own, hknows⟩, hread, hrun⟩
  rw [hnoted] at he
  rcases List.mem_append.mp he with he | he
  · exact hG.coherent e he
  · cases hfields : configured o with
    | none =>
      rw [hfields] at he
      cases he
    | some fields =>
      rw [hfields] at he
      rw [List.mem_singleton.mp he]
      exact hsent fields hfields

/-- What a run may learn of the pools and the tables: nothing takes it back. -/
structure Lasting where
  holds : List IpPool → Db → Prop
  stays : ∀ heard more db db', Onward db db' → holds heard db → holds (heard ++ more) db'

/-- Nothing in particular. -/
def Lasting.nothing : Lasting := ⟨fun _ _ => True, fun _ _ _ _ _ _ => trivial⟩

/-- A run that has its request, made with the given plan, and for which a lasting fact holds. -/
structure Working (k : Uuid) (π : Uuid × Option Json × Option Json) (F : Lasting) (θ : ProvState × List IpPool)
    (s : World × List Sent) : Prop extends Knowing k θ s where
  row : ∃ c, θ.1.current.request = some c ∧ plan c = π
  fact : F.holds θ.2 s.1.db

section Working
variable {k : Uuid} {π : Uuid × Option Json × Option Json} {F : Lasting}

theorem Working.mono {θ : ProvState × List IpPool} {s s' : World × List Sent} (h : Working k π F θ s)
    (ho : Onward s.1.db s'.1.db) : Working k π F θ s' := by
  refine ⟨h.toKnowing.mono ho, h.row, ?_⟩
  have hfact := F.stays θ.2 [] _ _ ho h.fact
  rwa [List.append_nil] at hfact

theorem Working.learn {F' : Lasting} {θ : ProvState × List IpPool} {s : World × List Sent} (h : Working k π F θ s)
    (hF : F'.holds θ.2 s.1.db) : Working k π F' θ s := ⟨h.toKnowing, h.row, hF⟩

/-- The stored row of a run that has its request. -/
theorem Working.stored {θ : ProvState × List IpPool} {s : World × List Sent} (h : Working k π F θ s) :
    ∃ r, s.1.db.requests.get? k = some r ∧ plan r = π := by
  obtain ⟨c, hc, hplan⟩ := h.row
  obtain ⟨l, -, hown, draft⟩ := h.knows.current hc
  obtain ⟨r, hr, hsame⟩ := draft.stored
  rw [hown, h.own] at hr
  exact ⟨r, hr, hsame.trans (draft.plan.symm.trans hplan)⟩

theorem Working.asked {θ : ProvState × List IpPool} {s : World × List Sent} (h : Working k π F θ s) :
    ∃ r, s.1.db.requests.get? k = some r ∧ r.ipPoolId = π.1 := by
  obtain ⟨r, hr, hplan⟩ := h.stored
  exact ⟨r, hr, congrArg Prod.fst hplan⟩

theorem exec_working {ρ : Type} {o : ProvOp ρ} {i : Input} {θ θ' : ProvState × List IpPool}
    {s s' : World × List Sent} {r : ρ} (h : Working k π F θ s) (hG : Sound s) (hloads : o.loads = false)
    (licensed : ∀ e, o.edits e → Licensed θ.1 s.1.db e)
    (hasked : ∀ poolId, askedPool o = some poolId → poolId = π.1)
    (hsent : ∀ fields, configured o = some fields → Coherent ⟨θ.2, s.1.db, fields⟩)
    (hexec : (configMachine rt).exec o i θ s = some (θ', s', r)) :
    contract.guar s s' ∧ Working k π F θ' s' ∧ θ'.2 = θ.2 ++ pools o r ∧
      (provMachine rt).exec o i θ.1 s.1 = some (θ'.1, s'.1, r) := by
  obtain ⟨hguar, hknowing, hread, hrun⟩ := exec_knowing h.toKnowing hG licensed
    (fun poolId hp => by
      rw [hasked poolId hp]
      exact h.asked) hsent hexec
  refine ⟨hguar, ⟨hknowing, ?_, ?_⟩, hread, hrun⟩
  · obtain ⟨c, hc, hplan⟩ := h.row
    obtain ⟨c', hc', hsame | ⟨e, he⟩⟩ := (prov_step hrun).effect.request hloads hc
    · exact ⟨c', hc', by rw [hsame]; exact hplan⟩
    · exact ⟨c', hc', by rw [he]; exact (onRequest_plan _ e c).trans hplan⟩
  · rw [hread]
    exact F.stays _ _ _ _ hguar.1 h.fact

/-! ### Operations that need no licence -/

/-- The operations of the other steps, and of what surrounds the steps. -/
def Free {ρ : Type} (o : ProvOp ρ) : Prop :=
  o.opClass ≠ .opening ∧ o.opClass ≠ .own .reserveIp ∧ o.opClass ≠ .own .configureNetwork

theorem Free.licensed {ρ : Type} {o : ProvOp ρ} (h : Free o) {θ : ProvState} {db : Db} {e : ProvEdit}
    (he : o.edits e) : Licensed θ db e := by
  cases e with
  | ipAddress id =>
    exfalso
    cases o with
    | assign e' =>
      cases he
      exact h.2.1 rfl
    | commit e' audit =>
      cases he
      exact h.2.1 rfl
    | selectTarget memory disk => rcases he with he | ⟨_, he⟩ <;> cases he
    | releaseNodeCapacity => rcases he with he | he <;> cases he
    | assignOrganization actor => rcases he with he | ⟨_, he⟩ <;> cases he
    | recordPartialWorkload => rcases he with he | ⟨_, he⟩ <;> cases he
    | _ => cases he
  | _ => trivial

theorem Free.asked {ρ : Type} {o : ProvOp ρ} (h : Free o) : askedPool o = none := by
  cases o with
  | reserveIp svc poolId requested => exact absurd rfl h.2.1
  | _ => rfl

theorem Free.configured {ρ : Type} {o : ProvOp ρ} (h : Free o) : configured o = none := by
  cases o with
  | call r =>
    cases r with
    | configureQemu node vmid fields =>
      show (if _ then _ else _) = none
      rw [if_neg]
      intro hfields
      apply h.2.2
      show (if _ then _ else _) = _
      rw [if_pos hfields]
    | _ => rfl
  | _ => rfl

theorem Free.loads {ρ : Type} {o : ProvOp ρ} (h : Free o) : o.loads = false := by
  cases o with
  | load => exact absurd rfl h.1
  | _ => rfl

theorem exec_free {ρ : Type} {o : ProvOp ρ} (ho : Free o) {i : Input} {θ θ' : ProvState × List IpPool}
    {s s' : World × List Sent} {r : ρ} (h : Working k π F θ s) (hG : Sound s)
    (hexec : (configMachine rt).exec o i θ s = some (θ', s', r)) : contract.guar s s' ∧ Working k π F θ' s' := by
  obtain ⟨hguar, hw, -⟩ := exec_working h hG ho.loads (fun _ => ho.licensed)
    (fun _ hp => by rw [ho.asked] at hp; cases hp) (fun _ hf => by rw [ho.configured] at hf; cases hf) hexec
  exact ⟨hguar, hw⟩

theorem wp_free {α : Type} {p : ProvProg α} (hp : p.Only Free) {θ : ProvState × List IpPool} {s : World × List Sent}
    (h : Working k π F θ s) : wp (configMachine rt) contract p (fun _ θ s => Working k π F θ s) θ s :=
  wp_only (fun _ _ _ ho h => h.mono ho)
    (fun _ _ _ _ _ _ _ ho h hmay hexec => exec_free ho h hmay.1 hexec) hp h

theorem wp_free_bind {α β : Type} {p : ProvProg α} {f : α → ProvProg β}
    {Q : Except Exn β → ProvState × List IpPool → World × List Sent → Prop} (hp : p.Only Free)
    {θ : ProvState × List IpPool} {s : World × List Sent} (h : Working k π F θ s)
    (hf : ∀ a θ s, Working k π F θ s → wp (configMachine rt) contract (f a) Q θ s)
    (he : ∀ e θ s, Working k π F θ s → Q (.error e) θ s) : wp (configMachine rt) contract (p >>= f) Q θ s := by
  apply wp_bind
  refine wp_mono (fun r θ s hr => ?_) (wp_free hp h)
  cases r with
  | ok a => exact hf a θ s hr
  | error e => exact he e θ s hr

theorem free_of {α : Type} {p : ProvProg α} (h : p.Only Plain) : p.Only Free :=
  h.mono fun o ho => by
    unfold Plain at ho
    exact ⟨by rw [ho]; nofun, by rw [ho]; nofun, by rw [ho]; nofun⟩

theorem free_inStep {α : Type} {p : ProvProg α} {name : StepName} (h : p.Only (InStep name))
    (hreserve : name ≠ .reserveIp) (hconfigure : name ≠ .configureNetwork) : p.Only Free :=
  h.mono fun o ho => by
    rcases ho with ho | ho | ho
    · exact ⟨by rw [ho]; nofun, by rw [ho]; nofun, by rw [ho]; nofun⟩
    · exact ⟨by rw [ho]; nofun, by rw [ho]; nofun, by rw [ho]; nofun⟩
    · refine ⟨by rw [ho]; nofun, ?_, ?_⟩
      · rw [ho]
        exact fun h => hreserve (OpClass.own.inj h)
      · rw [ho]
        exact fun h => hconfigure (OpClass.own.inj h)

/-- A read of the request by a run that has it. -/
theorem wp_request_bind {β : Type} {f : ProvisioningRequest → ProvProg β}
    {Q : Except Exn β → ProvState × List IpPool → World × List Sent → Prop} {θ : ProvState × List IpPool}
    {s : World × List Sent} (h : Working k π F θ s)
    (hf : ∀ c θ s, Working k π F θ s → plan c = π → Placed s.1.db c → wp (configMachine rt) contract (f c) Q θ s)
    (he : ∀ e θ s, Working k π F θ s → Q (.error e) θ s) :
    wp (configMachine rt) contract (ProvProg.request >>= f) Q θ s := by
  apply wp_bind
  apply wp_bind
  apply wp_perform
  intro s' ho i θ' s'' r hmay hexec
  obtain ⟨hguar, hw, -⟩ := exec_working (o := .rows) (h.mono ho) hmay.1 rfl (fun e he => by cases he; trivial)
    (fun _ hp => by cases hp) (fun _ hf => by cases hf) hexec
  refine ⟨hguar, ?_⟩
  obtain ⟨hheard, -⟩ := Machine.recording_exec hexec
  obtain ⟨hrun, -⟩ := Machine.hearing_exec hheard
  have hout : (θ.1, s'.1, if θ.1.expired then .error .sessionState else .ok θ.1.current) = (θ'.1, s''.1, r) :=
    Option.some.inj hrun
  cases r with
  | error e => exact he e θ' s'' hw
  | ok rows =>
    have hrows : rows = θ'.1.current := by
      obtain ⟨hθ, hrest⟩ := Prod.mk.inj hout
      obtain ⟨-, hr⟩ := Prod.mk.inj hrest
      rw [← hθ]
      split at hr
      · cases hr
      · exact (Except.ok.inj hr).symm
    apply wp_ofExcept.mpr
    obtain ⟨c, hc, hplan⟩ := hw.row
    have hfound : orRaise rows.request Exn.attributeError = .ok c := by
      rw [hrows, hc]
      rfl
    rw [hfound]
    obtain ⟨l, -, -, draft⟩ := hw.knows.current hc
    exact hf c θ' s'' hw hplan draft.placed

/-! ### `RESERVE_IP` -/

theorem wp_reserve (svc : IpamService) {c : ProvisioningRequest} (hc : plan c = π) {θ : ProvState × List IpPool}
    {s : World × List Sent} (h : Working k π F θ s) :
    wp (configMachine rt) contract (perform (.reserveIp svc c.ipPoolId c.requestedIpAddress))
      (fun r θ s => Working k π F θ s ∧ ∀ a, r = .ok a → InPool s.1.db a.id π.1) θ s := by
  have hpool : c.ipPoolId = π.1 := congrArg Prod.fst hc
  apply wp_perform
  intro s' ho i θ' s'' r hmay hexec
  have hw := h.mono ho
  obtain ⟨hguar, hw', -, hrun⟩ := exec_working (o := .reserveIp svc c.ipPoolId c.requestedIpAddress) hw hmay.1 rfl
    (fun e he => by cases he; trivial) (fun poolId hp => (Option.some.inj hp).symm.trans hpool) (fun _ hf => by cases hf) hexec
  refine ⟨hguar, hw', fun a ha => ?_⟩
  have howned : ∀ l ∈ s'.1.db.ipam.allocations, l.provisioningRequestId = some θ.1.requestId →
      InPool s'.1.db l.ipAddressId c.ipPoolId := by
    intro l hl hown
    obtain ⟨q, hq, hin⟩ := hmay.1.mapped.allocated l hl _ hown
    obtain ⟨q', hq', hqpool⟩ := hw.asked
    rw [hw.own, hq'] at hq
    cases hq
    rw [hpool, ← hqpool]
    exact hin
  have hreserved := (reserveIp_follows svc c.requestedIpAddress i howned).2 a
  have hout : PveMaster.reserveIp svc c.ipPoolId c.requestedIpAddress i θ.1 s'.1 = (θ'.1, s''.1, r) :=
    Option.some.inj hrun
  rw [hout, hpool] at hreserved
  exact hreserved ha

/-- **`RESERVE_IP`** gives the request an address of its pool. -/
theorem wp_reserveIp (principal : Principal) {θ : ProvState × List IpPool} {s : World × List Sent}
    (h : Working k π F θ s) :
    wp (configMachine rt) contract (ProvisioningRunner.reserveIp principal) (fun _ θ s => Working k π F θ s) θ s := by
  refine wp_free_bind (free_of (only_ipam _)) h (fun svc θ s hw => ?_) fun e θ s hw => hw
  refine wp_request_bind hw (fun c θ s hw hplan _ => ?_) fun e θ s hw => hw
  apply wp_bind
  refine wp_mono (fun r θ s hr => ?_) (wp_reserve svc hplan hw)
  cases r with
  | error e => exact hr.1
  | ok a =>
    have hin : InPool s.1.db a.id π.1 := hr.2 a rfl
    apply wp_bind
    apply wp_perform
    intro s' ho i θ' s'' r hmay hexec
    have hw := hr.1.mono ho
    obtain ⟨hguar, hw', -⟩ := exec_working hw hmay.1 rfl (fun e he => by
      cases he
      intro c hc
      obtain ⟨c', hc', hplan'⟩ := hw.row
      rw [hc'] at hc
      cases hc
      rw [show c.ipPoolId = π.1 from congrArg Prod.fst hplan']
      exact hin.mono ho.addresses) (fun _ hp => by cases hp) (fun _ hf => by cases hf) hexec
    refine ⟨hguar, ?_⟩
    cases r <;> exact hw'

/-! ### `CONFIGURE_NETWORK` -/

/-- The plan names the segment of the pool, for every request with this plan. -/
def Suits (π : Uuid × Option Json × Option Json) (p : IpPool) : Prop := ∀ r, plan r = π → Fits r p

/-- An address with this place is stored. Addresses are not moved, so this lasts. -/
def Lasting.address (id : Uuid) (a : IpAddress) : Lasting where
  holds _ db := ∃ a', db.ipam.addresses.get? id = some a' ∧ place a' = place a
  stays _ _ _ _ ho h := by
    obtain ⟨a', ha', hplace⟩ := h
    obtain ⟨a'', ha'', hsame⟩ := ho.addresses id a' ha'
    exact ⟨a'', ha'', hsame.trans hplace⟩

/-- The run has read the pool, and has been told what it remembers. -/
def Lasting.read (p : IpPool) : Lasting where
  holds heard _ := p ∈ heard
  stays _ _ _ _ _ h := List.mem_append_left _ h

def Lasting.and (F G : Lasting) : Lasting where
  holds heard db := F.holds heard db ∧ G.holds heard db
  stays heard more db db' ho h := ⟨F.stays heard more db db' ho h.1, G.stays heard more db db' ho h.2⟩

/-- The pool of the request as it is stored: its segment is the plan's. -/
theorem Working.fitting {θ : ProvState × List IpPool} {s : World × List Sent} (h : Working k π F θ s) (hG : Sound s)
    (hstanding : Standing θ.1.requestId s.1.db) :
    ∃ q, s.1.db.ipam.pools.get? π.1 = some q ∧ Suits π q := by
  obtain ⟨r, hr, hplan⟩ := h.stored
  have hfitting : Fitting s.1.db r := by
    cases hterminal : r.status.terminal with
    | false => exact hG.mapped.fitting r (Table.get?_mem hr) hterminal
    | true => exact hstanding r (by rw [h.own]; exact hr) hterminal
  obtain ⟨q, hq, hfits⟩ := hfitting
  refine ⟨q, ?_, fun r' hr' => hfits.same (hr'.trans hplan.symm) rfl⟩
  rw [← congrArg Prod.fst hplan]
  exact hq

/-- The read of the address of a request. -/
theorem wp_address_bind {β : Type} {f : IpAddress → ProvProg β}
    {Q : Except Exn β → ProvState × List IpPool → World × List Sent → Prop} {θ : ProvState × List IpPool}
    {s : World × List Sent} (h : Working k π F θ s)
    (hf : ∀ a θ s, Working k π (F.and (.address a.id a)) θ s → a.poolId = π.1 →
      wp (configMachine rt) contract (f a) Q θ s)
    (he : ∀ e θ s, Working k π F θ s → Q (.error e) θ s) :
    wp (configMachine rt) contract (address >>= f) Q θ s := by
  unfold address
  rw [bind_assoc]
  refine wp_request_bind h (fun c θ s hw hplan hplaced => ?_) he
  cases hid : c.ipAddressId with
  | none => exact he _ θ s hw
  | some id =>
    obtain ⟨a₀, ha₀, hpool₀⟩ := hplaced id hid
    have hpool : c.ipPoolId = π.1 := congrArg Prod.fst hplan
    have hknown : Working k π (F.and (.address id a₀)) θ s := hw.learn ⟨hw.fact, a₀, ha₀, rfl⟩
    dsimp only
    rw [bind_assoc]
    apply wp_bind
    apply wp_op
    intro s' ho i θ' s'' found hmay hexec
    obtain ⟨hguar, hw', -, hrun⟩ := exec_working (o := .getAddress id) (hknown.mono ho) hmay.1 rfl
      (fun e he => by cases he; trivial) (fun _ hp => by cases hp) (fun _ hf => by cases hf) hexec
    refine ⟨hguar, ?_⟩
    have hout : (θ.1, s'.1, s'.1.db.ipam.addresses.get? id) = (θ'.1, s''.1, found) := Option.some.inj hrun
    obtain ⟨-, hrest⟩ := Prod.mk.inj hout
    obtain ⟨hdb, hfound⟩ := Prod.mk.inj hrest
    apply wp_bind
    apply wp_ofExcept.mpr
    cases found with
    | none => exact he _ θ' s'' (hw'.learn hw'.fact.1)
    | some a =>
      have hkey : a.id = id := Table.get?_key hfound
      obtain ⟨hF, a', ha', hplace⟩ := hw'.fact
      rw [← hdb, hfound] at ha'
      cases ha'
      have hin : a.poolId = π.1 := (congrArg Prod.fst hplace).trans (hpool₀.trans hpool)
      refine hf a θ' s'' (hw'.learn ⟨hF, a, ?_, rfl⟩) hin
      rw [← hdb, hkey]
      exact hfound

/-- The read of the pool of a request. -/
theorem wp_pool_bind {β : Type} {f : Option IpPool → ProvProg β}
    {Q : Except Exn β → ProvState × List IpPool → World × List Sent → Prop} {θ : ProvState × List IpPool}
    {s : World × List Sent} (h : Working k π F θ s)
    (hf : ∀ p θ s, Working k π (F.and (.read p)) θ s → p.id = π.1 → Suits π p →
      wp (configMachine rt) contract (f (some p)) Q θ s) :
    wp (configMachine rt) contract (Prog.op (.getPool π.1) >>= f) Q θ s := by
  apply wp_bind
  apply wp_op
  intro s' ho i θ' s'' found hmay hexec
  obtain ⟨hguar, hw, hread, hrun⟩ := exec_working (o := .getPool π.1) (h.mono ho) hmay.1 rfl
    (fun e he => by cases he; trivial) (fun _ hp => by cases hp) (fun _ hf => by cases hf) hexec
  refine ⟨hguar, ?_⟩
  have hout : (θ.1, s'.1, s'.1.db.ipam.pools.get? π.1) = (θ'.1, s''.1, found) := Option.some.inj hrun
  obtain ⟨-, hrest⟩ := Prod.mk.inj hout
  obtain ⟨-, hfound⟩ := Prod.mk.inj hrest
  obtain ⟨q, hq, hsuits⟩ := (h.mono ho).fitting hmay.1 (hmay.2 rfl)
  obtain rfl : some q = found := hq.symm.trans hfound
  refine hf q θ' s'' (hw.learn ⟨hw.fact, ?_⟩) (Table.get?_key hq) hsuits
  show q ∈ θ'.2
  rw [hread]
  exact List.mem_append_right _ List.mem_cons_self

/-- The bridge and the tag a specification saves are those of a pool it fits. -/
theorem net0_of_fits {r c : ProvisioningRequest} {p : IpPool} {bridge : String} (hr : Fits r p) (hc : Fits c p)
    (hbridge : strSpec c "bridge" = .ok bridge) :
    "virtio,bridge=" ++ bridge ++ vlanTag r.specSnapshot = net0 p := by
  unfold strSpec at hbridge
  rw [hc.bridge] at hbridge
  cases hbridge
  unfold vlanTag net0
  rw [hr.vlanTag]
  cases p.vlanTag <;> rfl

/-- **The call that configures the network** is coherent. -/
theorem wp_send {node : String} {vmid : Int} {a : IpAddress} {p : IpPool} {θ : ProvState × List IpPool}
    {s : World × List Sent} (h : Working k π ((F.and (.address a.id a)).and (.read p)) θ s)
    (hin : a.poolId = π.1) (hid : p.id = π.1) (hsuits : Suits π p) :
    wp (configMachine rt) contract (ProvProg.call client (.configureQemu node vmid
      ([("net0", net0 p), ("ipconfig0", ipconfig a p)] ++ nameserver p)))
      (fun _ θ s => Working k π F θ s) θ s := by
  cases client with
  | error e => exact h.learn h.fact.1.1
  | ok _ =>
    apply wp_perform
    intro s' ho i θ' s'' r hmay hexec
    have hw := h.mono ho
    have hnetworks : configured (.call (.configureQemu node vmid
        ([("net0", net0 p), ("ipconfig0", ipconfig a p)] ++ nameserver p))) =
        some ([("net0", net0 p), ("ipconfig0", ipconfig a p)] ++ nameserver p) := by
      unfold configured
      exact if_pos rfl
    have hstanding : Standing θ.1.requestId s'.1.db := by
      apply hmay.2
      unfold networks
      rw [hnetworks]
      rfl
    obtain ⟨hguar, hw', -⟩ := exec_working hw hmay.1 rfl (fun e he => by cases he; trivial)
      (fun _ hp => by cases hp) (fun fields hf => by
        rw [hnetworks] at hf
        obtain ⟨⟨-, a', ha', hplace⟩, hread⟩ := hw.fact
        obtain ⟨q, hq, hq'⟩ := hw.fitting hmay.1 hstanding
        obtain ⟨c, -, hplan⟩ := hw.row
        have hsegment : segment q = segment p := (hsuits c hplan).segment_eq (hq' c hplan)
        have hnet : net0 q = net0 p := by
          obtain ⟨hbridge, htag⟩ := Prod.mk.inj hsegment
          unfold net0
          rw [hbridge, htag]
        have hip : ipconfig a' p = ipconfig a p := by
          have haddress : a'.address = a.address := congrArg Prod.snd hplace
          unfold ipconfig
          rw [haddress]
        refine ⟨p, hread, a', Table.get?_mem ha', q, by rw [hid]; exact hq, hsegment, ?_, ?_⟩
        · exact (congrArg Prod.fst hplace).trans (hin.trans hid.symm)
        · rw [hnet, hip]
          exact (Option.some.inj hf).symm) hexec
    exact ⟨hguar, hw'.learn hw'.fact.1.1⟩

/-- **`CONFIGURE_NETWORK`** sends coherent configurations. -/
theorem wp_configureNetwork {θ : ProvState × List IpPool} {s : World × List Sent} (h : Working k π F θ s) :
    wp (configMachine rt) contract (configureNetwork client) (fun _ θ s => Working k π F θ s) θ s := by
  refine wp_address_bind h (fun a θ s hw hin => ?_) fun e θ s hw => hw
  refine wp_request_bind hw (fun r θ s hw hr _ => ?_) fun e θ s hw => hw.learn hw.fact.1
  have hpool : r.ipPoolId = π.1 := congrArg Prod.fst hr
  rw [hpool]
  refine wp_pool_bind hw fun p θ s hw hid hsuits => ?_
  apply wp_bind
  apply wp_ofExcept.mpr
  show wp (configMachine rt) contract (ProvisioningRunner.str "bridge" >>= _) _ θ s
  unfold str
  rw [bind_assoc]
  refine wp_request_bind hw (fun c θ s hw hc _ => ?_) fun e θ s hw => hw.learn hw.fact.1.1
  apply wp_bind
  apply wp_ofExcept.mpr
  cases hbridge : strSpec c "bridge" with
  | error e => exact hw.learn hw.fact.1.1
  | ok bridge =>
    dsimp only
    refine wp_free_bind (free_of only_node) hw (fun node θ s hw => ?_) fun e θ s hw => hw.learn hw.fact.1.1
    refine wp_free_bind (free_of only_vmid) hw (fun vmid θ s hw => ?_) fun e θ s hw => hw.learn hw.fact.1.1
    rw [net0_of_fits (hsuits r hr) (hsuits c hc) hbridge]
    apply wp_bind
    refine wp_mono (fun r θ s hr => ?_) (wp_send hw hin hid hsuits)
    cases r <;> exact hr

/-! ### Whole runs -/

/-- A step of a run. -/
theorem wp_executeStep (actor : User) (principal : Principal) (stepId : Uuid) (name : StepName)
    {θ : ProvState × List IpPool} {s : World × List Sent} (h : Working k π F θ s) :
    wp (configMachine rt) contract (executeStep rt actor principal client stepId name)
      (fun _ θ s => Working k π F θ s) θ s := by
  by_cases hreserve : name = .reserveIp
  · rw [hreserve]
    exact wp_reserveIp principal h
  · by_cases hconfigure : name = .configureNetwork
    · rw [hconfigure]
      exact wp_configureNetwork h
    · exact wp_free (free_inStep (only_executeStep actor principal stepId name) hreserve hconfigure) h

theorem free_class {ρ : Type} {o : ProvOp ρ}
    (h : o.opClass = .plain ∨ o.opClass = .renewing ∨ o.opClass = .revoking) : Free o := by
  unfold Free
  rcases h with h | h | h <;> rw [h] <;> exact ⟨nofun, nofun, nofun⟩

theorem free_op {ρ : Type} {o : ProvOp ρ} (h : o.opClass = .plain ∨ o.opClass = .renewing ∨ o.opClass = .revoking) :
    (Prog.op o : ProvProg ρ).Only Free := only_op (free_class h)

/-- What follows a step. -/
theorem wp_endStep {principal : Principal} {stepId : Uuid} {next : ProvProg Bool} {result : Except Exn Dict}
    {θ : ProvState × List IpPool} {s : World × List Sent} (h : Working k π F θ s)
    (hnext : ∀ θ s, Working k π F θ s → wp (configMachine rt) contract next (fun _ θ s => Working k π F θ s) θ s) :
    wp (configMachine rt) contract (endStep principal stepId next result) (fun _ θ s => Working k π F θ s) θ s := by
  cases result with
  | ok result =>
    refine wp_free_bind (p := ProvProg.now) (free_op (Or.inl rfl)) h (fun finished θ s hw => ?_) fun e θ s hw => hw
    refine wp_free_bind (p := ProvProg.now) (free_op (Or.inl rfl)) hw (fun touched θ s hw => ?_) fun e θ s hw => hw
    exact wp_free_bind (p := commit (.stepSucceeded stepId result finished touched))
      (only_perform (free_class (Or.inr (Or.inl rfl)))) hw (fun _ θ s hw => hnext θ s hw) fun e θ s hw => hw
  | error e =>
    unfold endStep
    dsimp only
    split
    · next error _ =>
      exact wp_free_bind (free_of (only_failRequest _ _ error)) h (fun _ θ s hw => hw) fun e θ s hw => hw
    · split
      · exact wp_free_bind (free_of (only_failRequest _ _ internalError)) h (fun _ θ s hw => hw) fun e θ s hw => hw
      · exact h

/-- **The loop over the steps.** -/
theorem wp_runSteps (actor : User) (principal : Principal) (steps : List ProvisioningStep)
    {θ : ProvState × List IpPool} {s : World × List Sent} (h : Working k π F θ s) :
    wp (configMachine rt) contract (runSteps rt actor principal client steps)
      (fun _ θ s => Working k π F θ s) θ s := by
  induction steps generalizing θ s with
  | nil => exact h
  | cons step rest ih =>
    refine wp_free_bind (p := ProvProg.rows) (only_perform (free_class (Or.inl rfl))) h (fun session θ s hw => ?_)
      fun e θ s hw => hw
    split
    · exact ih hw
    · refine wp_free_bind (p := ProvProg.now) (free_op (Or.inl rfl)) hw (fun touched θ s hw => ?_) fun e θ s hw => hw
      refine wp_free_bind (p := ProvProg.now) (free_op (Or.inl rfl)) hw (fun started θ s hw => ?_) fun e θ s hw => hw
      refine wp_free_bind (p := commit (.stepStarted step.id step.stepName touched started))
        (only_perform (free_class (Or.inr (Or.inl rfl)))) hw (fun _ θ s hw => ?_) fun e θ s hw => hw
      apply wp_bind
      apply wp_attempt
      refine wp_mono (fun r θ s hr => ?_) (wp_executeStep actor principal step.id step.stepName hw)
      exact wp_endStep hr fun θ s hw => ih hw

theorem wp_runAuthorized (actor : User) (clusterId : Uuid) {θ : ProvState × List IpPool} {s : World × List Sent}
    (h : Working k π F θ s) : wp (configMachine rt) contract (runAuthorized rt actor clusterId)
      (fun _ θ s => Working k π F θ s) θ s := by
  refine wp_free_bind (free_of (only_openClient clusterId)) h (fun client θ s hw => ?_) fun e θ s hw => hw
  refine wp_free_bind (free_op (Or.inl rfl)) hw (fun steps θ s hw => ?_) fun e θ s hw => hw
  apply wp_bind
  refine wp_mono (fun r θ s hr => ?_) (wp_runSteps actor _ steps hw)
  cases r with
  | error e => exact hr
  | ok ended =>
    cases ended with
    | false => exact hr
    | true =>
      refine wp_free_bind (free_of only_request) hr (fun r θ s hw => ?_) fun e θ s hw => hw
      refine wp_free_bind (p := ProvProg.now) (free_op (Or.inl rfl)) hw (fun finished θ s hw => ?_) fun e θ s hw => hw
      exact wp_free (only_perform (free_class (Or.inl rfl))) hw

end Working

/-- A run that may not have its request: it raises where it reads it. -/
theorem wp_request {k : Uuid} {Q : Except Exn ProvisioningRequest → ProvState × List IpPool → World × List Sent → Prop}
    {θ : ProvState × List IpPool} {s : World × List Sent} (h : Knowing k θ s)
    (hQ : ∀ x θ s, Knowing k θ s → (∀ r, x = .ok r → θ.1.current.request = some r) → Q x θ s) :
    wp (configMachine rt) contract ProvProg.request Q θ s := by
  apply wp_bind
  apply wp_perform
  intro s' ho i θ' s'' x hmay hexec
  obtain ⟨hguar, hk, -, hrun⟩ := exec_knowing (o := .rows) (h.mono ho) hmay.1 (fun e he => by cases he; trivial)
    (fun _ hp => by cases hp) (fun _ hf => by cases hf) hexec
  refine ⟨hguar, ?_⟩
  have hout : (θ.1, s'.1, if θ.1.expired then .error .sessionState else .ok θ.1.current) = (θ'.1, s''.1, x) :=
    Option.some.inj hrun
  obtain ⟨hθ, hrest⟩ := Prod.mk.inj hout
  obtain ⟨-, hx⟩ := Prod.mk.inj hrest
  cases x with
  | error e => exact hQ _ θ' s'' hk fun r hr => by cases hr
  | ok rows =>
    apply wp_ofExcept.mpr
    refine hQ _ θ' s'' hk fun r hr => ?_
    have hrows : rows = θ.1.current := by
      split at hx
      · cases hx
      · exact (Except.ok.inj hx).symm
    rw [← hθ, ← hrows]
    exact orRaise_ok.mp hr

theorem wp_runClaimed {k : Uuid} {θ : ProvState × List IpPool} {s : World × List Sent} (h : Knowing k θ s) :
    wp (configMachine rt) contract (runClaimed rt) (fun _ θ s => Knowing k θ s) θ s := by
  apply wp_bind
  apply wp_request h
  intro x θ s hk hx
  cases x with
  | error e => exact hk
  | ok r =>
    have hw : Working k (plan r) .nothing θ s := ⟨hk, ⟨r, hx r rfl, rfl⟩, trivial⟩
    refine wp_free_bind (p := Prog.op (.getUser r.requestedById)) (free_op (Or.inl rfl)) hw (fun user θ s hw => ?_)
      fun e θ s hw => hw.toKnowing
    cases authorized user with
    | none =>
      refine wp_free_bind (p := Prog.op (.assign .revoked)) (free_op (Or.inr (Or.inr rfl))) hw (fun _ θ s hw => ?_)
        fun e θ s hw => hw.toKnowing
      exact wp_mono (fun r θ s hr => hr.toKnowing) (wp_free (free_of (only_failRequest none none _)) hw)
    | some actor => exact wp_mono (fun r θ s hr => hr.toKnowing) (wp_runAuthorized actor _ hw)

theorem wp_releaseClaim {k : Uuid} {θ : ProvState × List IpPool} {s : World × List Sent} (h : Knowing k θ s) :
    wp (configMachine rt) contract ProvisioningRunner.releaseClaim (fun _ _ _ => True) θ s := by
  apply wp_bind
  apply wp_request h
  intro x θ s hk _
  cases x with
  | error e => trivial
  | ok r =>
    apply wp_op
    intro s' ho i θ' s'' r' hmay hexec
    exact ⟨(exec_knowing (o := .releaseClaim) (hk.mono ho) hmay.1 (fun e he => by cases he; trivial)
      (fun _ hp => by cases hp) (fun _ hf => by cases hf) hexec).1, trivial⟩

/-- **A run of the runner** keeps to the contract. -/
theorem wp_run {k : Uuid} {θ : ProvState × List IpPool} {s : World × List Sent} (h : Knowing k θ s) :
    wp (configMachine rt) contract (run rt) (fun _ _ _ => True) θ s := by
  apply wp_bind
  apply wp_op
  intro s₁ ho₁ i₁ θ₁ s₁' time hmay₁ hexec₁
  obtain ⟨hguar₁, hk₁, -⟩ := exec_knowing (o := .now) (h.mono ho₁) hmay₁.1 (fun e he => by cases he; trivial)
    (fun _ hp => by cases hp) (fun _ hf => by cases hf) hexec₁
  refine ⟨hguar₁, ?_⟩
  apply wp_bind
  apply wp_perform
  intro s₂ ho₂ i₂ θ₂ s₂' claimed hmay₂ hexec₂
  obtain ⟨hguar₂, hk₂, -⟩ := exec_knowing (o := .claim time) (hk₁.mono ho₂) hmay₂.1
    (fun e he => by cases he; trivial) (fun _ hp => by cases hp) (fun _ hf => by cases hf) hexec₂
  refine ⟨hguar₂, ?_⟩
  cases claimed with
  | error e => trivial
  | ok claimed =>
    cases claimed with
    | false => trivial
    | true =>
      apply wp_bind
      apply wp_op
      intro s₃ ho₃ i₃ θ₃ s₃' _ hmay₃ hexec₃
      obtain ⟨hguar₃, hk₃, -⟩ := exec_knowing (o := .load) (hk₂.mono ho₃) hmay₃.1
        (fun e he => by cases he; trivial) (fun _ hp => by cases hp) (fun _ hf => by cases hf) hexec₃
      refine ⟨hguar₃, ?_⟩
      apply wp_always
      refine wp_mono (fun r θ s hr => wp_mono (fun l θ s _ => ?_) (wp_releaseClaim hr)) (wp_runClaimed hk₃)
      cases l <;> trivial

theorem knowing_start (m : ProvMessage) (s : World × List Sent) :
    Knowing m.requestId ((configMachine rt).start m).1 s := ⟨rfl, .nothing rfl rfl⟩

end Runs

/-! ### Creations -/

theorem Mapped.same {db db' : Db} (h : Mapped db) (hrequests : db'.requests = db.requests)
    (hipam : db'.ipam = db.ipam) : Mapped db' ∧ Onward db db' := by
  have hfollows : Follows 0 none db.ipam db'.ipam := hipam ▸ .refl _ _ _
  have hcarries : Carries db db'.requests := hrequests ▸ .refl h
  exact h.next hcarries hfollows fun _ hp => by cases hp

/-- **The insert of a request** whose specification names the segment of its pool. -/
theorem Mapped.create {db db' : Db} {r : ProvisioningRequest} {steps : List ProvisioningStep} {audit : AuditLog}
    (h : Mapped db) (hstored : db.createRequest r steps audit = .ok db') (hnew : r.ipAddressId = none)
    (hfitting : Fitting db r) : Mapped db' ∧ Onward db db' := by
  obtain ⟨hrequests, -, hrest⟩ := Acceptances.createRequest_ok hstored
  have hinsert := (insertUnless_some hrequests).2
  have hipam : db'.ipam = db.ipam := by rw [hrest]
  have hkeeps : Table.Keeps plan db.requests db'.requests := Table.keeps_insert hinsert
  refine ⟨⟨fun q hq => ?_, fun q hq hopen => ?_, fun l hl k hk => ?_⟩, hkeeps, by rw [hipam]; exact .refl _ _,
    by rw [hipam]; exact .refl _ _⟩
  · rcases (Table.mem_insert hinsert).mp hq with hq | rfl
    · exact (h.placed q hq).mono (by rw [hipam]; exact .refl _ _) rfl rfl
    · intro id hid
      rw [hnew] at hid
      cases hid
  · rcases (Table.mem_insert hinsert).mp hq with hq | rfl
    · exact (h.fitting q hq hopen).mono (by rw [hipam]; exact .refl _ _) rfl
    · exact hfitting.mono (by rw [hipam]; exact .refl _ _) rfl
  · rw [hipam] at hl
    obtain ⟨q, hq, hin⟩ := h.allocated l hl k hk
    obtain ⟨q', hq', hplan⟩ := hkeeps k q hq
    have hpool : q'.ipPoolId = q.ipPoolId := congrArg Prod.fst hplan
    refine ⟨q', hq', ?_⟩
    rw [hpool]
    exact hin.mono (by rw [hipam]; exact .refl _ _)

/-- A request that is created has the segment of its pool, as both are stored when it is inserted.
-/
def Admits {ρ : Type} (o : ServiceOp ρ) (db : Db) : Prop :=
  match o.created with
  | some (r, _, _) => Fitting db r
  | none => True

instance {ρ : Type} (o : ServiceOp ρ) (db : Db) : Decidable (Admits o db) := by
  unfold Admits
  split <;> infer_instance

theorem service_mapped {m : ServiceMessage} {i : Input} {now : Instant} {ρ : Type} {o : ServiceOp ρ} {db db' : Db}
    (he : ServiceEffect i now o db db') (horderly : Acceptances.Orderly m o) (hadmits : Admits o db)
    (hG : Mapped db) : Mapped db' ∧ Onward db db' := by
  cases he with
  | nothing => exact ⟨hG, .refl db⟩
  | accepted ha stored =>
    have hrest := (accept_ok stored).rest
    exact hG.same (by rw [hrest]) (by rw [hrest])
  | created hc stored =>
    refine hG.create stored (horderly.created _ _ _ hc).1.ipAddressId ?_
    unfold Admits at hadmits
    rw [hc] at hadmits
    exact hadmits
  | transacted ht stored =>
    have hrest := Acceptances.ownership_rest (horderly.transacted _ ht) stored
    exact hG.same (by rw [hrest]) (by rw [hrest])

/-! ### The rest of the program -/

/-- What the rest of the program does to the tables: it leaves the requests and what an
address is, allocates nothing for a request, and keeps the segment of the pool of every request
that has not ended. -/
structure Elsewhere (db db' : Db) : Prop where
  requests : db'.requests = db.requests
  addresses : Table.Keeps place db.ipam.addresses db'.ipam.addresses
  pools : Table.Keeps IpPool.id db.ipam.pools db'.ipam.pools
  segments : ∀ r ∈ db.requests, r.status.terminal = false → ∀ p p', db.ipam.pools.get? r.ipPoolId = some p →
    db'.ipam.pools.get? r.ipPoolId = some p' → segment p' = segment p
  allocations : ∀ l' ∈ db'.ipam.allocations, ∀ k, l'.provisioningRequestId = some k →
    ∃ l ∈ db.ipam.allocations, l.provisioningRequestId = some k ∧ l.ipAddressId = l'.ipAddressId

theorem Elsewhere.mapped {db db' : Db} (h : Elsewhere db db') (hG : Mapped db) : Mapped db' ∧ Onward db db' := by
  have ho : Onward db db' := ⟨by rw [h.requests]; exact .refl _ _, h.addresses, h.pools⟩
  refine ⟨⟨fun r hr => ?_, fun r hr hopen => ?_, fun l' hl' k hk => ?_⟩, ho⟩
  · rw [h.requests] at hr
    exact (hG.placed r hr).mono h.addresses rfl rfl
  · rw [h.requests] at hr
    obtain ⟨p, hp, hfits⟩ := hG.fitting r hr hopen
    obtain ⟨p', hp', -⟩ := h.pools r.ipPoolId p hp
    exact ⟨p', hp', hfits.same rfl (h.segments r hr hopen p p' hp hp')⟩
  · obtain ⟨l, hl, hown, haddress⟩ := h.allocations l' hl' k hk
    obtain ⟨r, hr, hin⟩ := hG.allocated l hl k hown
    rw [haddress] at hin
    exact ⟨r, by rw [h.requests]; exact hr, hin.mono h.addresses⟩

/-! ### The calls on pools and addresses -/

section Calls
open IpamService
variable {svc : IpamService} {db : Db} {draws : Draws}

/-- A call writes its own tables only. -/
theorem requests_of {α : Type} {x : Except Exn (Outcome α)} (h : ∀ o, x = .ok o → o.db.requests = db.requests) :
    (Outcome.of db x).db.requests = db.requests :=
  Outcome.of_cases (P := fun d => d.requests = db.requests) rfl h

theorem Follows.elsewhere {db db' : Db} (h : Follows 0 none db.ipam db'.ipam) (hrequests : db'.requests = db.requests) :
    Elsewhere db db' := by
  refine ⟨hrequests, h.addresses, fun j p hp => ?_, fun r _ _ p p' hp hp' => ?_, fun l' hl' j hj => ?_⟩
  · obtain ⟨p', hp', -⟩ := h.pools j p hp
    exact ⟨p', hp', (Table.get?_key hp').trans (Table.get?_key hp).symm⟩
  · obtain ⟨q, hq, hsegment⟩ := h.pools _ p hp
    rw [hp'] at hq
    cases hq
    exact hsegment
  · rcases h.allocations l' hl' j hj with hold | ⟨-, poolId, hasked, -⟩
    · exact hold
    · cases hasked

/-- An update leaves the pool on its segment: it sets neither another bridge nor another tag. -/
def Stays (p : IpPool) (payload : IpPoolUpdate) : Prop :=
  (payload.bridge.map strip).getD p.bridge = p.bridge ∧ payload.vlanTag.getD p.vlanTag = p.vlanTag

/-- Rewriting a pool that keeps its segment, if a request that has not ended is on it. -/
theorem elsewhere_update {db db' : Db} {id : Uuid} {f : IpPool → IpPool} (hrequests : db'.requests = db.requests)
    (hipam : db'.ipam = { db.ipam with pools := db.ipam.pools.update id f }) (hf : ∀ p, (f p).id = p.id)
    (h : ∀ r ∈ db.requests, r.ipPoolId = id → r.status.terminal = false →
      ∀ p ∈ db.ipam.pools.get? id, segment (f p) = segment p) : Elsewhere db db' := by
  have hpools : db'.ipam.pools = db.ipam.pools.update id f := by rw [hipam]
  refine ⟨hrequests, by rw [hipam]; exact .refl _ _, ?_, fun r hr hopen p p' hp hp' => ?_, fun l hl j hj => ?_⟩
  · rw [hpools]
    exact (Table.alike_update id hf).keeps
  · rw [hpools] at hp'
    by_cases hpool : r.ipPoolId = id
    · rw [hpool] at hp hp'
      have hupdated : (db.ipam.pools.update id f).get? id = some (f p) :=
        Table.get?_update_same hp (hf p)
      rw [hupdated] at hp'
      cases hp'
      exact h r hr hpool hopen p hp
    · rw [Table.get?_update_of_ne _ hpool, hp] at hp'
      cases hp'
      rfl
  · rw [hipam] at hl
    exact ⟨l, hl, hj, rfl⟩

/-- **`update_pool`** that leaves the pool of a request that has not ended on its segment. -/
theorem updatePool_elsewhere (poolId : Uuid) (payload : IpPoolUpdate)
    (h : ∀ r ∈ db.requests, r.ipPoolId = poolId → r.status.terminal = false →
      ∀ p ∈ db.ipam.pools.get? poolId, Stays p payload) :
    Elsewhere db (svc.updatePool db poolId payload).db := by
  refine Outcome.of_cases (P := Elsewhere db) (Follows.elsewhere (.refl _ _ _) rfl) fun out hok => ?_
  simp only [bind_ok, raiseIf_ok, pure_ok] at hok
  obtain ⟨pool, hlock, -, -, network, -, -, -, -, -, -, -, -, -, -, -, -, -, -, -, rfl⟩ := hok
  obtain rfl := lockedPool_id hlock
  exact elsewhere_update rfl rfl (fun _ => rfl) fun r hr hpool hopen p hp =>
    Prod.ext (h r hr hpool hopen p hp).1 (h r hr hpool hopen p hp).2

/-- The calls the administrators make; the other three are made by the runner for its request. -/
def administrative : Ipam.IpamCall → Bool
  | .reserveForProvisioning .. | .confirmProvisioningIp .. | .quarantineProvisioningIp .. => false
  | _ => true

/-- **A call on pools and addresses** is such a change, unless it moves the pool of a request
that has not ended. -/
theorem perform_elsewhere {c : Ipam.IpamCall} (hc : administrative c = true)
    (h : ∀ poolId payload, c = .updatePool poolId payload → ∀ r ∈ db.requests, r.ipPoolId = poolId →
      r.status.terminal = false → ∀ p ∈ db.ipam.pools.get? poolId, Stays p payload) :
    Elsewhere db (Ipam.perform svc draws db c) := by
  cases c with
  | createPool payload =>
    refine (createPool_follows svc payload).elsewhere (requests_of fun out h => ?_)
    simp only [bind_ok, pure_ok] at h
    obtain ⟨_, -, _, -, _, -, _, -, _, -, _, -, _, -, rfl⟩ := h
    rfl
  | updatePool poolId payload => exact updatePool_elsewhere poolId payload (h poolId payload rfl)
  | deletePool poolId version =>
    refine (deletePool_follows svc version).elsewhere (requests_of fun out h => ?_)
    simp only [bind_ok, pure_ok] at h
    obtain ⟨_, -, _, -, _, -, rfl⟩ := h
    rfl
  | reserveAddress poolId address reason =>
    refine (reserveAddress_follows svc address reason).elsewhere (requests_of fun out h => ?_)
    simp only [bind_ok] at h
    obtain ⟨_, -, _, -, h⟩ := h
    split at h
    · simp only [bind_ok, pure_ok] at h
      obtain ⟨_, -, rfl⟩ := h
      rfl
    · simp only [bind_ok, pure_ok] at h
      obtain ⟨_, -, rfl⟩ := h
      rfl
  | allocate poolId workloadId address =>
    refine (allocate_follows svc workloadId address).elsewhere (requests_of fun out h => ?_)
    simp only [bind_ok, pure_ok, Prod.exists] at h
    obtain ⟨_, -, _, -, _, -, _, _, -, _, -, _, -, rfl⟩ := h
    rfl
  | release allocationId reason =>
    refine (release_follows svc allocationId reason).elsewhere (requests_of fun out h => ?_)
    simp only [bind_ok] at h
    obtain ⟨_, -, _, -, _, -, h⟩ := h
    split at h <;> cases h <;> rfl
  | approveRelease addressId =>
    refine (approveRelease_follows svc addressId).elsewhere (requests_of fun out h => ?_)
    simp only [bind_ok, pure_ok] at h
    obtain ⟨_, -, _, -, _, -, _, -, _, -, rfl⟩ := h
    rfl
  | _ => cases hc

end Calls

/-! ### The system -/

section System
variable (rt : Runtime) (api : Api)

/-- The runs of requests beside the calls of the API. -/
def networkMachine : Machine Exn (SumOp ProvOp ServiceOp) ((ProvState × List IpPool) ⊕ ServiceProcess)
    (World × List Sent) Input (ProvMessage ⊕ ServiceMessage) :=
  (configMachine rt).beside ((serviceMachine rt api).recording fun _ _ _ _ sent => sent)

/-- What a run is assumed to keep to. A request is created on a template with the segment of
its pool; outside, the pool of a request that has not ended stays on its segment; and a run that
outlives its request configures no network unless the pool is still there. -/
def networking : Conditions Exn (SumOp ProvOp ServiceOp) ((ProvState × List IpPool) ⊕ ServiceProcess)
    (World × List Sent) Input (ProvMessage ⊕ ServiceMessage) where
  step θ p _ s :=
    match θ, p with
    | .inl θ, .node (.left o) _ => networks o = true → Standing θ.1.requestId s.1.db
    | .inr _, .node (.right o) _ => Admits o s.1.db
    | _, _ => True
  env s s' := Elsewhere s.1.db s'.1.db ∧ s'.2 = s.2

theorem config_protocol : Protocol (configMachine rt)
    { step := fun θ p _ s => ∀ (ρ : Type) (o : ProvOp ρ) k, p = .node o k → networks o = true →
        Standing θ.1.requestId s.1.db
      env := fun s s' => Elsewhere s.1.db s'.1.db ∧ s'.2 = s.2 } Sound
    (fun θ p s => wp (configMachine rt) contract p (fun _ _ _ => True) θ s) contract.rely :=
  .of_wp_during contract_closed (fun _ _ h => h.1) (fun _ _ h _ => h.2) (fun _ _ _ _ _ _ => trivial)
    (fun m s _ _ => wp_run (knowing_start m s)) (fun o k _ θ s hG hc => ⟨hG, hc _ o k rfl⟩)
    (fun s s' hG h => by
      obtain ⟨hmapped, ho⟩ := h.1.mapped hG.mapped
      exact ⟨⟨hmapped, by rw [h.2]; exact hG.coherent⟩, ho⟩)
    (fun _ s hG => ⟨⟨hG.mapped, hG.coherent⟩, .refl s.1.db⟩)

theorem service_protocol : Protocol ((serviceMachine rt api).recording fun _ _ _ _ (sent : List Sent) => sent)
    { step := fun _ p _ s => ∀ (ρ : Type) (o : ServiceOp ρ) k, p = .node o k → Admits o s.1.db
      env := fun s s' => Elsewhere s.1.db s'.1.db ∧ s'.2 = s.2 } Sound
    (fun θ p _ => p.Only (Acceptances.Orderly θ.message)) contract.rely where
  refl s := .refl s.1.db
  start m _ _ _ := Acceptances.orderly_service rt api m
  step o k i θ θ' s s' r hI hL hc hexec := by
    obtain ⟨hrun, hnoted⟩ := Machine.recording_exec hexec
    have heffect := service_effect o i θ.state s.1
    obtain ⟨hθ, hrest⟩ := Prod.mk.inj (Option.some.inj hrun)
    have hworld : (o.exec i θ.state s.1).2.1 = s'.1 := (Prod.mk.inj hrest).1
    rw [hworld] at heffect
    obtain ⟨hmapped, ho⟩ := service_mapped heffect hL.1 (hc _ o k rfl) hI.mapped
    refine ⟨⟨hmapped, by rw [hnoted]; exact hI.coherent⟩, ho, ?_⟩
    rw [← hθ]
    exact hL.2 _
  drop _ _ s hI _ _ := ⟨hI, .refl s.1.db⟩
  env s s' hI h := by
    obtain ⟨hmapped, ho⟩ := h.1.mapped hI.mapped
    exact ⟨⟨hmapped, by rw [h.2]; exact hI.coherent⟩, ho⟩
  stable _ _ _ _ _ hL := hL

instance (m : ProvMessage ⊕ ServiceMessage) (s : World × List Sent) : Decidable (networking.spawn m s) :=
  .isTrue trivial

instance (θ : (ProvState × List IpPool) ⊕ ServiceProcess) (p : Prog Exn (SumOp ProvOp ServiceOp) Unit) (i : Input)
    (s : World × List Sent) : Decidable (networking.step θ p i s) :=
  match θ, p with
  | .inl θ, .node (.left o) _ => inferInstanceAs (Decidable (networks o = true → Standing θ.1.requestId s.1.db))
  | .inr _, .node (.right o) _ => inferInstanceAs (Decidable (Admits o s.1.db))
  | .inl _, .node (.right _) _ | .inr _, .node (.left _) _ | .inl _, .done _ | .inr _, .done _ => .isTrue trivial

instance (θ : (ProvState × List IpPool) ⊕ ServiceProcess) (p : Prog Exn (SumOp ProvOp ServiceOp) Unit)
    (s : World × List Sent) : Decidable (networking.crash θ p s) := .isTrue trivial

/-- The state after some actions. -/
def networkReached (w : World) (actions : List (Action (World × List Sent) Input (ProvMessage ⊕ ServiceMessage))) :
    Sys Exn (SumOp ProvOp ServiceOp) ((ProvState × List IpPool) ⊕ ServiceProcess) (World × List Sent) :=
  runFrom (Sys.next (networkMachine rt api)) (Sys.idle (w, [])) actions

/-- **Every network configuration** that is sent puts the VM on the segment of its address, with
the prefix length, the gateway and the name servers of one pool as the run has read it. -/
theorem network_coherent (w : World) (hrequests : w.db.requests = .empty)
    (hallocations : ∀ l ∈ w.db.ipam.allocations, l.provisioningRequestId = none)
    (actions : List (Action (World × List Sent) Input (ProvMessage ⊕ ServiceMessage)))
    (hrun : Along (Sys.next (networkMachine rt api)) networking.Met (Sys.idle (w, [])) actions) :
    ∀ sent ∈ (networkReached rt api w actions).shared.2, Coherent sent := by
  have hI : Sound (w, []) := by
    refine ⟨⟨fun r hr => ?_, fun r hr => ?_, fun l hl k hk => ?_⟩, fun e he => by cases he⟩
    · rw [hrequests] at hr
      cases hr
    · rw [hrequests] at hr
      cases hr
    · rw [hallocations l hl] at hk
      cases hk
  have hP := (config_protocol rt).beside (service_protocol rt api)
  refine (hP.holds_run (Sys.holds_idle hI) (hrun.mono fun s a ha => ?_)).shared.coherent
  refine Conditions.met_mono (fun m s _ => ?_) (fun θ p i s hc => ?_) (fun θ p s _ => ?_) (fun s s' h => Or.inl h) ha
  · cases m <;> trivial
  · cases θ with
    | inl θ =>
      intro p₁ hp ρ o k hnode
      rw [hp, hnode] at hc
      exact hc
    | inr θ =>
      intro p₂ hp ρ o k hnode
      rw [hp, hnode] at hc
      exact hc
  · cases θ <;> exact fun _ _ => trivial

end System

/-! ### A request on another segment -/

/-- A process takes some actions while Proxmox lists the given guests. -/
def acts (pid count : Nat) (guests : List Int) : List (Action (World × List Sent) Input (ProvMessage ⊕ ServiceMessage)) :=
  List.replicate count (.step pid (provisioningInput guests))

/-- A request is created, and worked off until its network is configured. -/
def provisioned : List (Action (World × List Sent) Input (ProvMessage ⊕ ServiceMessage)) :=
  .spawn 0 (.inr (.job ⟨administrator, "192.0.2.1", "key", .provision Secrets.sampleOrder⟩)) :: (acts 0 15 [] ++
    .spawn 1 (.inl ⟨1000, 7⟩) :: (acts 1 75 [] ++ acts 1 60 [100]))

/-- On the segment of its pool. -/
theorem sample_coherent :
    (networkReached asciiRuntime plainApi Secrets.orderedWorld provisioned).shared.2.map Sent.fields =
        [[("net0", "virtio,bridge=vmbr0"), ("ipconfig0", "ip=192.0.2.1/24")]] ∧
      ∀ sent ∈ (networkReached asciiRuntime plainApi Secrets.orderedWorld provisioned).shared.2, Coherent sent :=
  ⟨by decide +kernel, network_coherent asciiRuntime plainApi Secrets.orderedWorld rfl (by decide +kernel) provisioned
    (Conditions.along_inside (by decide +kernel))⟩

/-- The sample pool on a segment of its own. -/
def otherPool : IpPool := { samplePool with bridge := "vmbr1", vlanTag := some 100 }

def otherWorld : World :=
  { Secrets.orderedWorld with
    db := { Secrets.orderedWorld.db with
      ipam := { Secrets.orderedWorld.db.ipam with pools := .single otherPool } } }

/-- **A VM on another segment**: its bridge is the template's, its address the pool's. -/
theorem other_segment :
    (networkReached asciiRuntime plainApi otherWorld provisioned).shared.2.map
        (fun s => (s.read.map segment, s.fields)) =
        [([("vmbr1", some 100)], [("net0", "virtio,bridge=vmbr0"), ("ipconfig0", "ip=192.0.2.1/24")])] ∧
      ¬ ∀ sent ∈ (networkReached asciiRuntime plainApi otherWorld provisioned).shared.2, Coherent sent := by
  have hrun : (networkReached asciiRuntime plainApi otherWorld provisioned).shared.2.map
      (fun s => (s.read.map segment, s.fields)) =
      [([("vmbr1", some 100)], [("net0", "virtio,bridge=vmbr0"), ("ipconfig0", "ip=192.0.2.1/24")])] := by
    decide +kernel
  refine ⟨hrun, fun h => ?_⟩
  obtain ⟨sent, hsent, hpair⟩ := List.mem_map.mp (hrun ▸ List.mem_cons_self)
  obtain ⟨hread, hfields⟩ := Prod.mk.inj hpair
  obtain ⟨p, hp, a, -, q, -, hsegment, -, hnetwork⟩ := h sent hsent
  have hpool : segment p = ("vmbr1", some 100) := by
    have hmem := List.mem_map_of_mem (f := segment) hp
    rw [hread] at hmem
    exact List.mem_singleton.mp hmem
  rw [hfields] at hnetwork
  have hnet : "virtio,bridge=vmbr0" = net0 q := congrArg (fun l => (l.map Prod.snd).headD "") hnetwork
  have hother : net0 q = "virtio,bridge=vmbr1,tag=100" := by
    obtain ⟨hbridge, htag⟩ := Prod.mk.inj (hsegment.trans hpool)
    unfold net0
    rw [hbridge, htag]
    decide
  rw [hother] at hnet
  exact absurd hnet (by decide)

end PveMaster.Networking
