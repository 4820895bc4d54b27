import PveMaster.Provisioning.Nodes
import PveMaster.Platform.Agreement
import PveMaster.Provisioning.Shape

/-! The accounts of the nodes.

What is available of a node and what is reserved of it since its capacity was last set add
up to what it was set to, as long as a run takes and gives back on its request as it is
stored, an administrator's values reach the row, and what is given back was taken since they
were last set. -/
namespace PveMaster.Capacity
open ProvisioningRunner Prog

/-! ### What the accounts say -/

/-- The columns of a request that a reservation is kept in: its amounts and whether they are
reserved, and the node. -/
abbrev columns (r : ProvisioningRequest) : Dict × Option Uuid := (r.specSnapshot, r.targetNodeId)

/-- The amounts of a request are those of a product. -/
structure Sized (r : ProvisioningRequest) : Prop where
  memory : ∀ m, intSpec r "memory_bytes" = .ok m → 0 ≤ m
  disk : ∀ d, intSpec r "disk_bytes" = .ok d → 0 ≤ d

/-- A reservation is the stored request's: the amounts that would be given back are those that
were taken. -/
structure Backed (db : Db) (nodeId : Uuid) (e : Reservation) (r : ProvisioningRequest) : Prop where
  stored : db.requests.get? e.requestId = some r
  reserved : r.capacityReserved = true
  target : r.targetNodeId = some nodeId
  memory : intSpec r "memory_bytes" = .ok e.memory
  disk : intSpec r "disk_bytes" = .ok e.disk

/-- What is available of a node, and what is not, make up what it was set to. -/
structure Balanced (n : ProvisioningNode) (a : Account) : Prop where
  memory : n.availableMemoryBytes + (a.reserved.map Reservation.memory).sum = a.memory
  disk : n.availableStorageBytes + (a.reserved.map Reservation.disk).sum = a.disk
  memory_nonneg : 0 ≤ n.availableMemoryBytes
  disk_nonneg : 0 ≤ n.availableStorageBytes

/-- The accounts balance, and every reservation in them is backed by one stored request. -/
structure Settled (s : World × Accounts) : Prop where
  nodes : ∀ n ∈ s.1.db.nodes, ∃ a, s.2 n.id = some a ∧ Balanced n a
  backed : ∀ id a, s.2 id = some a → ∀ e ∈ a.reserved, ∃ r, Backed s.1.db id e r
  once : ∀ id a, s.2 id = some a → (a.reserved.map Reservation.requestId).Nodup
  sized : ∀ r ∈ s.1.db.requests, Sized r

theorem intSpec_congr {r q : ProvisioningRequest} (h : r.specSnapshot = q.specSnapshot) (key : String) :
    intSpec r key = intSpec q key := by
  unfold intSpec
  rw [h]

theorem reserved_congr {r q : ProvisioningRequest} (h : r.specSnapshot = q.specSnapshot) :
    r.capacityReserved = q.capacityReserved := by
  unfold ProvisioningRequest.capacityReserved
  rw [h]

theorem Sized.congr {r q : ProvisioningRequest} (h : Sized q) (hspec : r.specSnapshot = q.specSnapshot) :
    Sized r := by
  refine ⟨fun m hm => h.memory m ?_, fun d hd => h.disk d ?_⟩
  · rw [← intSpec_congr hspec]
    exact hm
  · rw [← intSpec_congr hspec]
    exact hd

/-- The same reservation, of a row with the same columns. -/
theorem Backed.congr {db db' : Db} {id : Uuid} {e : Reservation} {r r' : ProvisioningRequest}
    (h : Backed db id e r) (hr' : db'.requests.get? e.requestId = some r') (hcolumns : columns r' = columns r) :
    Backed db' id e r' := by
  obtain ⟨hspec, htarget⟩ := Prod.mk.inj hcolumns
  refine ⟨hr', ?_, htarget.trans h.target, ?_, ?_⟩
  · rw [reserved_congr hspec]
    exact h.reserved
  · rw [intSpec_congr hspec]
    exact h.memory
  · rw [intSpec_congr hspec]
    exact h.disk

/-- What the rest of the program does: it leaves the nodes and what requests have reserved,
and may create requests. -/
structure Besides (s s' : World × Accounts) : Prop where
  accounts : s'.2 = s.2
  nodes : s'.1.db.nodes = s.1.db.nodes
  kept : Table.Keeps columns s.1.db.requests s'.1.db.requests
  sized : ∀ r ∈ s'.1.db.requests, s.1.db.requests.get? r.id = none → Sized r

theorem Settled.besides {s s' : World × Accounts} (h : Settled s) (hb : Besides s s') : Settled s' := by
  refine ⟨fun n hn => ?_, fun id a ha e he => ?_, fun id a ha => ?_, fun r hr => ?_⟩
  · rw [hb.nodes] at hn
    rw [hb.accounts]
    exact h.nodes n hn
  · rw [hb.accounts] at ha
    obtain ⟨r, hbacked⟩ := h.backed id a ha e he
    obtain ⟨r', hr', hcolumns⟩ := hb.kept _ r hbacked.stored
    exact ⟨r', hbacked.congr hr' hcolumns⟩
  · rw [hb.accounts] at ha
    exact h.once id a ha
  · cases hq : s.1.db.requests.get? r.id with
    | none => exact hb.sized r hr hq
    | some q =>
      obtain ⟨r', hr', hcolumns⟩ := hb.kept _ q hq
      cases (Table.get?_of_mem hr : s'.1.db.requests.get? r.id = some r).symm.trans hr'
      exact (h.sized q (Table.get?_mem hq)).congr (Prod.mk.inj hcolumns).1

/-- Rows that keep their columns. -/
theorem besides_alike {w w' : World} {a : Accounts} (hnodes : w'.db.nodes = w.db.nodes)
    (halike : Table.Alike columns w.db.requests w'.db.requests) : Besides (w, a) (w', a) := by
  refine ⟨rfl, hnodes, halike.keeps, fun r hr hnone => ?_⟩
  obtain ⟨q, hq, -⟩ := halike.found (Table.get?_of_mem hr)
  cases hnone.symm.trans hq

/-! ### The session -/

/-- A session whose request has the columns it was loaded with, so that what it takes or gives
back is what is stored. -/
inductive Paired (θ : ProvState) : Prop
  | nothing (loaded : θ.loaded.request = none) (current : θ.current.request = none)
  | row {l c : ProvisioningRequest} (loaded : θ.loaded.request = some l) (current : θ.current.request = some c)
      (own : l.id = θ.requestId) (id : c.id = l.id) (same : θ.expired = true ∨ columns c = columns l)

/-- The assignments that reserve capacity or give it back. -/
def ProvEdit.counting : ProvEdit → Bool
  | .nodeReserved _ | .capacityReleased => true
  | _ => false

theorem onRequest_columns (settings : Settings) {e : ProvEdit} (h : ProvEdit.counting e = false)
    (r : ProvisioningRequest) : columns (e.onRequest settings r) = columns r := by
  have hclear (now : Instant) (r : ProvisioningRequest) : columns (clearInitialPassword now r) = columns r := by
    unfold clearInitialPassword
    split <;> rfl
  cases e with
  | nodeReserved => cases h
  | capacityReleased => cases h
  | passwordCleared now => exact hclear now r
  | settled review error finished cleared => exact hclear cleared _
  | _ => rfl

theorem Paired.assign {θ : ProvState} (h : Paired θ) (settings : Settings) {e : ProvEdit}
    (he : ProvEdit.counting e = false) : Paired (θ.assign settings e) := by
  cases h with
  | nothing loaded current =>
    refine .nothing loaded ?_
    show θ.current.request.map _ = none
    rw [current]
    rfl
  | @row l c loaded current own id same =>
    refine .row (c := e.onRequest settings c) loaded ?_ own ((onRequest_id settings e c).trans id) ?_
    · show θ.current.request.map _ = _
      rw [current]
      rfl
    · rw [onRequest_columns settings he c]
      exact same

/-- After a rollback nothing is written any more. -/
theorem Paired.expired {θ : ProvState} (h : Paired θ) (settings : Settings) (e : ProvEdit) :
    Paired (θ.assign settings e).expire := by
  cases h with
  | nothing loaded current =>
    refine .nothing loaded ?_
    show θ.current.request.map _ = none
    rw [current]
    rfl
  | @row l c loaded current own id same =>
    refine .row (c := e.onRequest settings c) loaded ?_ own ((onRequest_id settings e c).trans id) (Or.inl rfl)
    show θ.current.request.map _ = _
    rw [current]
    rfl

theorem Paired.saved {θ : ProvState} (h : Paired θ) (settings : Settings) (e : ProvEdit) :
    Paired (θ.assign settings e).saved := by
  cases h with
  | nothing loaded current =>
    have hnone : (θ.assign settings e).current.request = none := by
      show θ.current.request.map _ = none
      rw [current]
      rfl
    exact .nothing hnone hnone
  | @row l c loaded current own id same =>
    have hsome : (θ.assign settings e).current.request = some (e.onRequest settings c) := by
      show θ.current.request.map _ = _
      rw [current]
      rfl
    exact .row hsome hsome (((onRequest_id settings e c).trans id).trans own) rfl (Or.inr rfl)

theorem Paired.load (θ : ProvState) (db : Db) : Paired (loadRequest θ db) := by
  cases hr : db.requests.get? θ.requestId with
  | none => exact .nothing hr hr
  | some r => exact .row hr hr (Table.get?_key hr) rfl (Or.inr rfl)

/-- A flush of such a session leaves the columns. -/
theorem Paired.flush {θ : ProvState} (h : Paired θ) (hlive : θ.expired = false) (db : Db) :
    Table.Alike columns db.requests (θ.flush db).requests := by
  show Table.Alike columns db.requests (θ.flushRequests db.requests)
  unfold ProvState.flushRequests
  cases h with
  | nothing loaded current =>
    rw [loaded]
    exact .refl _ _
  | @row l c loaded current own id same =>
    rw [loaded, current]
    have hsame : columns c = columns l := by
      refine same.resolve_left ?_
      rw [hlive]
      exact Bool.false_ne_true
    obtain ⟨hspec, htarget⟩ := Prod.mk.inj hsame
    refine Table.alike_update _ fun r => ?_
    show (written l.specSnapshot c.specSnapshot r.specSnapshot, written l.targetNodeId c.targetNodeId r.targetNodeId) = _
    rw [hspec, htarget]
    unfold written
    rw [if_pos rfl, if_pos rfl]

/-- Of a session that has lost its rows nothing is written any more. -/
theorem Paired.dead {θ : ProvState} (h : Paired θ) (hdead : θ.expired = true) (settings : Settings) (e : ProvEdit) :
    Paired (θ.assign settings e) := by
  have hexpire : (θ.assign settings e).expire = θ.assign settings e := by
    unfold ProvState.expire ProvState.assign
    rw [hdead]
  rw [← hexpire]
  exact h.expired settings e

/-! ### Operations that count nothing -/

/-- An operation other than a reservation, with no such assignment of its own. -/
def Licit {ρ : Type} (o : ProvOp ρ) : Prop :=
  o.opClass ≠ .own .selectTarget ∧ match o with
    | .assign e | .commit e _ => ProvEdit.counting e = false
    | _ => True

/-- One that neither reserves nor gives back. -/
def Idle {ρ : Type} (o : ProvOp ρ) : Prop :=
  Licit o ∧ match o with
    | .releaseNodeCapacity => False
    | _ => True

theorem licit_of {ρ : Type} {o : ProvOp ρ} (hclass : o.opClass ≠ .own .selectTarget) (hcalm : Calm o) :
    Licit o := by
  have hedit {e : ProvEdit} (h : e.calm = true) : ProvEdit.counting e = false := by
    cases e <;> first | rfl | cases h
  refine ⟨hclass, ?_⟩
  cases o with
  | assign e => exact hedit hcalm
  | commit e audit => exact hedit hcalm
  | _ => trivial

theorem idle_edits {ρ : Type} {o : ProvOp ρ} (h : Idle o) {e : ProvEdit} (he : o.edits e) :
    ProvEdit.counting e = false := by
  cases o with
  | assign e' =>
    cases he
    exact h.1.2
  | commit e' audit =>
    cases he
    exact h.1.2
  | selectTarget memory disk => exact absurd rfl h.1.1
  | releaseNodeCapacity => exact h.2.elim
  | assignOrganization actor => rcases he with rfl | ⟨id, rfl⟩ <;> rfl
  | recordPartialWorkload => rcases he with rfl | ⟨id, rfl⟩ <;> rfl
  | _ =>
    cases he
    rfl

section Nodes
variable {settings : Settings} {θ : ProvState} {w : World}

theorem commit_nodes (θ : ProvState) (i : Input) {w : World} {db : Db} (h : db.nodes = w.db.nodes) :
    (θ.commit i w db).2.1.db.nodes = w.db.nodes := by
  rcases Agreement.commit_db θ i w db with hc | hc
  · rw [hc]
  · rw [hc]
    exact h

theorem OnlyIpam.nodes {db db' : Db} (h : OnlyIpam db db') : db'.nodes = db.nodes := by
  rw [h.rest]

theorem reserveIp_nodes (svc : IpamService) (poolId : Uuid) (requested : Option Address) (i : Input) :
    (PveMaster.reserveIp svc poolId requested i θ w).2.1.db.nodes = w.db.nodes := by
  unfold PveMaster.reserveIp
  dsimp only
  split
  · rw [Agreement.raising_db]
  · split
    · rfl
    · have hcommit := commit_nodes θ i (w := w)
        (OnlyIpam.nodes (reserveForProvisioning_only svc
        w.db poolId θ.requestId requested (i.draws w)))
      split
      · next h =>
        rw [h] at hcommit
        exact hcommit
      · next h =>
        rw [h] at hcommit
        exact hcommit

theorem confirmIp_nodes (workloadId : Uuid) (i : Input) :
    (PveMaster.confirmIp workloadId i θ w).2.1.db.nodes = w.db.nodes := by
  unfold PveMaster.confirmIp
  dsimp only
  split
  · rw [Agreement.raising_db]
  · split
    · rfl
    · exact commit_nodes θ i (OnlyIpam.nodes
        (confirmProvisioningIp_only w.db θ.requestId workloadId (i.draws w)))

theorem quarantineIp_nodes (i : Input) : (quarantineIp i θ w).2.1.db.nodes = w.db.nodes := by
  unfold quarantineIp
  dsimp only
  split
  · rw [Agreement.raising_db]
  · split
    · rfl
    · exact commit_nodes θ i (OnlyIpam.nodes
        (quarantineProvisioningIp_only w.db θ.requestId (i.draws w)))

theorem assignOrganization_nodes (actor : User) (i : Input) :
    (PveMaster.assignOrganization settings actor i θ w).2.1.db.nodes = w.db.nodes := by
  unfold PveMaster.assignOrganization
  split
  · rfl
  · next r hr =>
    split
    · rw [Agreement.raising_db]
    · next db id hassigned =>
      rw [Agreement.committing_db]
      apply commit_nodes
      unfold assignedWorkload at hassigned
      simp only [bind_ok, pure_ok, Prod.exists, Prod.mk.injEq] at hassigned
      obtain ⟨_, _, -, _, -, rfl, -⟩ := hassigned
      rfl

theorem recordPartialWorkload_nodes (i : Input) :
    (recordPartialWorkload settings i θ w).2.1.db.nodes = w.db.nodes := by
  unfold recordPartialWorkload
  split
  · rfl
  · split
    · rfl
    · exact commit_nodes θ i rfl
    · next db id hpartial =>
      apply commit_nodes
      unfold partialWorkload at hpartial
      split at hpartial
      · split at hpartial
        · cases hpartial
        · obtain ⟨_, -, hmark⟩ := bind_ok.mp hpartial
          rw [(markPartial_owners (pure_ok.mp hmark)).2]
      · cases hpartial

/-- **Only a reservation and a release write nodes.** -/
theorem idle_nodes {ρ : Type} {o : ProvOp ρ} (ho : Idle o) {i : Input} {θ' : ProvState} {w' : World} {r : ρ}
    (h : o.exec settings i θ w = some (θ', w', r)) : w'.db.nodes = w.db.nodes := by
  have of {out : ProvState × World × ρ} (hout : some out = some (θ', w', r))
      (hnodes : out.2.1.db.nodes = w.db.nodes) : w'.db.nodes = w.db.nodes := by
    cases hout
    exact hnodes
  cases o with
  | claim time =>
    refine of h ?_
    unfold claim
    repeat' split
    all_goals rfl
  | lock key =>
    obtain ⟨w₁, hlock, hout⟩ := Option.map_eq_some_iff.mp h
    rw [lock?_some hlock] at hout
    cases hout
    rfl
  | commit e audit => exact of h (commit_nodes _ i rfl)
  | selectTarget memory disk => exact absurd rfl ho.1.1
  | releaseNodeCapacity => exact ho.2.elim
  | reserveIp svc poolId requested => exact of h (reserveIp_nodes svc poolId requested i)
  | confirmIp workloadId => exact of h (confirmIp_nodes workloadId i)
  | quarantineIp => exact of h (quarantineIp_nodes i)
  | assignOrganization actor => exact of h (assignOrganization_nodes actor i)
  | recordPartialWorkload => exact of h (recordPartialWorkload_nodes i)
  | releaseClaim =>
    refine of h ?_
    unfold releaseClaim
    split <;> rfl
  | _ => exact of h rfl

end Nodes

/-- Such an operation leaves what is counted. -/
theorem idle_besides {settings : Settings} {ρ : Type} {o : ProvOp ρ} (ho : Idle o) {i : Input}
    {θ θ' : ProvState} {w w' : World} {r : ρ} (a : Accounts) (hθ : Paired θ)
    (h : o.exec settings i θ w = some (θ', w', r)) : Besides (w, a) (w', a) ∧ Paired θ' := by
  have hnodes := idle_nodes ho h
  have heffect := (prov_step h).effect
  have rows (halike : Table.Alike columns w.db.requests w'.db.requests) (hθ' : Paired θ') :
      Besides (w, a) (w', a) ∧ Paired θ' := ⟨besides_alike hnodes halike, hθ'⟩
  generalize hdb : w'.db = db' at heffect
  have alike {t : Table ProvisioningRequest} (ht : db'.requests = t)
      (halike : Table.Alike columns w.db.requests t) : Table.Alike columns w.db.requests w'.db.requests := by
    rw [hdb, ht]
    exact halike
  cases heffect with
  | assigned edits => exact rows (alike rfl (.refl _ _)) (hθ.assign settings (idle_edits ho edits))
  | failed edits => exact rows (alike rfl (.refl _ _)) (hθ.expired settings _)
  | committed edits commits live writes =>
    refine rows (alike rfl ?_) (hθ.saved settings _)
    have hflush := (hθ.assign settings (idle_edits ho edits)).flush live
    rw [← writes.requests]
    exact hflush _
  | claimed claims found claimable =>
    refine rows (alike rfl (Table.alike_update _ fun _ => rfl)) ?_
    cases hθ with
    | nothing loaded current => exact .nothing loaded current
    | row loaded current own id same => exact .row loaded current own id same
  | loaded loads => exact rows (alike rfl (.refl _ _)) (.load θ w.db)
  | stepsLoaded idle =>
    refine rows (alike rfl (.refl _ _)) ?_
    cases hθ with
    | nothing loaded current => exact .nothing loaded current
    | row loaded current own id same => exact .row loaded current own id same
  | released idle =>
    refine rows (alike rfl (Table.alike_update _ fun r => ?_)) ?_
    · unfold released
      split <;> rfl
    · cases hθ with
      | nothing loaded current => exact .nothing loaded current
      | row loaded current own id same => exact .row loaded current own id (Or.inl rfl)

/-! ### What a run is assumed to keep to -/

/-- What the accounts count of a node. -/
abbrev amounts (n : ProvisioningNode) : Int × Int := (n.availableMemoryBytes, n.availableStorageBytes)

/-- The request is stored as the session has loaded it, in the columns of a reservation. -/
def Current (θ : ProvState) (db : Db) : Prop :=
  match θ.loaded.request with
  | some l => (db.requests.get? l.id).map columns = some (columns l)
  | none => True

/-- The node is stored as the session has it, so that a write of the difference is a write of the
new value. -/
def Fresh (θ : CapState) (db : Db) (id : Uuid) : Prop :=
  match db.nodes.get? id with
  | some n => amounts (θ.nodeObject n) = amounts n
  | none => True

/-- A request has a reservation on a node since its capacity was last set. -/
def holds (a : Accounts) (id requestId : Uuid) : Bool :=
  (a id).any fun account => account.reserved.any fun e => e.requestId == requestId

/-- A reservation and a release are made on the rows as they are stored, and what is given
back was taken since the capacity was last set. -/
def ProvOp.fair {ρ : Type} (o : ProvOp ρ) (θ : CapState) (s : World × Accounts) : Prop :=
  match o with
  | .selectTarget .. => Current θ.prov s.1.db
  | .releaseNodeCapacity =>
    match θ.releases with
    | some id => Current θ.prov s.1.db ∧ Fresh θ s.1.db id ∧ holds s.2 id θ.prov.requestId = true
    | none => True
  | _ => True

/-- A value that equals what was loaded is not written; the row has it already. -/
def Takes (loaded : ProvisioningNode) (p : NodeUpsert) (stored : ProvisioningNode) : Prop :=
  (loaded.availableMemoryBytes = p.availableMemoryBytes →
    stored.availableMemoryBytes = p.availableMemoryBytes) ∧
  (loaded.availableStorageBytes = p.availableStorageBytes →
    stored.availableStorageBytes = p.availableStorageBytes)

/-- The capacity an administrator sets is what the row gets: no column is left out because it
equals what was loaded. -/
def NodeOp.fair {ρ : Type} (o : NodeOp ρ) (s : World × Accounts) : Prop :=
  match o with
  | .upsert (some loaded) payload =>
    match s.1.db.nodes.get? loaded.id with
    | some stored => Takes loaded payload stored
    | none => True
  | _ => True

instance (θ : ProvState) (db : Db) : Decidable (Current θ db) :=
  match h : θ.loaded.request with
  | some l => decidable_of_iff ((db.requests.get? l.id).map columns = some (columns l)) (by simp only [Current, h])
  | none => .isTrue (by simp only [Current, h])

instance (θ : CapState) (db : Db) (id : Uuid) : Decidable (Fresh θ db id) :=
  match h : db.nodes.get? id with
  | some n => decidable_of_iff (amounts (θ.nodeObject n) = amounts n) (by simp only [Fresh, h])
  | none => .isTrue (by simp only [Fresh, h])

instance (loaded : ProvisioningNode) (p : NodeUpsert) (stored : ProvisioningNode) :
    Decidable (Takes loaded p stored) := inferInstanceAs (Decidable (_ ∧ _))

instance {ρ : Type} (o : ProvOp ρ) (θ : CapState) (s : World × Accounts) : Decidable (ProvOp.fair o θ s) := by
  induction o using ProvOp.casesOn with
  | selectTarget memory disk => exact inferInstanceAs (Decidable (Current θ.prov s.1.db))
  | releaseNodeCapacity =>
    exact match h : θ.releases with
      | some id => decidable_of_iff (Current θ.prov s.1.db ∧ Fresh θ s.1.db id ∧
          holds s.2 id θ.prov.requestId = true) (by simp only [ProvOp.fair, h])
      | none => .isTrue (by simp only [ProvOp.fair, h])
  | _ => exact .isTrue trivial

instance {ρ : Type} (o : NodeOp ρ) (s : World × Accounts) : Decidable (NodeOp.fair o s) :=
  match o with
  | .getCluster _ | .findNode _ _ | .upsert none _ => .isTrue trivial
  | .upsert (some loaded) payload =>
    match h : s.1.db.nodes.get? loaded.id with
    | some stored => decidable_of_iff (Takes loaded payload stored) (by simp only [NodeOp.fair, h])
    | none => .isTrue (by simp only [NodeOp.fair, h])

/-! ### Sums of reservations -/

/-- What is left of an account after a release, and what was released. -/
theorem sum_release (f : Reservation → Int) {l : List Reservation} (hl : (l.map Reservation.requestId).Nodup)
    {e : Reservation} (he : e ∈ l) :
    ((l.filter (·.requestId ≠ e.requestId)).map f).sum + f e = (l.map f).sum := by
  induction l with
  | nil => cases he
  | cons head rest ih =>
    obtain ⟨hnew, hrest⟩ := List.nodup_cons.mp hl
    by_cases hhead : head.requestId = e.requestId
    · have hself : head = e := by
        rcases List.mem_cons.mp he with heq | hmem
        · exact heq.symm
        · refine absurd ?_ hnew
          rw [hhead]
          exact List.mem_map_of_mem hmem
      have hothers : rest.filter (·.requestId ≠ e.requestId) = rest := by
        apply List.filter_eq_self.mpr
        intro x hx
        have hne : x.requestId ≠ e.requestId := by
          intro heq
          rw [hhead, ← heq] at hnew
          exact hnew (List.mem_map_of_mem hx)
        exact decide_eq_true hne
      rw [List.filter_cons_of_neg (by simp [hhead]), hothers, ← hself, List.map_cons, List.sum_cons]
      omega
    · have hmem : e ∈ rest := by
        rcases List.mem_cons.mp he with heq | hmem
        · exact absurd (congrArg Reservation.requestId heq.symm) hhead
        · exact hmem
      rw [List.filter_cons_of_pos (by simp [hhead]), List.map_cons, List.map_cons, List.sum_cons, List.sum_cons]
      have := ih hrest hmem
      omega

theorem Balanced.reserve {n : ProvisioningNode} {account : Account} (h : Balanced n account) (e : Reservation)
    (hm : e.memory ≤ n.availableMemoryBytes) (hd : e.disk ≤ n.availableStorageBytes) (now : Instant) :
    Balanced (n.reserve e.memory e.disk now) { account with reserved := e :: account.reserved } := by
  obtain ⟨hmemory, hdisk, hm₀, hd₀⟩ := h
  refine ⟨?_, ?_, ?_, ?_⟩
  · simp only [ProvisioningNode.reserve, List.map_cons, List.sum_cons]
    omega
  · simp only [ProvisioningNode.reserve, List.map_cons, List.sum_cons]
    omega
  · simp only [ProvisioningNode.reserve]
    omega
  · simp only [ProvisioningNode.reserve]
    omega

theorem written_stored {α : Type} [DecidableEq α] (loaded current : α) : written loaded current loaded = current := by
  unfold written
  split
  · next h => exact h.symm
  · rfl

/-- What is given back by a session that has the amounts as they are stored. -/
theorem giveBack_fresh {held n : ProvisioningNode} (h : amounts held = amounts n) (memory disk : Int) :
    (held.giveBack memory disk n).availableMemoryBytes = n.availableMemoryBytes + memory ∧
      (held.giveBack memory disk n).availableStorageBytes = n.availableStorageBytes + disk := by
  obtain ⟨hm, hd⟩ := Prod.mk.inj h
  refine ⟨?_, ?_⟩
  · show written held.availableMemoryBytes (held.availableMemoryBytes + memory) n.availableMemoryBytes = _
    rw [hm, written_stored]
  · show written held.availableStorageBytes (held.availableStorageBytes + disk) n.availableStorageBytes = _
    rw [hd, written_stored]

theorem Balanced.release {held n : ProvisioningNode} {account : Account} (h : Balanced n account)
    (hfresh : amounts held = amounts n) (hl : (account.reserved.map Reservation.requestId).Nodup) {e : Reservation}
    (he : e ∈ account.reserved) (hm : 0 ≤ e.memory) (hd : 0 ≤ e.disk) :
    Balanced (held.giveBack e.memory e.disk n)
      { account with reserved := account.reserved.filter (·.requestId ≠ e.requestId) } := by
  obtain ⟨hmemory, hdisk, hm₀, hd₀⟩ := h
  obtain ⟨hmem, hdsk⟩ := giveBack_fresh hfresh e.memory e.disk
  have hsumm := sum_release Reservation.memory hl he
  have hsumd := sum_release Reservation.disk hl he
  refine ⟨?_, ?_, ?_, ?_⟩
  · rw [hmem]
    dsimp only
    omega
  · rw [hdsk]
    dsimp only
    omega
  · rw [hmem]
    omega
  · rw [hdsk]
    omega

/-! ### The rows of a reservation -/

/-- The request of a session is written in the columns of a reservation, from `c` to `c'`. -/
structure Counted (θ : ProvState) (c c' : ProvisioningRequest) (db db' : Db) : Prop where
  before : ∃ q, db.requests.get? θ.requestId = some q ∧ columns q = columns c
  after : ∃ q, db'.requests.get? θ.requestId = some q ∧ columns q = columns c'
  others : ∀ k, k ≠ θ.requestId → db'.requests.get? k = db.requests.get? k

/-- A flush of a session that is as stored. -/
theorem flush_counted (settings : Settings) {θ : ProvState} {db : Db} (db' : Db) {c : ProvisioningRequest} (e : ProvEdit)
    (hθ : Paired θ) (hlive : θ.expired = false) (hcurrent : Current θ db) (hc : θ.current.request = some c)
    (hdb : db'.requests = db.requests) :
    Counted θ c (e.onRequest settings c) db ((θ.assign settings e).flush db') := by
  cases hθ with
  | nothing loaded current =>
    rw [current] at hc
    cases hc
  | @row l c₀ loaded current own id same =>
    rw [current] at hc
    cases hc
    have hsame : columns c = columns l := by
      refine same.resolve_left ?_
      rw [hlive]
      exact Bool.false_ne_true
    unfold Current at hcurrent
    rw [loaded] at hcurrent
    obtain ⟨q, hq, hcolumns⟩ := Option.map_eq_some_iff.mp hcurrent
    rw [own] at hq
    have hassigned : (θ.assign settings e).current.request = some (e.onRequest settings c) := by
      show θ.current.request.map _ = _
      rw [current]
      rfl
    have hrow (k : Uuid) : ((θ.assign settings e).flush db').requests.get? k =
        if θ.requestId = k then (db.requests.get? k).map (ProvisioningRequest.merge l (e.onRequest settings c))
        else db.requests.get? k := by
      rw [flush_request]
      have hloaded : (θ.assign settings e).loaded.request = some l := loaded
      rw [hloaded, hassigned, hdb, ← own]
    refine ⟨⟨q, hq, hcolumns.trans hsame.symm⟩, ⟨l.merge (e.onRequest settings c) q, ?_, ?_⟩, fun k hk => ?_⟩
    · rw [hrow, if_pos rfl, hq]
      rfl
    · obtain ⟨hspec, htarget⟩ := Prod.mk.inj hcolumns
      show (written l.specSnapshot _ q.specSnapshot, written l.targetNodeId _ q.targetNodeId) = _
      rw [hspec, htarget, written_stored, written_stored]
    · rw [hrow, if_neg (Ne.symm hk)]

namespace Counted
variable {θ : ProvState} {c c' : ProvisioningRequest} {db db' : Db}

theorem backed (h : Counted θ c c' db db') {id : Uuid} {e : Reservation} {r : ProvisioningRequest}
    (hr : Backed db id e r) (hne : e.requestId ≠ θ.requestId) : Backed db' id e r :=
  ⟨(h.others _ hne).trans hr.stored, hr.reserved, hr.target, hr.memory, hr.disk⟩

theorem sized (h : Counted θ c c' db db') (hspec : ∀ key, key ≠ "node_capacity_reserved" → intSpec c' key = intSpec c key)
    (hsized : ∀ r ∈ db.requests, Sized r) : ∀ r ∈ db'.requests, Sized r := by
  intro r hr
  have hget : db'.requests.get? r.id = some r := Table.get?_of_mem hr
  by_cases hid : r.id = θ.requestId
  · obtain ⟨q, hq, hcolumns⟩ := h.before
    obtain ⟨q', hq', hcolumns'⟩ := h.after
    rw [hid] at hget
    cases hget.symm.trans hq'
    have hint (key : String) (hkey : key ≠ "node_capacity_reserved") : intSpec r key = intSpec q key := by
      rw [intSpec_congr (Prod.mk.inj hcolumns').1, hspec key hkey, intSpec_congr (Prod.mk.inj hcolumns).1]
    have hstored := hsized q (Table.get?_mem hq)
    refine ⟨fun m hm => hstored.memory m ?_, fun d hd => hstored.disk d ?_⟩
    · rw [← hint _ (by decide)]
      exact hm
    · rw [← hint _ (by decide)]
      exact hd
  · rw [h.others _ hid] at hget
    exact hsized r (Table.get?_mem hget)

/-- The request as it was stored. -/
theorem stored (h : Counted θ c c' db db') {id : Uuid} {e : Reservation} {r : ProvisioningRequest}
    (hr : Backed db id e r) (hid : e.requestId = θ.requestId) : columns r = columns c := by
  obtain ⟨q, hq, hcolumns⟩ := h.before
  have := hr.stored
  rw [hid, hq] at this
  cases this
  exact hcolumns

end Counted

/-- The flag of a reservation is none of the amounts. -/
theorem intSpec_flag {r r' : ProvisioningRequest} {v : Json}
    (hspec : r'.specSnapshot = r.specSnapshot.set "node_capacity_reserved" v) {key : String}
    (h : key ≠ "node_capacity_reserved") : intSpec r' key = intSpec r key := by
  unfold intSpec
  rw [hspec, Dict.get?_set_of_ne _ _ h]

/-- Another node is not written, and its account stays. -/
theorem balanced_update {nodes : Table ProvisioningNode} {a a' : Accounts} {node : ProvisioningNode}
    {f : ProvisioningNode → ProvisioningNode} (hnode : nodes.get? node.id = some node) (hf : (f node).id = node.id)
    (h : ∀ n ∈ nodes, ∃ account, a n.id = some account ∧ Balanced n account)
    (others : ∀ k, k ≠ node.id → a' k = a k)
    (own : ∀ account, a node.id = some account → Balanced node account →
      ∃ account', a' node.id = some account' ∧ Balanced (f node) account') :
    ∀ n ∈ nodes.update node.id f, ∃ account, a' n.id = some account ∧ Balanced n account := by
  intro n hn
  rcases (Table.mem_update_of_get hnode hf).mp hn with ⟨hmem, hne⟩ | rfl
  · obtain ⟨account, haccount, hbalanced⟩ := h n hmem
    exact ⟨account, (others _ hne).trans haccount, hbalanced⟩
  · obtain ⟨account, haccount, hbalanced⟩ := h node (Table.get?_mem hnode)
    rw [hf]
    exact own account haccount hbalanced

/-! ### A reservation -/

theorem fits_amounts {memory disk : Int} {n : ProvisioningNode} (h : n.fits memory disk = true) :
    memory ≤ n.availableMemoryBytes ∧ disk ≤ n.availableStorageBytes := by
  simp only [ProvisioningNode.fits, Bool.and_eq_true, decide_eq_true_eq] at h
  exact ⟨h.1.2, h.2⟩

/-- The best of some nodes is one of them. -/
theorem foldl_before_mem {l : List ProvisioningNode} {best : Option ProvisioningNode} {n : ProvisioningNode}
    (h : l.foldl (fun best n => match best with
      | none => some n
      | some b => if b.before n then some b else some n) best = some n) : n ∈ l ∨ best = some n := by
  induction l generalizing best with
  | nil => exact Or.inr h
  | cons head rest ih =>
    rcases ih h with hmem | hbest
    · exact Or.inl (List.mem_cons_of_mem _ hmem)
    · cases best with
      | none =>
        cases hbest
        exact Or.inl List.mem_cons_self
      | some b =>
        dsimp only at hbest
        split at hbest
        · exact Or.inr hbest
        · cases hbest
          exact Or.inl List.mem_cons_self

/-- The node that is locked is stored, and large enough. -/
theorem selectNode_ok {db : Db} {r : ProvisioningRequest} {memory disk : Int} {node : ProvisioningNode}
    (h : selectNode db r memory disk = .ok node) : node ∈ db.nodes ∧ node.fits memory disk = true := by
  unfold selectNode at h
  split at h
  · split at h
    · cases h
    · next hget =>
      split at h
      · next hfits =>
        cases h
        exact ⟨Table.get?_mem hget, hfits⟩
      · cases h
  · dsimp only at h
    split at h
    · cases h
    · next hfold =>
      cases h
      rcases foldl_before_mem hfold with hmem | hnone
      · obtain ⟨hstored, hfits⟩ := Table.mem_select.mp hmem
        rw [Bool.and_eq_true] at hfits
        exact ⟨hstored, hfits.2⟩
      · cases hnone

/-- What a reservation does to the accounts. -/
theorem reserve_settled {w w' : World} {a : Accounts} {θ : ProvState} {c c' : ProvisioningRequest}
    {node : ProvisioningNode} {memory disk : Int} (hs : Settled (w, a)) (hcounted : Counted θ c c' w.db w'.db)
    (hnode : node ∈ w.db.nodes) (hfits : node.fits memory disk = true) (now : Instant)
    (hnodes : w'.db.nodes = w.db.nodes.update node.id (ProvisioningNode.reserve memory disk now))
    (hflag : c.capacityReserved = false) (hm : intSpec c "memory_bytes" = .ok memory)
    (hd : intSpec c "disk_bytes" = .ok disk)
    (hspec : c'.specSnapshot = c.specSnapshot.set "node_capacity_reserved" (.bool true))
    (htarget : c'.targetNodeId = some node.id) :
    Settled (w', a.reserve node.id ⟨θ.requestId, memory, disk⟩) := by
  have hint {key : String} (hkey : key ≠ "node_capacity_reserved") : intSpec c' key = intSpec c key :=
    intSpec_flag hspec hkey
  -- the request has no reservation yet
  have hnone {id : Uuid} {account : Account} (ha : a id = some account) {e : Reservation} (he : e ∈ account.reserved) :
      e.requestId ≠ θ.requestId := by
    intro heq
    obtain ⟨r, hr⟩ := hs.backed id account ha e he
    have hreserved := hr.reserved
    rw [reserved_congr (Prod.mk.inj (hcounted.stored hr heq)).1, hflag] at hreserved
    cases hreserved
  have hself {account : Account} (ha : a node.id = some account) :
      a.reserve node.id ⟨θ.requestId, memory, disk⟩ node.id =
        some { account with reserved := ⟨θ.requestId, memory, disk⟩ :: account.reserved } := by
    unfold Accounts.reserve
    rw [if_pos rfl, ha]
    rfl
  have hother {k : Uuid} (hk : k ≠ node.id) : a.reserve node.id ⟨θ.requestId, memory, disk⟩ k = a k := if_neg hk
  refine ⟨?_, fun id account ha e he => ?_, fun id account ha => ?_, hcounted.sized (fun _ => hint) hs.sized⟩
  · show ∀ n ∈ w'.db.nodes, _
    rw [hnodes]
    obtain ⟨hlem, hled⟩ := fits_amounts hfits
    refine balanced_update (Table.get?_of_mem hnode) rfl hs.nodes (fun _ => hother) fun account ha hb => ?_
    exact ⟨_, hself ha, hb.reserve ⟨θ.requestId, memory, disk⟩ hlem hled now⟩
  · by_cases hid : id = node.id
    · rw [hid] at ha ⊢
      obtain ⟨before, hbefore⟩ : ∃ before, a node.id = some before := by
        obtain ⟨before, hbefore, -⟩ := hs.nodes node hnode
        exact ⟨before, hbefore⟩
      cases (hself hbefore).symm.trans ha
      rcases List.mem_cons.mp he with rfl | he
      · obtain ⟨q, hq, hcolumns⟩ := hcounted.after
        obtain ⟨hqspec, hqtarget⟩ := Prod.mk.inj hcolumns
        refine ⟨q, hq, ?_, hqtarget.trans htarget, ?_, ?_⟩
        · rw [reserved_congr hqspec]
          unfold ProvisioningRequest.capacityReserved
          rw [hspec, Dict.get?_set_self]
          rfl
        · rw [intSpec_congr hqspec, hint (by decide)]
          exact hm
        · rw [intSpec_congr hqspec, hint (by decide)]
          exact hd
      · obtain ⟨r, hr⟩ := hs.backed node.id before hbefore e he
        exact ⟨r, hcounted.backed hr (hnone hbefore he)⟩
    · rw [show (w', a.reserve node.id ⟨θ.requestId, memory, disk⟩).2 id = a id from hother hid] at ha
      obtain ⟨r, hr⟩ := hs.backed id account ha e he
      exact ⟨r, hcounted.backed hr (hnone ha he)⟩
  · by_cases hid : id = node.id
    · rw [hid] at ha
      obtain ⟨before, hbefore, -⟩ := hs.nodes node hnode
      cases (hself hbefore).symm.trans ha
      refine List.nodup_cons.mpr ⟨fun hmem => ?_, hs.once node.id before hbefore⟩
      obtain ⟨e, he, heq⟩ := List.mem_map.mp hmem
      exact hnone hbefore he heq
    · rw [show (w', a.reserve node.id ⟨θ.requestId, memory, disk⟩).2 id = a id from hother hid] at ha
      exact hs.once id account ha

/-- **`_select_target`** keeps the accounts. -/
theorem select_settled (settings : Settings) (i : Input) {w w' : World} {a : Accounts} {θ : CapState}
    {p' : ProvState} {memory disk : Int} {c : ProvisioningRequest} {r : Except Exn ProvisioningNode}
    (hs : Settled (w, a)) (hθ : Paired θ.prov) (hcurrent : Current θ.prov w.db)
    (hc : θ.prov.current.request = some c) (hflag : c.capacityReserved = false)
    (hm : intSpec c "memory_bytes" = .ok memory) (hd : intSpec c "disk_bytes" = .ok disk)
    (h : selectTarget settings memory disk i θ.prov w = (p', w', r)) :
    Settled (w', (ProvOp.selectTarget memory disk).note θ r a) ∧ Paired p' := by
  unfold PveMaster.selectTarget at h
  rw [hc] at h
  dsimp only at h
  cases hselect : selectNode w.db c memory disk with
  | error e =>
    rw [hselect] at h
    cases h
    exact ⟨hs, hθ⟩
  | ok node =>
    rw [hselect] at h
    dsimp only at h
    obtain ⟨hnode, hfits⟩ := selectNode_ok hselect
    rcases commit_cases (θ.prov.assign settings (.nodeReserved node.id)) i w { w.db with
        nodes := w.db.nodes.update node.id (ProvisioningNode.reserve memory disk w.clock) } with
      ⟨hdead, hout⟩ | ⟨e, hout, -⟩ | ⟨hlive, -, -, hout⟩
    · rw [hout] at h
      cases h
      exact ⟨hs, hθ.dead hdead settings _⟩
    · rw [hout] at h
      cases h
      exact ⟨hs.besides (besides_alike rfl (.refl _ _)), hθ.expired settings _⟩
    · rw [hout] at h
      cases h
      have hcounted := flush_counted settings
        { w.db with nodes := w.db.nodes.update node.id (ProvisioningNode.reserve memory disk w.clock) }
        (.nodeReserved node.id) hθ hlive hcurrent hc rfl
      exact ⟨reserve_settled hs hcounted hnode hfits w.clock rfl hflag hm hd rfl rfl, hθ.saved settings _⟩

/-! ### A release -/

/-- What a release does to the accounts. -/
theorem release_settled {w w' : World} {a : Accounts} {θ : ProvState} {c c' : ProvisioningRequest}
    {node held : ProvisioningNode} {memory disk : Int} (hs : Settled (w, a))
    (hcounted : Counted θ c c' w.db w'.db) (hnode : w.db.nodes.get? node.id = some node)
    (hfresh : amounts held = amounts node) (hholds : holds a node.id θ.requestId = true)
    (hnodes : w'.db.nodes = w.db.nodes.update node.id (held.giveBack memory disk))
    (hm : intSpec c "memory_bytes" = .ok memory) (hd : intSpec c "disk_bytes" = .ok disk)
    (hspec : c'.specSnapshot = c.specSnapshot.set "node_capacity_reserved" (.bool false))
    (htarget : c.targetNodeId = some node.id) :
    Settled (w', a.release node.id θ.requestId) := by
  have hint {key : String} (hkey : key ≠ "node_capacity_reserved") : intSpec c' key = intSpec c key :=
    intSpec_flag hspec hkey
  obtain ⟨before, hbefore⟩ : ∃ before, a node.id = some before := by
    obtain ⟨before, hbefore, -⟩ := hs.nodes node (Table.get?_mem hnode)
    exact ⟨before, hbefore⟩
  have hself : a.release node.id θ.requestId node.id =
      some { before with reserved := before.reserved.filter (·.requestId ≠ θ.requestId) } := by
    unfold Accounts.release
    rw [if_pos rfl, hbefore]
    rfl
  have hother {k : Uuid} (hk : k ≠ node.id) : a.release node.id θ.requestId k = a k := if_neg hk
  -- the reservation that is given back
  obtain ⟨e, he, hid⟩ : ∃ e ∈ before.reserved, e.requestId = θ.requestId := by
    unfold holds at hholds
    rw [hbefore, Option.any_some, List.any_eq_true] at hholds
    obtain ⟨e, he, heq⟩ := hholds
    exact ⟨e, he, beq_iff_eq.mp heq⟩
  obtain ⟨r, hr⟩ := hs.backed node.id before hbefore e he
  have hstored := (Prod.mk.inj (hcounted.stored hr hid)).1
  have hmemory : e.memory = memory := by
    have := hr.memory
    rw [intSpec_congr hstored, hm] at this
    exact (Except.ok.inj this).symm
  have hdisk : e.disk = disk := by
    have := hr.disk
    rw [intSpec_congr hstored, hd] at this
    exact (Except.ok.inj this).symm
  have hsized := hs.sized r (Table.get?_mem hr.stored)
  refine ⟨?_, fun id account ha x hx => ?_, fun id account ha => ?_, hcounted.sized (fun _ => hint) hs.sized⟩
  · show ∀ n ∈ w'.db.nodes, _
    rw [hnodes]
    refine balanced_update hnode rfl hs.nodes (fun _ => hother) fun account ha hb => ?_
    cases hbefore.symm.trans ha
    refine ⟨_, hself, ?_⟩
    rw [← hmemory, ← hdisk, ← hid]
    exact hb.release hfresh (hs.once node.id before hbefore) he (hsized.memory _ hr.memory) (hsized.disk _ hr.disk)
  · by_cases hid' : id = node.id
    · rw [hid'] at ha ⊢
      cases hself.symm.trans ha
      obtain ⟨hx, hne⟩ := List.mem_filter.mp hx
      obtain ⟨q, hq⟩ := hs.backed node.id before hbefore x hx
      exact ⟨q, hcounted.backed hq (of_decide_eq_true hne)⟩
    · rw [show (w', a.release node.id θ.requestId).2 id = a id from hother hid'] at ha
      obtain ⟨q, hq⟩ := hs.backed id account ha x hx
      -- a request has its reservation on one node
      have hne : x.requestId ≠ θ.requestId := by
        intro heq
        have := (Prod.mk.inj (hcounted.stored hq heq)).2
        rw [hq.target, htarget] at this
        exact hid' (Option.some.inj this)
      exact ⟨q, hcounted.backed hq hne⟩
  · by_cases hid' : id = node.id
    · rw [hid'] at ha
      cases hself.symm.trans ha
      exact (List.filter_sublist.map _).nodup (hs.once node.id before hbefore)
    · rw [show (w', a.release node.id θ.requestId).2 id = a id from hother hid'] at ha
      exact hs.once id account ha

theorem releasable_ok {db : Db} {r : ProvisioningRequest} {node : ProvisioningNode} {memory disk : Int}
    (h : releasable db r = .ok (node, memory, disk)) :
    r.targetNodeId = some node.id ∧ db.nodes.get? node.id = some node ∧ intSpec r "memory_bytes" = .ok memory ∧
      intSpec r "disk_bytes" = .ok disk := by
  unfold releasable at h
  simp only [bind_ok, pure_ok, orRaise_ok, Prod.mk.injEq] at h
  obtain ⟨id, hid, n, hn, m, hm, d, hd, rfl, rfl, rfl⟩ := h
  have hkey : n.id = id := Table.get?_key hn
  rw [hkey]
  exact ⟨hid, hn, hm, hd⟩

/-- **`_release_node_capacity`** keeps the accounts. -/
theorem releaseHeld_settled (settings : Settings) (i : Input) {w w' : World} {a : Accounts} {θ : CapState}
    {p' : ProvState} {r : Except Exn Unit} (hs : Settled (w, a)) (hθ : Paired θ.prov)
    (hfair : ProvOp.fair .releaseNodeCapacity θ (w, a)) (h : releaseHeld settings i θ w = (p', w', r)) :
    Settled (w', ProvOp.releaseNodeCapacity.note θ r a) ∧ Paired p' := by
  unfold releaseHeld at h
  cases hc : θ.prov.current.request with
  | none =>
    rw [hc] at h
    cases h
    exact ⟨hs, hθ⟩
  | some c =>
    rw [hc] at h
    dsimp only at h
    split at h
    · cases h
      exact ⟨hs, hθ⟩
    · split at h
      · next hflag =>
        cases hrel : releasable w.db c with
        | error e =>
          rw [hrel] at h
          cases h
          exact ⟨hs, hθ⟩
        | ok out =>
          obtain ⟨node, memory, disk⟩ := out
          rw [hrel] at h
          dsimp only at h
          obtain ⟨htarget, hnode, hm, hd⟩ := releasable_ok hrel
          have hreleases : θ.releases = some node.id := by
            unfold CapState.releases
            rw [hc]
            dsimp only
            rw [if_pos hflag, htarget]
          unfold ProvOp.fair at hfair
          dsimp only at hfair
          rw [hreleases] at hfair
          obtain ⟨hcurrent, hfresh, hholds⟩ := hfair
          unfold Fresh at hfresh
          rw [hnode] at hfresh
          rcases commit_cases (θ.prov.assign settings .capacityReleased) i w { w.db with
              nodes := w.db.nodes.update node.id ((θ.nodeObject node).giveBack memory disk) } with
            ⟨hdead, hout⟩ | ⟨e, hout, -⟩ | ⟨hlive, -, -, hout⟩
          · rw [hout] at h
            cases h
            exact ⟨hs, hθ.dead hdead settings _⟩
          · rw [hout] at h
            cases h
            exact ⟨hs.besides (besides_alike rfl (.refl _ _)), hθ.expired settings _⟩
          · rw [hout] at h
            cases h
            have hcounted := flush_counted settings
              { w.db with nodes := w.db.nodes.update node.id ((θ.nodeObject node).giveBack memory disk) }
              .capacityReleased hθ hlive hcurrent hc rfl
            refine ⟨?_, hθ.saved settings _⟩
            unfold ProvOp.note
            dsimp only
            rw [hreleases]
            exact release_settled hs hcounted hnode hfresh hholds rfl hm hd rfl htarget
      · next hflag =>
        cases h
        refine ⟨?_, hθ⟩
        unfold ProvOp.note CapState.releases
        rw [hc]
        dsimp only
        rw [if_neg hflag]
        exact hs

end PveMaster.Capacity
