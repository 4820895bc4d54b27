import PveMaster.Clusters.Confinement
import PveMaster.Clusters.Versions
import PveMaster.Foundation.Parallel

/-! Clusters that are removed, and the credentials that are left.

`delete` disables a cluster and retires the credential it has loaded, beside the calls that create and update
clusters. In every run an active cluster has one active credential, whose secret an administrator has entered
(`clusters_tended`); a cluster that is disabled while its token is changed keeps the new one. -/
namespace PveMaster.Clusters
open ClusterService Prog

/-! ### The removal -/

inductive DisableOp : Type → Type where
  /-- The two queries of `_get_cluster`. -/
  | cluster (id : Uuid) : DisableOp (Option ClusterRow)
  | credentials (cluster : ClusterRow) : DisableOp (List CredentialRow)
  /-- `_removal_blocks`: what other tables have of the cluster. -/
  | removalBlocks (clusterId : Uuid) : DisableOp (Except AppError Unit)
  /-- The commit, of the cluster and the credential as they were loaded. -/
  | disable (cluster : ClusterRow) (credentialId : Uuid) : DisableOp (Except Exn Unit)

def disabled (version : Nat) (c : ClusterRow) : ClusterRow := { c with isActive := false, version := version + 1 }

def DisableOp.exec {ρ : Type} (o : DisableOp ρ) (i : Outside) (s : Hosts) : Hosts × ρ :=
  match o with
  | .cluster id => (s, s.tables.clusters.get? id)
  | .credentials row => (s, s.tables.credentials.select (fun c => row.id == c.clusterId))
  | .removalBlocks _ => (s, i.answer)
  | .disable row credentialId =>
    match i.reject with
    | some e => (s, .error e)
    | none =>
      ({ s with tables :=
        { clusters := s.tables.clusters.update row.id (disabled row.version)
          credentials := s.tables.credentials.update credentialId retired } }, .ok ())

/-- `ClusterService.delete`. -/
def delete (clusterId : Uuid) : Prog Exn DisableOp Unit := do
  match ← op (.cluster clusterId) with
  | none => raise (.app clusterNotFound)
  | some cluster => do
    let credentials ← op (.credentials cluster)
    if cluster.isActive then do
      match ← op (.removalBlocks clusterId) with
      | .error blocked => raise (.app blocked)
      | .ok () => do
        let credential ← ofExcept (activeOf credentials)
        perform (.disable cluster credential.id)
    else return ()

structure Removal where
  principal : Principal
  clusterId : Uuid

def removalMachine : Machine Exn DisableOp Unit Hosts Outside Removal where
  exec o i θ s := some (θ, (o.exec i s).1, (o.exec i s).2)
  start m := ((), do
    ofExcept (requireServiceRole m.principal [.superAdmin, .operator])
    delete m.clusterId)
  drop _ s := s

/-- The calls of the clusters beside the removals. -/
def clusterSystem (cipher : Aead) :
    Machine Exn (SumOp ClusterOp DisableOp) (Unit ⊕ Unit) Hosts Outside (ClusterMessage ⊕ Removal) :=
  (clusterMachine cipher).beside removalMachine

abbrev SystemAction : Type := Action Hosts Outside (ClusterMessage ⊕ Removal)

/-! ### What is kept -/

/-- A message enters a secret. -/
def ClusterMessage.enters (m : ClusterMessage) (secret : String) : Prop :=
  match m.request with
  | .create _ _ request => secret = request.tokenSecret
  | .update _ u => u.tokenSecret = some secret
  | _ => False

structure Tended (cipher : Aead) (entered : String → Prop) (t : Tables) : Prop where
  single : ∀ c ∈ t.credentials, ∀ d ∈ t.credentials, c.isActive = true → d.isActive = true →
    c.clusterId = d.clusterId → c = d
  active : ∀ row ∈ t.clusters, row.isActive = true → ∃ c ∈ t.credentials, c.clusterId = row.id ∧ c.isActive = true
  opens : ∀ c ∈ t.credentials, ∃ secret, cipher.decrypt c.secret c.clusterId c.id = some secret ∧ entered secret

/-- A credential stays with its cluster, and its secret is not rewritten. -/
def Sealed (t t' : Tables) : Prop :=
  Table.Keeps (fun c : CredentialRow => (c.clusterId, c.secret)) t.credentials t'.credentials

theorem Sealed.refl (t : Tables) : Sealed t t := Table.Keeps.refl _ _

theorem Sealed.trans {t t' t'' : Tables} (h : Sealed t t') (h' : Sealed t' t'') : Sealed t t'' := Table.Keeps.trans h h'

/-- The credential is one of the cluster. -/
def Owned (t : Tables) (clusterId credentialId : Uuid) : Prop :=
  ∃ c, t.credentials.get? credentialId = some c ∧ c.clusterId = clusterId

theorem Owned.sealed {t t' : Tables} {clusterId credentialId : Uuid} (h : Owned t clusterId credentialId)
    (hs : Sealed t t') : Owned t' clusterId credentialId := by
  obtain ⟨c, hc, hown⟩ := h
  obtain ⟨c', hc', hsame⟩ := hs _ c hc
  exact ⟨c', hc', (Prod.mk.inj hsame).1.trans hown⟩

section Commits
variable {cipher : Aead} {entered : String → Prop} {t : Tables}

theorem sealed_retired {clusters : Table ClusterRow} (credentialId : Uuid) :
    Sealed t ⟨clusters, t.credentials.update credentialId retired⟩ :=
  (Table.alike_update (g := retired) credentialId fun _ => rfl).keeps

/-- The clusters of an update are active as they were. -/
theorem tended_updated {change : ClusterChange} {clusters : Table ClusterRow} (h : Tended cipher entered t)
    (hc : updateCluster t.clusters change = some clusters) : Tended cipher entered ⟨clusters, t.credentials⟩ where
  single := h.single
  active row hrow hactive := by
    have halike : Table.Alike (fun c : ClusterRow => (c.id, c.isActive)) t.clusters clusters := by
      rw [updateCluster_some hc]
      exact Table.alike_update _ fun _ => rfl
    obtain ⟨stored, hget, hsame⟩ := halike.found (Table.get?_of_mem hrow)
    obtain ⟨hid, hstill⟩ := Prod.mk.inj hsame
    obtain ⟨c, hmem, hown, hc'⟩ := h.active stored (Table.get?_mem hget) (hstill.trans hactive)
    exact ⟨c, hmem, hown.trans hid, hc'⟩
  opens := h.opens

theorem opens_retired {credentialId : Uuid} (h : Tended cipher entered t) {c : CredentialRow}
    (hc : c ∈ t.credentials.update credentialId retired) :
    ∃ secret, cipher.decrypt c.secret c.clusterId c.id = some secret ∧ entered secret := by
  obtain ⟨q, hq, rfl⟩ := Table.mem_update.mp hc
  unfold Table.amend
  split <;> exact h.opens q hq

/-- A credential that is put in the place of one of its cluster. -/
theorem tended_replaced {old : Uuid} {new : CredentialRow} {credentials : Table CredentialRow} {secret : String}
    (h : Tended cipher entered t) (hold : Owned t new.clusterId old) (hactive : new.isActive = true)
    (hopens : cipher.decrypt new.secret new.clusterId new.id = some secret) (hentered : entered secret)
    (hreplace : replaceCredential t.credentials old new = some credentials) :
    Tended cipher entered ⟨t.clusters, credentials⟩ ∧ Sealed t ⟨t.clusters, credentials⟩ := by
  obtain ⟨hinsert, hsole⟩ := replaceCredential_some hactive hreplace
  refine ⟨⟨fun c hc d hd hc' hd' hsame => ?_, fun row hrow hrow' => ?_, fun c hc => ?_⟩, ?_⟩
  · rcases mem_replaced hinsert hc hc' with rfl | ⟨hcold, hcne⟩
    · rcases mem_replaced hinsert hd hd' with rfl | ⟨hdold, hdne⟩
      · rfl
      · exact absurd (hsole d hdold hsame.symm hd') hdne
    · rcases mem_replaced hinsert hd hd' with rfl | ⟨hdold, -⟩
      · exact absurd (hsole c hcold hsame hc') hcne
      · exact h.single c hcold d hdold hc' hd' hsame
  · by_cases hloaded : row.id = new.clusterId
    · exact ⟨new, (Table.mem_insert hinsert).mpr (Or.inr rfl), hloaded.symm, hactive⟩
    · obtain ⟨c, hc, hown, hc'⟩ := h.active row hrow hrow'
      obtain ⟨d, hd, hdown⟩ := hold
      have hne : c.id ≠ old := by
        intro he
        have hsame : c = d := Table.eq_of_key hc (Table.get?_mem hd) (he.trans (Table.get?_key hd).symm)
        rw [hsame, hdown] at hown
        exact hloaded hown.symm
      exact ⟨c, (Table.mem_insert hinsert).mpr (Or.inl (Table.mem_update.mpr ⟨c, hc, Table.amend_of_ne retired hne⟩)),
        hown, hc'⟩
  · rcases (Table.mem_insert hinsert).mp hc with hc | rfl
    · exact opens_retired h hc
    · exact ⟨secret, hopens, hentered⟩
  · exact (Table.alike_update (g := retired) old fun _ => rfl).keeps.trans (Table.keeps_insert hinsert)

/-- A cluster that is created, with its credential. -/
theorem tended_created {cluster : ClusterRow} {credential : CredentialRow} {clusters : Table ClusterRow}
    {credentials : Table CredentialRow} {secret : String} (h : Tended cipher entered t)
    (hown : credential.clusterId = cluster.id) (hactive : credential.isActive = true)
    (hopens : cipher.decrypt credential.secret credential.clusterId credential.id = some secret) (hentered : entered secret)
    (hcluster : insertUnless ClusterRow.clashes t.clusters cluster = some clusters)
    (hcredential : insertUnless CredentialRow.clashes t.credentials credential = some credentials) :
    Tended cipher entered ⟨clusters, credentials⟩ ∧ Sealed t ⟨clusters, credentials⟩ := by
  obtain ⟨-, hrow⟩ := insertUnless_some hcluster
  obtain ⟨hclash, hnew⟩ := insertUnless_some hcredential
  have hapart {c : CredentialRow} (hc : c ∈ t.credentials) (hc' : c.isActive = true) :
      c.clusterId ≠ credential.clusterId := by
    intro he
    have hclash := hclash c hc
    simp [CredentialRow.clashes, hactive, hc', he] at hclash
  refine ⟨⟨fun c hc d hd hc' hd' hsame => ?_, fun row hmem hrow' => ?_, fun c hc => ?_⟩, Table.keeps_insert hnew⟩
  · rcases (Table.mem_insert hnew).mp hc with hc | rfl
    · rcases (Table.mem_insert hnew).mp hd with hd | rfl
      · exact h.single c hc d hd hc' hd' hsame
      · exact absurd hsame (hapart hc hc')
    · rcases (Table.mem_insert hnew).mp hd with hd | rfl
      · exact absurd hsame.symm (hapart hd hd')
      · rfl
  · rcases (Table.mem_insert hrow).mp hmem with hmem | rfl
    · obtain ⟨c, hc, hrest⟩ := h.active row hmem hrow'
      exact ⟨c, (Table.mem_insert hnew).mpr (Or.inl hc), hrest⟩
    · exact ⟨credential, (Table.mem_insert hnew).mpr (Or.inr rfl), hown, hactive⟩
  · rcases (Table.mem_insert hnew).mp hc with hc | rfl
    · exact h.opens c hc
    · exact ⟨secret, hopens, hentered⟩

/-- A cluster that is disabled, with a credential of its own. -/
theorem tended_disabled {clusterId credentialId : Uuid} {version : Nat} (h : Tended cipher entered t)
    (hold : Owned t clusterId credentialId) :
    Tended cipher entered ⟨t.clusters.update clusterId (disabled version), t.credentials.update credentialId retired⟩ := by
  have hstill {c : CredentialRow} (hc : c ∈ t.credentials.update credentialId retired) (hactive : c.isActive = true) :
      c ∈ t.credentials := by
    obtain ⟨q, hq, rfl⟩ := Table.mem_update.mp hc
    by_cases hq' : q.id = credentialId
    · rw [Table.amend_of_key hq' rfl] at hactive
      cases hactive
    · rw [Table.amend_of_ne retired hq']
      exact hq
  refine ⟨fun c hc d hd hc' hd' => h.single c (hstill hc hc') d (hstill hd hd') hc' hd', fun row hrow hrow' => ?_,
    fun c hc => opens_retired h hc⟩
  obtain ⟨q, hq, rfl⟩ := Table.mem_update.mp hrow
  by_cases hq' : q.id = clusterId
  · rw [Table.amend_of_key hq' rfl] at hrow'
    cases hrow'
  · rw [Table.amend_of_ne _ hq'] at hrow' ⊢
    obtain ⟨c, hc, hown, hc'⟩ := h.active q hq hrow'
    obtain ⟨d, hd, hdown⟩ := hold
    have hne : c.id ≠ credentialId := by
      intro he
      have hsame : c = d := Table.eq_of_key hc (Table.get?_mem hd) (he.trans (Table.get?_key hd).symm)
      rw [hsame, hdown] at hown
      exact hq' hown.symm
    exact ⟨c, Table.mem_update.mpr ⟨c, hc, Table.amend_of_ne retired hne⟩, hown, hc'⟩

end Commits

/-! ### Programs -/

section Programs
variable {cipher : Aead} {entered : String → Prop} {Op : Type → Type} {μ α β : Type}

/-- What an operation of either machine finds and leaves. -/
def tending (cipher : Aead) (entered : String → Prop) (Op : Type → Type) : Contract Op Unit Hosts Outside where
  may _ _ _ s := Tended cipher entered s.tables
  rely s s' := Sealed s.tables s'.tables
  guar s s' := Sealed s.tables s'.tables ∧ Tended cipher entered s'.tables

theorem tending_closed : (tending cipher entered Op).Closed where
  refl s := Sealed.refl s.tables
  trans _ _ _ h h' := Sealed.trans h h'

/-- What a program keeps, and what it has found if it succeeds. -/
abbrev Tends (cipher : Aead) (entered : String → Prop) (M : Machine Exn Op Unit Hosts Outside μ) (p : Prog Exn Op α)
    (Q : α → Tables → Prop) (s : Hosts) : Prop :=
  wp M (tending cipher entered Op) p (fun r _ s => ∀ a, r = .ok a → Q a s.tables) () s

variable {M : Machine Exn Op Unit Hosts Outside μ}

theorem tends_pure {a : α} {Q : α → Tables → Prop} {s : Hosts} (h : Q a s.tables) :
    Tends cipher entered M (pure a) Q s := fun _ he => by cases he; exact h

theorem tends_raise {e : Exn} {Q : α → Tables → Prop} {s : Hosts} : Tends cipher entered M (raise e) Q s :=
  fun _ he => by cases he

theorem tends_ofExcept {r : Except Exn α} {Q : α → Tables → Prop} {s : Hosts} (h : ∀ a, r = .ok a → Q a s.tables) :
    Tends cipher entered M (ofExcept r) Q s := h

theorem tends_bind {p : Prog Exn Op α} {f : α → Prog Exn Op β} {Q : β → Tables → Prop} {s : Hosts}
    (h : Tends cipher entered M p (fun a t => ∀ s, s.tables = t → Tends cipher entered M (f a) Q s) s) :
    Tends cipher entered M (p >>= f) Q s := by
  refine wp_bind (wp_mono (fun r _ s hr => ?_) h)
  cases r with
  | ok a => exact hr a rfl s rfl
  | error e => exact fun _ he => by cases he

theorem tends_mono {p : Prog Exn Op α} {Q Q' : α → Tables → Prop} {s : Hosts} (h : ∀ a t, Q a t → Q' a t)
    (hp : Tends cipher entered M p Q s) : Tends cipher entered M p Q' s :=
  wp_mono (fun _ _ _ hr a he => h a _ (hr a he)) hp

/-- An operation that leaves the tables, and what it finds in them. -/
theorem tends_quiet {ρ : Type} {o : Op ρ} {Q : ρ → Tables → Prop} {s : Hosts}
    (h : ∀ s' i θ s'' r, Sealed s.tables s'.tables → Tended cipher entered s'.tables →
      M.exec o i () s' = some (θ, s'', r) → s''.tables = s'.tables ∧ Q r s'.tables) :
    Tends cipher entered M (op o) Q s := by
  refine wp_op fun s' hr i θ' s'' r hmay hexec => ?_
  obtain ⟨hsame, hQ⟩ := h s' i θ' s'' r hr hmay hexec
  show (Sealed s'.tables s''.tables ∧ Tended cipher entered s''.tables) ∧ _
  rw [hsame]
  refine ⟨⟨Sealed.refl _, hmay⟩, fun a ha => ?_⟩
  cases ha
  exact hQ

/-- A program of the clusters that commits nothing. -/
theorem tends_only {p : ClusterProg α} (hp : p.Only ClusterOp.Still) {s : Hosts} :
    Tends cipher entered (clusterMachine cipher) p (fun _ t => Sealed s.tables t) s := by
  refine wp_mono (fun _ _ _ h _ _ => h) (wp_only (J := fun _ (s' : Hosts) => Sealed s.tables s'.tables)
    (fun _ _ _ hr hJ => hJ.trans hr) (fun {ρ} (o : ClusterOp ρ) i θ θ' s' s'' r ho hJ hmay hexec => ?_) hp (Sealed.refl _))
  cases hexec
  show (Sealed s'.tables (o.exec i s').1.tables ∧ Tended cipher entered (o.exec i s').1.tables) ∧
    Sealed s.tables (o.exec i s').1.tables
  rw [still_exec ho]
  exact ⟨⟨Sealed.refl _, hmay⟩, hJ⟩

/-! Loads. -/

/-- A credential as a load of its cluster finds it. -/
structure Holding (cipher : Aead) (entered : String → Prop) (t : Tables) (clusterId : Uuid) (c : CredentialRow) : Prop where
  owned : Owned t clusterId c.id
  opens : ∃ secret, cipher.decrypt c.secret clusterId c.id = some secret ∧ entered secret

theorem Tended.holding {t : Tables} {c : CredentialRow} (h : Tended cipher entered t) (hc : c ∈ t.credentials) :
    Holding cipher entered t c.clusterId c :=
  ⟨⟨c, Table.get?_of_mem hc, rfl⟩, h.opens c hc⟩

theorem Holding.sealed {t t' : Tables} {clusterId : Uuid} {c : CredentialRow} (h : Holding cipher entered t clusterId c)
    (hs : Sealed t t') : Holding cipher entered t' clusterId c := ⟨h.owned.sealed hs, h.opens⟩

theorem tends_loadCluster {clusterId : Uuid} {s : Hosts} :
    Tends cipher entered (clusterMachine cipher) (loadCluster clusterId)
      (fun found t => found.1.id = clusterId ∧ Holding cipher entered t clusterId found.2) s := by
  have hget : Tends cipher entered (clusterMachine cipher) (getCluster clusterId)
      (fun found t => found.1.id = clusterId ∧ ∀ c ∈ found.2, Holding cipher entered t clusterId c) s := by
    refine tends_bind (tends_quiet fun s' i θ s'' r _ _ hexec => ?_)
    cases hexec
    refine ⟨rfl, fun s₁ hs₁ => ?_⟩
    dsimp only [ClusterOp.exec]
    cases hrow : s'.tables.clusters.get? clusterId with
    | none => exact tends_raise
    | some cluster =>
      have hid : cluster.id = clusterId := Table.get?_key hrow
      refine tends_bind (tends_quiet fun s₂ i θ s₃ r _ htended hexec => ?_)
      cases hexec
      refine ⟨rfl, fun s₃ hs₃ => tends_pure ⟨hid, fun c hc => ?_⟩⟩
      obtain ⟨hmem, hany⟩ := Table.mem_select.mp hc
      obtain ⟨q, hq, hown⟩ := List.any_eq_true.mp hany
      rw [List.mem_singleton.mp hq, beq_iff_eq, hid] at hown
      rw [hs₃, hown]
      exact htended.holding hmem
  refine tends_bind (tends_mono (fun found t hfound s₁ hs₁ => ?_) hget)
  refine tends_bind (tends_ofExcept fun credential hactive s₂ hs₂ => tends_pure ?_)
  rw [hs₂, hs₁]
  exact ⟨hfound.1, hfound.2 credential (List.mem_of_find?_eq_some (orRaise_ok.mp hactive))⟩

/-! Commits. -/

theorem tends_commit {w : ClusterWrite} {s : Hosts}
    (h : ∀ t t', Sealed s.tables t → Tended cipher entered t → w.apply t = .ok t' →
      Sealed t t' ∧ Tended cipher entered t') :
    Tends cipher entered (clusterMachine cipher) (commitOrConflict w) (fun _ _ => True) s := by
  refine tends_bind (wp_op fun s' hr i θ' s'' r hmay hexec => ⟨?_, fun r _ s₁ _ => ?_⟩)
  · have hafter : s'' = ((ClusterOp.commit w).exec i s').1 := by
      cases hexec
      rfl
    subst hafter
    unfold ClusterOp.exec
    dsimp only
    cases i.reject with
    | some e => exact ⟨Sealed.refl _, hmay⟩
    | none =>
      cases happly : w.apply s'.tables with
      | error e => exact ⟨Sealed.refl _, hmay⟩
      | ok t => exact h s'.tables t hr hmay happly
  · cases r with
    | ok _ => exact tends_pure trivial
    | error e => cases e <;> exact tends_raise

theorem tends_assignConnection {u : ClusterUpdate} {c : Connection} {cluster : ClusterRow} {credential : CredentialRow}
    {s : Hosts} (hc : entered c.tokenSecret) (h : Holding cipher entered s.tables cluster.id credential) :
    Tends cipher entered (clusterMachine cipher) (assignConnection cipher u c cluster credential) (fun _ _ => True) s := by
  unfold assignConnection
  by_cases htoken : u.givesToken = true
  · rw [if_pos htoken]
    refine tends_bind (tends_mono (fun credentialId t hsealed₁ s₁ hs₁ => ?_) (tends_only (only_op (o := ClusterOp.uuid4) trivial)))
    refine tends_bind (tends_mono (fun nonce t hsealed₂ s₂ hs₂ => ?_) (tends_only (only_op (o := ClusterOp.nonce) trivial)))
    refine tends_commit fun t t' hsealed₃ ht happly => ?_
    have hold : Owned t cluster.id credential.id := by
      rw [hs₂] at hsealed₃
      rw [hs₁] at hsealed₂
      exact h.owned.sealed ((hsealed₁.trans hsealed₂).trans hsealed₃)
    unfold ClusterWrite.apply at happly
    dsimp only at happly
    cases hclusters : updateCluster t.clusters ⟨cluster, u.onto c cluster, some (credential.id,
      replacement cipher c cluster.id credentialId nonce)⟩ with
    | none =>
      rw [hclusters] at happly
      cases happly
    | some clusters =>
      rw [hclusters] at happly
      dsimp only at happly
      split at happly
      · next credentials hreplace =>
        cases happly
        obtain ⟨hreplaced, hsealed⟩ := tended_replaced ht hold rfl (Aead.decrypt_encrypt ..) hc hreplace
        exact ⟨hsealed, tended_updated hreplaced hclusters⟩
      · cases happly
  · rw [if_neg htoken]
    refine tends_commit fun t t' _ ht happly => ?_
    unfold ClusterWrite.apply at happly
    dsimp only at happly
    cases hclusters : updateCluster t.clusters ⟨cluster, u.onto c cluster, none⟩ with
    | none =>
      rw [hclusters] at happly
      cases happly
    | some clusters =>
      rw [hclusters] at happly
      cases happly
      exact ⟨Sealed.refl _, tended_updated ht hclusters⟩

/-- The secret an update goes for is the one it enters, or the one it has loaded. -/
theorem connection_entered {t : Tables} {u : ClusterUpdate} {cluster : ClusterRow} {credential : CredentialRow}
    {c : Connection} (hu : ∀ secret, u.tokenSecret = some secret → entered secret)
    (h : Holding cipher entered t cluster.id credential) (hc : u.connection cipher cluster credential = .ok c) :
    entered c.tokenSecret := by
  unfold ClusterUpdate.connection at hc
  cases hgiven : u.tokenSecret with
  | some given =>
    rw [hgiven] at hc
    obtain ⟨_, -, hc⟩ := bind_ok.mp hc
    obtain ⟨_, -, hc⟩ := bind_ok.mp hc
    obtain ⟨secret, hsecret, hc⟩ := bind_ok.mp hc
    cases hsecret
    cases hc
    exact hu _ hgiven
  | none =>
    rw [hgiven] at hc
    obtain ⟨_, -, hc⟩ := bind_ok.mp hc
    obtain ⟨_, -, hc⟩ := bind_ok.mp hc
    obtain ⟨secret, hsecret, hc⟩ := bind_ok.mp hc
    cases hc
    obtain ⟨stored, hopens, hentered⟩ := h.opens
    rw [orRaise_ok.mp hsecret] at hopens
    cases hopens
    exact hentered

theorem tends_update {clusterId : Uuid} {u : ClusterUpdate} {s : Hosts}
    (hu : ∀ secret, u.tokenSecret = some secret → entered secret) :
    Tends cipher entered (clusterMachine cipher) (ClusterService.update cipher clusterId u) (fun _ _ => True) s := by
  refine tends_bind (tends_mono (fun found t hfound s₁ hs₁ => ?_) tends_loadCluster)
  obtain ⟨cluster, credential⟩ := found
  obtain ⟨hid, hholding⟩ := hfound
  dsimp only at hid hholding
  subst hid
  refine tends_bind (tends_ofExcept fun c hc s₂ hs₂ => ?_)
  have hentered := connection_entered hu hholding hc
  by_cases hchanged : u.changesConnection = true
  · show Tends cipher entered _ (if u.changesConnection then _ else _) _ s₂
    rw [if_pos hchanged]
    refine tends_bind (tends_mono (fun _ _ _ s₃ _ => ?_) (tends_only (only_probe cluster.id c)))
    refine tends_bind (tends_mono (fun found t' hfound' s₄ hs₄ => ?_) tends_loadCluster)
    obtain ⟨cluster', credential'⟩ := found
    obtain ⟨hid', hholding'⟩ := hfound'
    refine tends_assignConnection hentered ?_
    rw [hs₄]
    exact hid' ▸ hholding'
  · show Tends cipher entered _ (if u.changesConnection then _ else _) _ s₂
    rw [if_neg hchanged]
    exact tends_assignConnection hentered (by rw [hs₂, hs₁]; exact hholding)

theorem tends_create {clusterId credentialId : Uuid} {request : ClusterCreate} {s : Hosts}
    (hrequest : entered request.tokenSecret) :
    Tends cipher entered (clusterMachine cipher) (ClusterService.create cipher clusterId credentialId request)
      (fun _ _ => True) s := by
  refine tends_bind (tends_mono (fun _ _ _ s₁ _ => ?_) (tends_only (only_probe _ _)))
  refine tends_bind (tends_mono (fun nonce _ _ s₂ _ => ?_) (tends_only (only_op (o := ClusterOp.nonce) trivial)))
  refine tends_commit fun t t' _ ht happly => ?_
  unfold ClusterWrite.apply at happly
  dsimp only at happly
  split at happly
  · next clusters credentials hclusters hcredentials =>
    cases happly
    exact (tended_created ht rfl rfl (Aead.decrypt_encrypt ..) hrequest hclusters hcredentials).symm
  · cases happly

/-- **Every request** to the clusters, where the secrets it enters are. -/
theorem tends_program {m : ClusterMessage} {s : Hosts}
    (hm : m.authorized = .ok () → ∀ secret, m.enters secret → entered secret) :
    Tends cipher entered (clusterMachine cipher) (m.program cipher) (fun _ _ => True) s := by
  refine tends_bind (tends_ofExcept fun _ hauthorized s₁ _ => ?_)
  have hentered := hm hauthorized
  unfold ClusterMessage.enters at hentered
  have hstill {p : ClusterProg Unit} (hp : p.Only ClusterOp.Still) :
      Tends cipher entered (clusterMachine cipher) p (fun _ _ => True) s₁ :=
    tends_mono (fun _ _ _ => trivial) (tends_only hp)
  cases hrequest : m.request with
  | create clusterId credentialId request =>
    rw [hrequest] at hentered
    exact tends_create (hentered _ rfl)
  | update clusterId u =>
    rw [hrequest] at hentered
    exact tends_update hentered
  | call clusterId => exact hstill (only_callResource clusterId)
  | overview => exact hstill only_resourceOverview
  | client who clusterId => exact hstill (only_openClient who clusterId)
  | console clusterId => exact hstill (only_buildConsoleClient clusterId)

theorem tends_disable {row : ClusterRow} {credentialId : Uuid} {s : Hosts} (hold : Owned s.tables row.id credentialId) :
    Tends cipher entered removalMachine (perform (.disable row credentialId)) (fun _ _ => True) s := by
  refine wp_perform fun s' hr i θ' s'' r hmay hexec => ⟨?_, fun _ _ => trivial⟩
  have hafter : s'' = ((DisableOp.disable row credentialId).exec i s').1 := by
    cases hexec
    rfl
  subst hafter
  unfold DisableOp.exec
  dsimp only
  cases i.reject with
  | some e => exact ⟨Sealed.refl _, hmay⟩
  | none => exact ⟨sealed_retired credentialId, tended_disabled hmay (hold.sealed hr)⟩

/-- **Every removal.** -/
theorem tends_delete {clusterId : Uuid} {s : Hosts} :
    Tends cipher entered removalMachine (delete clusterId) (fun _ _ => True) s := by
  refine tends_bind (tends_quiet fun s' i θ s'' r _ _ hexec => ?_)
  cases hexec
  refine ⟨rfl, fun s₁ hs₁ => ?_⟩
  dsimp only [DisableOp.exec]
  cases hrow : s'.tables.clusters.get? clusterId with
  | none => exact tends_raise
  | some cluster =>
    refine tends_bind (tends_quiet fun s₂ i θ s₃ r _ htended hexec => ?_)
    cases hexec
    refine ⟨rfl, fun s₃ hs₃ => ?_⟩
    have hfound {c : CredentialRow} (hc : c ∈ s₂.tables.credentials.select (fun c => cluster.id == c.clusterId)) :
        Owned s₂.tables cluster.id c.id := by
      obtain ⟨hmem, hown⟩ := Table.mem_select.mp hc
      exact ⟨c, Table.get?_of_mem hmem, (beq_iff_eq.mp hown).symm⟩
    by_cases hactive : cluster.isActive = true
    · rw [if_pos hactive]
      refine tends_bind (tends_quiet fun s₄ i θ s₅ r hsealed _ hexec => ?_)
      cases hexec
      refine ⟨rfl, fun s₅ hs₅ => ?_⟩
      dsimp only [DisableOp.exec]
      cases i.answer with
      | error blocked => exact tends_raise
      | ok _ =>
        refine tends_bind (tends_ofExcept fun credential hcredential s₆ hs₆ => ?_)
        have hold : Owned s₆.tables cluster.id credential.id := by
          rw [hs₃] at hsealed
          rw [hs₆, hs₅]
          exact (hfound (List.mem_of_find?_eq_some (orRaise_ok.mp hcredential))).sealed hsealed
        exact tends_disable hold
    · rw [if_neg hactive]
      exact tends_pure trivial

end Programs

/-! ### Runs -/

/-- Every secret that a request enters is one of these; nobody else writes the tables. -/
def enteredRuns (entered : String → Prop) : Conditions Exn ClusterOp Unit Hosts Outside ClusterMessage where
  spawn m _ := m.authorized = .ok () → ∀ secret, m.enters secret → entered secret
  env s s' := s' = s

def removalRuns : Conditions Exn DisableOp Unit Hosts Outside Removal where
  env s s' := s' = s

section Runs
variable {cipher : Aead} {entered : String → Prop}

theorem tendedProtocol : Protocol (clusterMachine cipher) (enteredRuns entered) (fun s => Tended cipher entered s.tables)
    (fun _ p s => Tends cipher entered (clusterMachine cipher) p (fun _ _ => True) s)
    (fun s s' => Sealed s.tables s'.tables) := by
  refine Protocol.of_wp_during (C := tending cipher entered ClusterOp) tending_closed (fun _ _ h => h.1) (fun _ _ h _ => h.2)
    (fun _ _ _ _ _ _ _ _ => trivial) (fun m s _ hm => tends_program hm) (fun o k i θ s hI _ => hI) (fun s s' hI he => ?_)
    (fun θ s hI => ⟨hI, Sealed.refl _⟩)
  subst he
  exact ⟨hI, Sealed.refl _⟩

theorem removalProtocol : Protocol removalMachine removalRuns (fun s => Tended cipher entered s.tables)
    (fun _ p s => Tends cipher entered removalMachine p (fun _ _ => True) s)
    (fun s s' => Sealed s.tables s'.tables) := by
  refine Protocol.of_wp_during (C := tending cipher entered DisableOp) tending_closed (fun _ _ h => h.1) (fun _ _ h _ => h.2)
    (fun _ _ _ _ _ _ _ _ => trivial) (fun m s _ _ => ?_) (fun o k i θ s hI _ => hI) (fun s s' hI he => ?_)
    (fun θ s hI => ⟨hI, Sealed.refl _⟩)
  · exact tends_bind (tends_ofExcept fun _ _ s₁ _ => tends_delete)
  · subst he
    exact ⟨hI, Sealed.refl _⟩

end Runs

/-- A secret that an administrator enters in the run. -/
def Entered (actions : List SystemAction) (secret : String) : Prop :=
  ∃ pid m, Action.spawn pid (.inl m) ∈ actions ∧ m.authorized = .ok () ∧ m.enters secret

def outside : SystemAction → Bool
  | .env _ => true
  | _ => false

/-- Nothing but the calls writes the tables. -/
def Within (actions : List SystemAction) : Prop := ∀ a ∈ actions, outside a = false

instance (actions : List SystemAction) : Decidable (Within actions) :=
  inferInstanceAs (Decidable (∀ a ∈ actions, outside a = false))

theorem met_entered (cipher : Aead) (entered : String → Prop) {s : Sys Exn (SumOp ClusterOp DisableOp) (Unit ⊕ Unit) Hosts}
    {actions : List SystemAction} (hentered : ∀ secret, Entered actions secret → entered secret) (h : Within actions) :
    Along (Sys.next (clusterSystem cipher)) ((enteredRuns entered).beside removalRuns).Met s actions := by
  refine along_of_forall fun a ha s => ?_
  cases a with
  | spawn pid m =>
    cases m with
    | inl m => exact fun hauthorized secret he => hentered secret ⟨pid, m, ha, hauthorized, he⟩
    | inr m => trivial
  | env f => cases h (.env f) ha
  | step pid i =>
    dsimp only [Conditions.Met]
    cases s.procs pid with
    | none => trivial
    | some proc =>
      obtain ⟨θ, p⟩ := proc
      cases θ <;> exact fun _ _ => trivial
  | crash pid =>
    dsimp only [Conditions.Met]
    cases s.procs pid with
    | none => trivial
    | some proc =>
      obtain ⟨θ, p⟩ := proc
      cases θ <;> exact fun _ _ => trivial

/-- No cluster, and no credential. -/
def noClusters : Tables := ⟨.empty, .empty⟩

/-- **Clusters are tended**: in every run of the calls of the clusters and the removals, interleaved as they may be,
refused by the database or ended before their end, every cluster that is active has one active credential, and its
secret, decrypted as the calls decrypt it, is one that an administrator has entered. -/
theorem clusters_tended (cipher : Aead) (actions : List SystemAction) (h : Within actions) :
    ∀ row ∈ (runFrom (Sys.next (clusterSystem cipher)) (Sys.idle ⟨noClusters, []⟩) actions).shared.tables.clusters,
      row.isActive = true →
        ∃ c ∈ (runFrom (Sys.next (clusterSystem cipher)) (Sys.idle ⟨noClusters, []⟩) actions).shared.tables.credentials,
          (c.clusterId = row.id ∧ c.isActive = true) ∧
          (∀ d ∈ (runFrom (Sys.next (clusterSystem cipher)) (Sys.idle ⟨noClusters, []⟩) actions).shared.tables.credentials,
            d.clusterId = row.id → d.isActive = true → d = c) ∧
          ∃ secret, ClusterService.decrypt cipher row.id c = .ok secret ∧ Entered actions secret := by
  have hstart : Tended cipher (Entered actions) noClusters :=
    ⟨fun c hc => absurd hc List.not_mem_nil, fun row hrow => absurd hrow List.not_mem_nil,
      fun c hc => absurd hc List.not_mem_nil⟩
  have htended := ((tendedProtocol.beside removalProtocol).holds_run (Sys.holds_idle (s := (⟨noClusters, []⟩ : Hosts)) hstart)
    (met_entered cipher (Entered actions) (fun _ he => he) h)).shared
  intro row hrow hactive
  obtain ⟨c, hc, hown, hc'⟩ := htended.active row hrow hactive
  refine ⟨c, hc, ⟨hown, hc'⟩, fun d hd hdown hd' => htended.single d hd c hc hd' hc' (hdown.trans hown.symm), ?_⟩
  obtain ⟨secret, hopens, hentered⟩ := htended.opens c hc
  refine ⟨secret, ?_, hentered⟩
  unfold ClusterService.decrypt
  rw [← hown, hopens]
  rfl

def systemSteps (pid n : Nat) (i : Outside) : List SystemAction := List.replicate n (.step pid i)

/-- A cluster is created; its token is changed while it is removed. -/
def changedRun : List SystemAction :=
  .spawn 0 (.inl (rootMessage (.create 1 2 ⟨"main", "https://pve", "root@pam!master", "first", none⟩))) ::
    systemSteps 0 4 {} ++ .spawn 1 (.inl (rootMessage (.update 1 { tokenSecret := some "second" }))) ::
    .spawn 2 (.inr ⟨⟨7, "root@pve", .superAdmin, 0⟩, 1⟩) :: systemSteps 2 3 {} ++ systemSteps 1 9 { uuid := 3 }

/-- Before the removal has written: the cluster is active, and the change has replaced its token. -/
theorem changed_tended :
    ∃ row ∈ (runFrom (Sys.next (clusterSystem plainCipher)) (Sys.idle ⟨noClusters, []⟩) changedRun).shared.tables.clusters,
      row.isActive = true ∧
        ∃ c ∈ (runFrom (Sys.next (clusterSystem plainCipher)) (Sys.idle ⟨noClusters, []⟩) changedRun).shared.tables.credentials,
          (c.clusterId = row.id ∧ c.isActive = true) ∧
          (∀ d ∈ (runFrom (Sys.next (clusterSystem plainCipher)) (Sys.idle ⟨noClusters, []⟩) changedRun).shared.tables.credentials,
            d.clusterId = row.id → d.isActive = true → d = c) ∧
          ∃ secret, ClusterService.decrypt plainCipher row.id c = .ok secret ∧ Entered changedRun secret := by
  have hfound : ((runFrom (Sys.next (clusterSystem plainCipher)) (Sys.idle ⟨noClusters, []⟩)
      changedRun).shared.tables.clusters.get? 1).any ClusterRow.isActive = true := by decide +kernel
  obtain ⟨row, hget, hactive⟩ := (Option.any_eq_true _ _).mp hfound
  have hrow := Table.get?_mem hget
  exact ⟨row, hrow, hactive, clusters_tended plainCipher changedRun (by decide) row hrow hactive⟩

/-- The removal ends after the change of the token: the cluster is disabled, and the new token is left. -/
example :
    let t := (runFrom (Sys.next (clusterSystem plainCipher)) (Sys.idle ⟨noClusters, []⟩)
      (changedRun ++ systemSteps 2 2 {})).shared.tables
    (t.clusters.get? 1).map ClusterRow.isActive = some false ∧ (t.credentials.get? 3).map CredentialRow.isActive = some true := by
  decide +kernel

end PveMaster.Clusters
