import PveMaster.Clusters.Service

/-! Where the secrets of the clusters are sent.

A secret may go to a connection an administrator has given it for: with the cluster, or in
an update, whose other parts are then those that were stored when that update loaded the
cluster (`Finding`), and not what has been stored at some other time. As long as a
credential is active its cluster keeps its URL and its CA bundle (`Pinned`); an update that
finds others after its probe than before it, and was not given a token, breaks that. -/
namespace PveMaster.Clusters
open ClusterService Prog

/-- A connection as it is stored; its secret may be unreadable. -/
structure Pairing where
  apiBaseUrl : String
  caBundlePem : Option String
  tokenIdentifier : String
  tokenSecret : Option String

def Connection.pairing (c : Connection) : Pairing :=
  ⟨c.apiBaseUrl, c.caBundlePem, c.tokenIdentifier, some c.tokenSecret⟩

section Definitions
variable (cipher : Aead)

/-- The pairing of a cluster and a credential. -/
def pairingOf (cluster : ClusterRow) (credential : CredentialRow) : Pairing :=
  ⟨cluster.apiBaseUrl, cluster.caBundlePem, credential.tokenIdentifier,
    cipher.decrypt credential.secret cluster.id credential.id⟩

/-- What is stored for a cluster. -/
def Paired (t : Tables) (id : Uuid) (p : Pairing) : Prop :=
  ∃ cluster ∈ t.clusters, ∃ credential ∈ t.credentials, cluster.id = id ∧ credential.clusterId = id ∧
    credential.isActive = true ∧ p = pairingOf cipher cluster credential

/-- What has happened in a run: what administrators have asked for, and what each request has
found stored when it loaded its cluster. -/
structure Past where
  asked : ClusterMessage → Prop
  found : ClusterMessage → Uuid → Pairing → Prop

/-- The pairings of a cluster that administrators have made: in the beginning, when it was
created, or with a new secret, for what the update gives and otherwise has found stored. -/
inductive Known (start : Tables) (past : Past) : Uuid → Pairing → Prop
  | stored {id : Uuid} {p : Pairing} (h : Paired cipher start id p) : Known start past id p
  | created {m : ClusterMessage} {id credentialId : Uuid} {request : ClusterCreate} (h : past.asked m)
      (hm : m.request = .create id credentialId request) :
      Known start past id ⟨normalizeUrl request.apiBaseUrl, request.caBundlePem, request.tokenIdentifier,
        some request.tokenSecret⟩
  | supplied {m : ClusterMessage} {id : Uuid} {p : Pairing} {u : ClusterUpdate} {secret : String}
      (h : past.asked m) (hm : m.request = .update id u) (hs : u.tokenSecret = some secret)
      (found : past.found m id p) :
      Known start past id ⟨u.url p.apiBaseUrl, u.ca p.caBundlePem, u.identifier p.tokenIdentifier, some secret⟩

/-- Secrets are stored with, and have been sent to, nothing but what they were given for. -/
structure Confined (start : Tables) (past : Past) (s : Hosts) : Prop where
  stored : ∀ id p, Paired cipher s.tables id p → Known cipher start past id p
  sent : ∀ x ∈ s.sent, Known cipher start past x.1 x.2.pairing

/-- The rest of a request's program once the first query of its first load has found the cluster:
what it does next is the second query. -/
def Finding (m : ClusterMessage) (id : Uuid) (p : ClusterProg Unit) : Prop :=
  ∃ f cluster, m.program cipher = .node (.cluster id) f ∧ p = f (some cluster)

/-- The requests of a run that administrators make. -/
def requested (actions : List ClusterAction) (m : ClusterMessage) : Prop :=
  (∃ pid, .spawn pid m ∈ actions) ∧ m.authorized = .ok ()

/-- The system after some actions. -/
def systemAfter (tables : Tables) (actions : List ClusterAction) : Sys Exn ClusterOp Unit Hosts :=
  runFrom (Sys.next (clusterMachine cipher)) (Sys.idle ⟨tables, []⟩) actions

/-- The past of a run: a request has found what is stored when it makes the second query of its first load. -/
def pastOf (tables : Tables) (actions : List ClusterAction) : Past where
  asked := requested actions
  found m id q := ∃ before pid i after p, actions = before ++ .step pid i :: after ∧
    (systemAfter cipher tables before).procs pid = some ((), p) ∧ Finding cipher m id p ∧
      Paired cipher (systemAfter cipher tables before).shared.tables id q

end Definitions

/-! ### What the calls rely on -/

/-- While a credential is active, its cluster keeps its URL and its CA bundle, and a cluster
does not lose its credential. -/
structure Pinned (t t' : Tables) : Prop where
  clusters : ∀ k row, t.clusters.get? k = some row → ∃ row', t'.clusters.get? k = some row'
  credentials : ∀ k c, t.credentials.get? k = some c → ∃ c', t'.credentials.get? k = some c' ∧
    c'.clusterId = c.clusterId ∧ (c'.isActive = true → c.isActive = true)
  endpoint : ∀ k c c' row row', t.credentials.get? k = some c → t'.credentials.get? k = some c' →
    c'.isActive = true → t.clusters.get? c.clusterId = some row → t'.clusters.get? c.clusterId = some row' →
    row'.endpoint = row.endpoint
  active : ∀ k, (∃ c ∈ t.credentials, c.clusterId = k ∧ c.isActive = true) →
    ∃ c ∈ t'.credentials, c.clusterId = k ∧ c.isActive = true

theorem Pinned.refl (t : Tables) : Pinned t t where
  clusters _ row h := ⟨row, h⟩
  credentials _ c h := ⟨c, h, rfl, id⟩
  endpoint k c c' row row' hc hc' _ hrow hrow' := by
    rw [hrow] at hrow'
    cases hrow'
    rfl
  active _ h := h

theorem Pinned.trans {t t' t'' : Tables} (h : Pinned t t') (h' : Pinned t' t'') : Pinned t t'' where
  clusters k row hrow := by
    obtain ⟨row', hrow'⟩ := h.clusters k row hrow
    exact h'.clusters k row' hrow'
  credentials k c hc := by
    obtain ⟨c', hc', hown, hactive⟩ := h.credentials k c hc
    obtain ⟨c'', hc'', hown', hactive'⟩ := h'.credentials k c' hc'
    exact ⟨c'', hc'', hown'.trans hown, fun ha => hactive (hactive' ha)⟩
  endpoint k c c'' row row'' hc hc'' hactive hrow hrow'' := by
    obtain ⟨c', hc', hown, -⟩ := h.credentials k c hc
    obtain ⟨row', hrow'⟩ := h.clusters _ row hrow
    obtain ⟨d, hd, -, hstill⟩ := h'.credentials k c' hc'
    rw [hc''] at hd
    cases hd
    have hfirst := h.endpoint k c c' row row' hc hc' (hstill hactive) hrow hrow'
    rw [← hown] at hrow' hrow''
    exact (h'.endpoint k c' c'' row' row'' hc' hc'' hactive hrow' hrow'').trans hfirst
  active k hk := h'.active k (h.active k hk)

/-- A cluster and its active credential, as they are stored at one moment. -/
structure Snapped (t : Tables) (cluster : ClusterRow) (credential : CredentialRow) : Prop where
  row : ∃ stored, t.clusters.get? cluster.id = some stored ∧ stored.endpoint = cluster.endpoint
  found : t.credentials.get? credential.id = some credential
  active : credential.isActive = true
  own : credential.clusterId = cluster.id

section Commits
variable {cipher : Aead} {start : Tables} {past : Past} {t t' : Tables}

/-- What is stored is known. -/
abbrev StoredKnown (cipher : Aead) (start : Tables) (past : Past) (t : Tables) : Prop :=
  ∀ id p, Paired cipher t id p → Known cipher start past id p

theorem endpoint_eq {c q : ClusterRow} (h : c.endpoint = q.endpoint) :
    c.apiBaseUrl = q.apiBaseUrl ∧ c.caBundlePem = q.caBundlePem := Prod.mk.inj h

theorem Snapped.paired {cluster : ClusterRow} {credential : CredentialRow} (h : Snapped t cluster credential) :
    Paired cipher t cluster.id (pairingOf cipher cluster credential) := by
  obtain ⟨stored, hget, hendpoint⟩ := h.row
  obtain ⟨hurl, hca⟩ := endpoint_eq hendpoint
  have hid : stored.id = cluster.id := Table.get?_key hget
  refine ⟨stored, Table.get?_mem hget, credential, Table.get?_mem h.found, hid, h.own, h.active, ?_⟩
  unfold pairingOf
  rw [hurl, hca, hid]

theorem Snapped.known {cluster : ClusterRow} {credential : CredentialRow} (h : Snapped t cluster credential)
    (hknown : StoredKnown cipher start past t) :
    Known cipher start past cluster.id (pairingOf cipher cluster credential) := hknown cluster.id _ h.paired

/-- The endpoint of a row after a write. -/
theorem merge_endpoint {loaded current stored : ClusterRow} (h : stored.endpoint = loaded.endpoint) :
    (ClusterRow.merge loaded current stored).endpoint = current.endpoint := by
  obtain ⟨hurl, hca⟩ := endpoint_eq h
  show (written loaded.apiBaseUrl current.apiBaseUrl stored.apiBaseUrl,
    written loaded.caBundlePem current.caBundlePem stored.caBundlePem) = _
  rw [hurl, hca, written_fresh, written_fresh]
  rfl

theorem merge_unchanged {loaded current stored : ClusterRow} (h : current.endpoint = loaded.endpoint) :
    (ClusterRow.merge loaded current stored).endpoint = stored.endpoint := by
  obtain ⟨hurl, hca⟩ := endpoint_eq h
  show (written loaded.apiBaseUrl current.apiBaseUrl stored.apiBaseUrl,
    written loaded.caBundlePem current.caBundlePem stored.caBundlePem) = _
  rw [hurl, hca, written_unchanged, written_unchanged]
  rfl

theorem updateCluster_some {clusters : Table ClusterRow} {change : ClusterChange}
    (h : updateCluster t.clusters change = some clusters) :
    clusters = t.clusters.update change.loaded.id (ClusterRow.merge change.loaded change.current) := by
  unfold updateCluster at h
  dsimp only at h
  split at h
  · split at h
    · cases h
    · exact (Option.some.inj h).symm
  · exact (Option.some.inj h).symm

/-- An update that leaves the endpoint, and the credential. -/
theorem renamed_commit {change : ClusterChange} {clusters : Table ClusterRow}
    (hknown : StoredKnown cipher start past t) (h : updateCluster t.clusters change = some clusters)
    (hsame : change.current.endpoint = change.loaded.endpoint) :
    StoredKnown cipher start past ⟨clusters, t.credentials⟩ ∧ Pinned t ⟨clusters, t.credentials⟩ := by
  have halike : Table.Alike (fun c : ClusterRow => (c.id, c.endpoint)) t.clusters clusters := by
    rw [updateCluster_some h]
    exact Table.alike_update _ fun r => Prod.ext rfl (merge_unchanged hsame)
  refine ⟨fun id p hp => ?_, ⟨fun k row hrow => ?_, fun k c hc => ⟨c, hc, rfl, fun ha => ha⟩, ?_, fun _ hk => hk⟩⟩
  · obtain ⟨cluster, hcluster, credential, hcredential, hid, hown, hactive, rfl⟩ := hp
    obtain ⟨stored, hget, hcolumns⟩ := halike.found (Table.get?_of_mem hcluster)
    obtain ⟨hid', hendpoint⟩ := Prod.mk.inj hcolumns
    obtain ⟨hurl, hca⟩ := endpoint_eq hendpoint
    refine hknown id _ ⟨stored, Table.get?_mem hget, credential, hcredential, hid'.trans hid, hown, hactive, ?_⟩
    unfold pairingOf
    rw [hurl, hca, hid']
  · obtain ⟨row', hrow', -⟩ := halike.keeps k row hrow
    exact ⟨row', hrow'⟩
  · intro k c c' row row' hc hc' _ hrow hrow'
    obtain ⟨row₂, hrow₂, hcolumns⟩ := halike.keeps _ row hrow
    rw [hrow'] at hrow₂
    cases hrow₂
    exact (Prod.mk.inj hcolumns).2

/-- The credential that is retired was the only active one. -/
theorem replaceCredential_some {old : Uuid} {new : CredentialRow} {credentials : Table CredentialRow}
    (hactive : new.isActive = true) (hreplace : replaceCredential t.credentials old new = some credentials) :
    (t.credentials.update old retired).insert new = some credentials ∧
      ∀ c ∈ t.credentials, c.clusterId = new.clusterId → c.isActive = true → c.id = old := by
  obtain ⟨hclash, hinsert⟩ := insertUnless_some hreplace
  refine ⟨hinsert, fun c hc hcluster hc' => ?_⟩
  by_contra hne
  have hkept : c ∈ t.credentials.update old retired :=
    Table.mem_update.mpr ⟨c, hc, Table.amend_of_ne retired hne⟩
  have hapart := hclash c hkept
  simp [CredentialRow.clashes, hactive, hc', hcluster] at hapart

/-- The credential added is a new one. -/
theorem replaced_fresh {old : Uuid} {new c : CredentialRow} {credentials : Table CredentialRow} {k : Uuid}
    (h : (t.credentials.update old retired).insert new = some credentials)
    (hc : t.credentials.get? k = some c) : k ≠ new.id := by
  have hfree := (Table.insert_some h).2 (Table.amend old retired c)
    (Table.mem_update.mpr ⟨c, Table.get?_mem hc, rfl⟩)
  rw [Table.key_amend, Table.get?_key hc] at hfree
  exact hfree

/-- A credential after one has been retired for another. -/
theorem mem_replaced {credentials : Table CredentialRow} {old : Uuid} {new c : CredentialRow}
    (h : (t.credentials.update old retired).insert new = some credentials) (hc : c ∈ credentials)
    (hactive : c.isActive = true) : c = new ∨ c ∈ t.credentials ∧ c.id ≠ old := by
  rcases (Table.mem_insert h).mp hc with hc | rfl
  · obtain ⟨q, hq, rfl⟩ := Table.mem_update.mp hc
    by_cases hq' : q.id = old
    · rw [Table.amend_of_key hq' rfl] at hactive
      cases hactive
    · rw [Table.amend_of_ne retired hq']
      exact Or.inr ⟨hq, hq'⟩
  · exact Or.inl rfl

section Replaced
variable {t₀ : Tables} {change : ClusterChange} {credential new : CredentialRow} {clusters : Table ClusterRow}
  {credentials : Table CredentialRow}

theorem updateCluster_of_ne (hclusters : updateCluster t.clusters change = some clusters) {k : Uuid}
    (hk : k ≠ change.loaded.id) : clusters.get? k = t.clusters.get? k := by
  rw [updateCluster_some hclusters]
  exact Table.get?_update_of_ne _ hk

/-- The credential that is replaced is still the active one, so its cluster still has the endpoint it was
loaded with. -/
theorem replaced_endpoint (hsnapped : Snapped t₀ change.loaded credential) (hpinned : Pinned t₀ t)
    (hown : new.clusterId = change.loaded.id) (hactive : new.isActive = true)
    (hclusters : updateCluster t.clusters change = some clusters)
    (hreplace : replaceCredential t.credentials credential.id new = some credentials) {row : ClusterRow}
    (hrow : clusters.get? change.loaded.id = some row) : row.endpoint = change.current.endpoint := by
  obtain ⟨-, hsole⟩ := replaceCredential_some hactive hreplace
  rw [hown] at hsole
  obtain ⟨stored, hget, hloaded⟩ := hsnapped.row
  obtain ⟨c, hc, hcluster, hc'⟩ := hpinned.active change.loaded.id
    ⟨credential, Table.get?_mem hsnapped.found, hsnapped.own, hsnapped.active⟩
  have hcid := hsole c hc hcluster hc'
  obtain ⟨stored', hget'⟩ := hpinned.clusters _ stored hget
  have hsame := hpinned.endpoint credential.id credential c stored stored' hsnapped.found
    (hcid ▸ Table.get?_of_mem hc) hc' (hsnapped.own ▸ hget) (hsnapped.own ▸ hget')
  rw [updateCluster_some hclusters, Table.get?_update_same hget' rfl] at hrow
  cases hrow
  exact merge_endpoint (hsame.trans hloaded)

theorem replaced_pinned (hsnapped : Snapped t₀ change.loaded credential) (hpinned : Pinned t₀ t)
    (hown : new.clusterId = change.loaded.id) (hactive : new.isActive = true)
    (hclusters : updateCluster t.clusters change = some clusters)
    (hreplace : replaceCredential t.credentials credential.id new = some credentials) :
    Pinned t ⟨clusters, credentials⟩ := by
  obtain ⟨hinsert, hsole⟩ := replaceCredential_some hactive hreplace
  rw [hown] at hsole
  refine ⟨fun k row hrow => ?_, fun k c hc => ?_, ?_, fun k hk => ?_⟩
  · by_cases hk : k = change.loaded.id
    · subst hk
      exact ⟨_, updateCluster_some hclusters ▸ Table.get?_update_same hrow rfl⟩
    · exact ⟨row, (updateCluster_of_ne hclusters hk).trans hrow⟩
  · rw [Table.get?_insert_of_ne hinsert (replaced_fresh hinsert hc)]
    by_cases hold : k = credential.id
    · subst hold
      exact ⟨retired c, Table.get?_update_same hc rfl, rfl, fun h => by cases h⟩
    · exact ⟨c, (Table.get?_update_of_ne retired hold).trans hc, rfl, id⟩
  · intro k c c' row row' hc hc' hactive' hrow hrow'
    rcases mem_replaced hinsert (Table.get?_mem hc') hactive' with rfl | ⟨hold, hne⟩
    · exact absurd (Table.get?_key hc').symm (replaced_fresh hinsert hc)
    · have hsame : c' = c := Table.eq_of_key hold (Table.get?_mem hc)
        ((Table.get?_key hc').trans (Table.get?_key hc).symm)
      subst hsame
      have hloaded : c'.clusterId ≠ change.loaded.id := fun he => hne (hsole c' hold he hactive')
      rw [updateCluster_of_ne hclusters hloaded, hrow] at hrow'
      cases hrow'
      rfl
  · by_cases hloaded : k = change.loaded.id
    · exact ⟨new, (Table.mem_insert hinsert).mpr (Or.inr rfl), hown.trans hloaded.symm, hactive⟩
    · obtain ⟨c, hc, hcluster, hc'⟩ := hk
      obtain ⟨d, hd, hdown, -⟩ := hpinned.credentials _ credential hsnapped.found
      have hne : c.id ≠ credential.id := by
        intro he
        have hsame : c = d := Table.eq_of_key hc (Table.get?_mem hd) (he.trans (Table.get?_key hd).symm)
        rw [hsame, hdown, hsnapped.own] at hcluster
        exact hloaded hcluster.symm
      exact ⟨c, (Table.mem_insert hinsert).mpr (Or.inl (Table.mem_update.mpr ⟨c, hc,
        Table.amend_of_ne retired hne⟩)), hcluster, hc'⟩

/-- An update that replaces the credential it has loaded. -/
theorem replaced_commit {secret : String}
    (hknown : StoredKnown cipher start past t) (hsnapped : Snapped t₀ change.loaded credential)
    (hpinned : Pinned t₀ t) (hown : new.clusterId = change.loaded.id) (hactive : new.isActive = true)
    (hsecret : cipher.decrypt new.secret change.loaded.id new.id = some secret)
    (hasked : Known cipher start past change.loaded.id
      ⟨change.current.apiBaseUrl, change.current.caBundlePem, new.tokenIdentifier, some secret⟩)
    (hclusters : updateCluster t.clusters change = some clusters)
    (hreplace : replaceCredential t.credentials credential.id new = some credentials) :
    StoredKnown cipher start past ⟨clusters, credentials⟩ ∧ Pinned t ⟨clusters, credentials⟩ := by
  refine ⟨fun id p hp => ?_, replaced_pinned hsnapped hpinned hown hactive hclusters hreplace⟩
  obtain ⟨hinsert, hsole⟩ := replaceCredential_some hactive hreplace
  rw [hown] at hsole
  obtain ⟨cluster, hcluster, c, hc, hid, hcid, hc', rfl⟩ := hp
  have hget : clusters.get? cluster.id = some cluster := Table.get?_of_mem hcluster
  rcases mem_replaced hinsert hc hc' with rfl | ⟨hold, hne⟩
  · have hloaded : cluster.id = change.loaded.id := hid.trans (hcid.symm.trans hown)
    obtain ⟨hurl, hca⟩ :=
      endpoint_eq (replaced_endpoint hsnapped hpinned hown hactive hclusters hreplace (hloaded ▸ hget))
    unfold pairingOf
    rw [hurl, hca, hloaded, hsecret, ← hid, hloaded]
    exact hasked
  · have hloaded : cluster.id ≠ change.loaded.id := fun he =>
      hne (hsole c hold (hcid.trans (hid.symm.trans he)) hc')
    rw [updateCluster_of_ne hclusters hloaded] at hget
    exact hknown id _ ⟨cluster, Table.get?_mem hget, c, hold, hid, hcid, hc', rfl⟩

end Replaced

/-- A cluster that is created, with its credential. -/
theorem created_commit {cluster : ClusterRow} {credential : CredentialRow} {clusters : Table ClusterRow}
    {credentials : Table CredentialRow} {secret : String} (hknown : StoredKnown cipher start past t)
    (hown : credential.clusterId = cluster.id) (hactive : credential.isActive = true)
    (hsecret : cipher.decrypt credential.secret cluster.id credential.id = some secret)
    (hasked : Known cipher start past cluster.id
      ⟨cluster.apiBaseUrl, cluster.caBundlePem, credential.tokenIdentifier, some secret⟩)
    (hcluster : insertUnless ClusterRow.clashes t.clusters cluster = some clusters)
    (hcredential : insertUnless CredentialRow.clashes t.credentials credential = some credentials) :
    StoredKnown cipher start past ⟨clusters, credentials⟩ ∧ Pinned t ⟨clusters, credentials⟩ := by
  obtain ⟨-, hrow⟩ := insertUnless_some hcluster
  obtain ⟨hclash, hnew⟩ := insertUnless_some hcredential
  have hkeeps : Table.Keeps id t.clusters clusters := Table.keeps_insert hrow
  have hstays : Table.Keeps id t.credentials credentials := Table.keeps_insert hnew
  have hfree {c : CredentialRow} (hc : c ∈ t.credentials) (hc' : c.isActive = true) : c.clusterId ≠ cluster.id := by
    intro he
    have hapart := hclash c hc
    simp [CredentialRow.clashes, hactive, hc', hown, he] at hapart
  refine ⟨fun id p hp => ?_, ⟨fun k row h => ?_, fun k c hc => ?_, ?_, fun k hk => ?_⟩⟩
  · obtain ⟨row, hmem, c, hc, hid, hcid, hc', rfl⟩ := hp
    rcases (Table.mem_insert hrow).mp hmem with hold | rfl
    · rcases (Table.mem_insert hnew).mp hc with hcold | rfl
      · exact hknown id _ ⟨row, hold, c, hcold, hid, hcid, hc', rfl⟩
      · exact absurd (hid.trans (hcid.symm.trans hown)) ((Table.insert_some hrow).2 row hold)
    · rcases (Table.mem_insert hnew).mp hc with hcold | rfl
      · exact absurd (hcid.trans hid.symm) (hfree hcold hc')
      · unfold pairingOf
        rw [hsecret, ← hid]
        exact hasked
  · obtain ⟨row', h', -⟩ := hkeeps k row h
    exact ⟨row', h'⟩
  · obtain ⟨c', hc', rfl⟩ := hstays k c hc
    exact ⟨c', hc', rfl, fun h => h⟩
  · intro k c c' row row' hc hc' _ h h'
    obtain ⟨row₂, hrow₂, hsame⟩ := hkeeps _ row h
    rw [h'] at hrow₂
    cases hrow₂
    exact congrArg ClusterRow.endpoint hsame
  · obtain ⟨c, hc, hrest⟩ := hk
    exact ⟨c, (Table.mem_insert hnew).mpr (Or.inl hc), hrest⟩

end Commits

/-! ### Runs -/

/-- What has to go well: a load finds the credentials of its cluster while that has the
endpoint the load has found, and an update that is given no token finds, after its probe, the
endpoint it has found before. -/
def ClusterOp.Fits {ρ : Type} (o : ClusterOp ρ) (s : Hosts) : Prop :=
  match o with
  | .credentials clusters => ∀ cluster ∈ clusters, ∀ row ∈ s.tables.clusters.get? cluster.id,
      row.endpoint = cluster.endpoint
  | .commit (.update change) => change.credential = none → change.current.endpoint = change.loaded.endpoint
  | _ => True

instance {ρ : Type} : (o : ClusterOp ρ) → (s : Hosts) → Decidable (o.Fits s)
  | .credentials clusters, s =>
    inferInstanceAs (Decidable (∀ cluster ∈ clusters, ∀ row ∈ s.tables.clusters.get? cluster.id,
      row.endpoint = cluster.endpoint))
  | .commit (.update change), _ =>
    inferInstanceAs (Decidable (change.credential = none → change.current.endpoint = change.loaded.endpoint))
  | .commit (.create _ _), _ | .cluster _, _ | .activeClusters, _ | .joined _, _ | .uuid4, _ | .nonce, _
  | .send _ _, _ => .isTrue trivial

def clusterConditions : Conditions Exn ClusterOp Unit Hosts Outside ClusterMessage where
  step _ p _ s :=
    match p with
    | .node o _ => o.Fits s
    | .done _ => True
  env s s' := s' = s

instance : (θ : Unit) → (p : ClusterProg Unit) → (i : Outside) → (s : Hosts) →
    Decidable (clusterConditions.step θ p i s)
  | _, .node o _, _, s => inferInstanceAs (Decidable (o.Fits s))
  | _, .done _, _, _ => .isTrue trivial

instance (m : ClusterMessage) (s : Hosts) : Decidable (clusterConditions.spawn m s) := .isTrue trivial

instance (θ : Unit) (p : ClusterProg Unit) (s : Hosts) : Decidable (clusterConditions.crash θ p s) := .isTrue trivial

instance (s s' : Hosts) : Decidable (clusterConditions.env s s') := inferInstanceAs (Decidable (s' = s))

/-- The same conditions on a run that has this past. -/
def pastConditions (cipher : Aead) (past : Past) : Conditions Exn ClusterOp Unit Hosts Outside ClusterMessage where
  spawn m _ := m.authorized = .ok () → past.asked m
  step θ p i s := clusterConditions.step θ p i s ∧
    ∀ m id, Finding cipher m id p → ∀ q, Paired cipher s.tables id q → past.found m id q
  env := clusterConditions.env

section Programs
variable {cipher : Aead} {start : Tables} {past : Past} {α β : Type}

def clusterContract (cipher : Aead) (start : Tables) (past : Past) :
    Contract ClusterOp Unit Hosts Outside where
  may o _ _ s := Confined cipher start past s ∧ o.Fits s
  rely s s' := Pinned s.tables s'.tables
  guar s s' := Pinned s.tables s'.tables ∧ Confined cipher start past s'

theorem clusterContract_closed : (clusterContract cipher start past).Closed where
  refl s := Pinned.refl s.tables
  trans _ _ _ h h' := Pinned.trans h h'

/-- What a program of a run does. -/
abbrev Keeps (cipher : Aead) (start : Tables) (past : Past) (p : ClusterProg α)
    (Q : α → Tables → Prop) (s : Hosts) : Prop :=
  wp (clusterMachine cipher) (clusterContract cipher start past) p
    (fun r _ s => ∀ a, r = .ok a → Q a s.tables) () s

theorem keeps_pure {a : α} {Q : α → Tables → Prop} {s : Hosts} (h : Q a s.tables) :
    Keeps cipher start past (pure a) Q s := fun _ he => by cases he; exact h

theorem keeps_raise {e : Exn} {Q : α → Tables → Prop} {s : Hosts} :
    Keeps cipher start past (raise e) Q s := fun _ he => by cases he

theorem keeps_ofExcept {r : Except Exn α} {Q : α → Tables → Prop} {s : Hosts} (h : ∀ a, r = .ok a → Q a s.tables) :
    Keeps cipher start past (ofExcept r) Q s := h

theorem keeps_bind {p : ClusterProg α} {f : α → ClusterProg β} {Q : β → Tables → Prop} {s : Hosts}
    (h : Keeps cipher start past p (fun a t => ∀ s, s.tables = t → Keeps cipher start past (f a) Q s) s) :
    Keeps cipher start past (p >>= f) Q s := by
  refine wp_bind (wp_mono (fun r _ s hr => ?_) h)
  cases r with
  | ok a => exact hr a rfl s rfl
  | error e => exact fun _ he => by cases he

theorem keeps_mono {p : ClusterProg α} {Q Q' : α → Tables → Prop} {s : Hosts} (h : ∀ a t, Q a t → Q' a t)
    (hp : Keeps cipher start past p Q s) : Keeps cipher start past p Q' s :=
  wp_mono (fun _ _ _ hr a he => h a _ (hr a he)) hp

/-- An operation that changes nothing. -/
theorem keeps_quiet {ρ : Type} {o : ClusterOp ρ} {Q : ρ → Tables → Prop} {s : Hosts}
    (hquiet : ∀ i s, (o.exec i s).1 = s)
    (h : ∀ s' i, Pinned s.tables s'.tables → Confined cipher start past s' → o.Fits s' →
      Q (o.exec i s').2 s'.tables) : Keeps cipher start past (op o) Q s := by
  refine wp_op fun s' hr i θ' s'' r hmay hexec => ?_
  cases hexec
  rw [hquiet]
  refine ⟨⟨Pinned.refl _, hmay.1⟩, fun a ha => ?_⟩
  cases ha
  exact h s' i hr hmay.1 hmay.2

/-- A secret sent to what it is known for. -/
theorem keeps_send {id : Uuid} {c : Connection} {s : Hosts} (h : Known cipher start past id c.pairing) :
    Keeps cipher start past (op (.send id c)) (fun _ t => Pinned s.tables t) s := by
  refine wp_op fun s' hr i θ' s'' r hmay hexec => ?_
  cases hexec
  refine ⟨⟨Pinned.refl _, hmay.1.stored, fun x hx => ?_⟩, fun _ _ => hr⟩
  rcases List.mem_append.mp hx with hx | hx
  · exact hmay.1.sent x hx
  · rw [List.mem_singleton.mp hx]
    exact h

theorem keeps_probe {id : Uuid} {c : Connection} {s : Hosts} (h : Known cipher start past id c.pairing) :
    Keeps cipher start past (ClusterService.probe id c) (fun _ t => Pinned s.tables t) s := by
  refine keeps_bind (keeps_mono (fun answer t hpinned s' hs' => ?_) (keeps_send h))
  cases answer with
  | ok _ => exact keeps_pure (hs' ▸ hpinned)
  | error e => exact keeps_raise

/-- A commit that keeps the pairings known. -/
theorem keeps_commit {w : ClusterWrite} {s : Hosts}
    (h : ∀ s', Pinned s.tables s'.tables → Confined cipher start past s' → (ClusterOp.commit w).Fits s' →
      ∀ t, w.apply s'.tables = .ok t → StoredKnown cipher start past t ∧ Pinned s'.tables t) :
    Keeps cipher start past (commitOrConflict w) (fun _ _ => True) s := by
  refine keeps_bind (keeps_mono (fun r t (_ : True) s' _ => ?_) (wp_op fun s' hr i θ' s'' r hmay hexec => ?_))
  · cases r with
    | ok _ => exact keeps_pure trivial
    | error e => cases e <;> exact keeps_raise
  · refine ⟨?_, fun _ _ => trivial⟩
    have hafter : s'' = ((ClusterOp.commit w).exec i s').1 := by
      cases hexec
      rfl
    subst hafter
    unfold ClusterOp.exec
    dsimp only
    cases i.reject with
    | some e => exact ⟨Pinned.refl _, hmay.1⟩
    | none =>
      cases happly : w.apply s'.tables with
      | error e => exact ⟨Pinned.refl _, hmay.1⟩
      | ok t =>
        obtain ⟨hstored, hpinned⟩ := h s' hr hmay.1 hmay.2 t happly
        exact ⟨hpinned, hstored, hmay.1.sent⟩

/-! Loads. -/

/-- Credentials that have been found while the clusters had the endpoints they were found with. -/
structure Found (t : Tables) (clusters : List ClusterRow) (credentials : List CredentialRow) : Prop where
  rows : ∀ cluster ∈ clusters, ∃ stored, t.clusters.get? cluster.id = some stored ∧ stored.endpoint = cluster.endpoint
  stored : ∀ c ∈ credentials, c ∈ t.credentials ∧ ∃ cluster ∈ clusters, cluster.id = c.clusterId

theorem Found.snapped {t : Tables} {clusters : List ClusterRow} {credentials : List CredentialRow}
    {cluster : ClusterRow} {c : CredentialRow} (h : Found t clusters credentials) (hcluster : cluster ∈ clusters)
    (hc : c ∈ credentials) (hown : c.clusterId = cluster.id) (hactive : c.isActive = true) : Snapped t cluster c :=
  ⟨h.rows cluster hcluster, Table.get?_of_mem (h.stored c hc).1, hactive, hown⟩

/-- The active credential of one cluster. -/
theorem Found.active {t : Tables} {cluster : ClusterRow} {credentials : List CredentialRow} {c : CredentialRow}
    (h : Found t [cluster] credentials) (hc : credentials.find? (·.isActive) = some c) : Snapped t cluster c := by
  have hmem := List.mem_of_find?_eq_some hc
  obtain ⟨q, hq, hown⟩ := (h.stored c hmem).2
  rw [List.mem_singleton.mp hq] at hown
  exact h.snapped List.mem_cons_self hmem hown.symm (List.find?_some hc)

/-- The second query of a load, of clusters that are still there. -/
theorem found_credentials {clusters : List ClusterRow} {s : Hosts} {i : Outside}
    (hrows : ∀ cluster ∈ clusters, ∃ row, s.tables.clusters.get? cluster.id = some row)
    (hfits : (ClusterOp.credentials clusters).Fits s) :
    Found s.tables clusters ((ClusterOp.credentials clusters).exec i s).2 := by
  refine ⟨fun cluster hcluster => ?_, fun c hc => ?_⟩
  · obtain ⟨row, hrow⟩ := hrows cluster hcluster
    exact ⟨row, hrow, hfits cluster hcluster row hrow⟩
  · obtain ⟨hmem, hany⟩ := Table.mem_select.mp hc
    obtain ⟨cluster, hcluster, hid⟩ := List.any_eq_true.mp hany
    exact ⟨hmem, cluster, hcluster, by simpa using hid⟩

theorem keeps_credentials {clusters : List ClusterRow} {s : Hosts}
    (h : ∀ cluster ∈ clusters, s.tables.clusters.get? cluster.id = some cluster) :
    Keeps cipher start past (op (.credentials clusters))
      (fun credentials t => Found t clusters credentials ∧ StoredKnown cipher start past t) s :=
  keeps_quiet (fun _ _ => rfl) fun _ _ hpinned hconfined hfits =>
    ⟨found_credentials (fun cluster hcluster => hpinned.clusters _ cluster (h cluster hcluster)) hfits,
      hconfined.stored⟩

theorem keeps_getCluster {id : Uuid} {s : Hosts} : Keeps cipher start past (getCluster id)
    (fun found t => found.1.id = id ∧ Found t [found.1] found.2 ∧ StoredKnown cipher start past t) s := by
  refine keeps_bind (keeps_quiet (fun _ _ => rfl) fun s' i _ _ _ s₁ hs₁ => ?_)
  dsimp only [ClusterOp.exec]
  cases hrow : s'.tables.clusters.get? id with
  | none => exact keeps_raise
  | some cluster =>
    have hid : cluster.id = id := Table.get?_key hrow
    refine keeps_bind (keeps_mono (fun credentials t hfound s₂ hs₂ => ?_) (keeps_credentials fun c hc => ?_))
    · exact keeps_pure ⟨hid, hs₂ ▸ hfound⟩
    · rw [List.mem_singleton.mp hc, hs₁, hid]
      exact hrow

theorem keeps_loadCluster {id : Uuid} {s : Hosts} : Keeps cipher start past (loadCluster id)
    (fun found t => found.1.id = id ∧ Snapped t found.1 found.2 ∧ StoredKnown cipher start past t) s := by
  refine keeps_bind (keeps_mono (fun found t hfound s₁ hs₁ => ?_) keeps_getCluster)
  refine keeps_bind (keeps_ofExcept fun credential hactive s₂ hs₂ => keeps_pure ?_)
  rw [hs₂, hs₁]
  exact ⟨hfound.1, hfound.2.1.active (orRaise_ok.mp hactive), hfound.2.2⟩

/-- The stored connection is known. -/
theorem connectionOf_known {t : Tables} {cluster : ClusterRow} {credential : CredentialRow} {c : Connection}
    (hknown : StoredKnown cipher start past t) (h : Snapped t cluster credential)
    (hc : connectionOf cipher cluster credential = .ok c) : Known cipher start past cluster.id c.pairing := by
  have hpairing := h.known hknown
  cases hsecret : ClusterService.decrypt cipher cluster.id credential with
  | error e =>
    unfold connectionOf at hc
    rw [hsecret] at hc
    cases hc
  | ok secret =>
    unfold connectionOf at hc
    rw [hsecret] at hc
    cases hc
    unfold pairingOf at hpairing
    rw [orRaise_ok.mp hsecret] at hpairing
    exact hpairing

/-- The connection an update goes for is known: its secret is given for what the update has found, or is what is
stored with it. -/
theorem connection_known {t : Tables} {m : ClusterMessage} {u : ClusterUpdate} {cluster : ClusterRow}
    {credential : CredentialRow} {c : Connection} (hm : m.request = .update cluster.id u) (hasked : past.asked m)
    (hknown : StoredKnown cipher start past t) (h : Snapped t cluster credential)
    (hfound : past.found m cluster.id (pairingOf cipher cluster credential))
    (hc : u.connection cipher cluster credential = .ok c) : Known cipher start past cluster.id c.pairing := by
  have hpairing := h.known hknown
  unfold ClusterUpdate.connection at hc
  cases hsecret : u.tokenSecret with
  | some secret =>
    rw [hsecret] at hc
    obtain ⟨_, -, hc⟩ := bind_ok.mp hc
    obtain ⟨_, -, hc⟩ := bind_ok.mp hc
    obtain ⟨s, hs, hc⟩ := bind_ok.mp hc
    cases hs
    cases hc
    exact .supplied hasked hm hsecret hfound
  | none =>
    rw [hsecret] at hc
    obtain ⟨_, -, hc⟩ := bind_ok.mp hc
    obtain ⟨_, hsame, hc⟩ := bind_ok.mp hc
    obtain ⟨s, hs, hc⟩ := bind_ok.mp hc
    cases hc
    have hunchanged : u.changesIdentity cluster credential = false := by simpa using hsame
    simp only [ClusterUpdate.changesIdentity, Bool.or_eq_false_iff, bne_eq_false_iff_eq] at hunchanged
    obtain ⟨⟨hurl, hca⟩, hidentifier⟩ := hunchanged
    unfold Connection.pairing
    rw [hurl, hca, hidentifier]
    unfold pairingOf at hpairing
    rw [orRaise_ok.mp hs] at hpairing
    exact hpairing

/-! The calls. -/

theorem keeps_assignConnection {u : ClusterUpdate} {c : Connection} {cluster : ClusterRow}
    {credential : CredentialRow} {s : Hosts} (hc : Known cipher start past cluster.id c.pairing)
    (h : Snapped s.tables cluster credential) :
    Keeps cipher start past (assignConnection cipher u c cluster credential) (fun _ _ => True) s := by
  unfold assignConnection
  by_cases htoken : u.givesToken = true
  · rw [if_pos htoken]
    refine keeps_bind (keeps_quiet (fun _ _ => rfl) fun s₁ i hpinned₁ _ _ s₂ hs₂ => ?_)
    refine keeps_bind (keeps_quiet (fun _ _ => rfl) fun s₃ i' hpinned₃ _ _ s₄ hs₄ => ?_)
    refine keeps_commit fun s₅ hpinned₅ hconfined _ t ht => ?_
    have hpinned : Pinned s.tables s₅.tables := by
      rw [hs₂] at hpinned₃
      rw [hs₄] at hpinned₅
      exact (hpinned₁.trans hpinned₃).trans hpinned₅
    unfold ClusterWrite.apply at ht
    dsimp only at ht
    cases hclusters : updateCluster s₅.tables.clusters ⟨cluster, u.onto c cluster, some (credential.id,
      replacement cipher c cluster.id ((ClusterOp.uuid4).exec i s₁).2 ((ClusterOp.nonce).exec i' s₃).2)⟩ with
    | none =>
      rw [hclusters] at ht
      cases ht
    | some clusters =>
      rw [hclusters] at ht
      dsimp only at ht
      split at ht
      · next credentials hreplace =>
        cases ht
        exact replaced_commit hconfined.stored h hpinned rfl rfl (Aead.decrypt_encrypt ..) hc hclusters hreplace
      · cases ht
  · rw [if_neg htoken]
    refine keeps_commit fun s₁ _ hconfined hfits t ht => ?_
    unfold ClusterWrite.apply at ht
    dsimp only at ht
    cases hclusters : updateCluster s₁.tables.clusters ⟨cluster, u.onto c cluster, none⟩ with
    | none =>
      rw [hclusters] at ht
      cases ht
    | some clusters =>
      rw [hclusters] at ht
      cases ht
      exact renamed_commit hconfined.stored hclusters (hfits rfl)

/-- What an update does with the cluster it has loaded. -/
def updateLoaded (cipher : Aead) (id : Uuid) (u : ClusterUpdate) (cluster : ClusterRow) (credential : CredentialRow) :
    ClusterProg Unit := do
  let connection ← ofExcept (u.connection cipher cluster credential)
  if u.changesConnection then do
    probe cluster.id connection
    let (cluster, credential) ← loadCluster id
    assignConnection cipher u connection cluster credential
  else assignConnection cipher u connection cluster credential

theorem keeps_updateLoaded {m : ClusterMessage} {u : ClusterUpdate} {cluster : ClusterRow}
    {credential : CredentialRow} {s : Hosts} (hm : m.request = .update cluster.id u) (hasked : past.asked m)
    (hknown : StoredKnown cipher start past s.tables) (hsnapped : Snapped s.tables cluster credential)
    (hfound : past.found m cluster.id (pairingOf cipher cluster credential)) :
    Keeps cipher start past (updateLoaded cipher cluster.id u cluster credential) (fun _ _ => True) s := by
  refine keeps_bind (keeps_ofExcept fun c hc s₂ hs₂ => ?_)
  have hconnection := connection_known hm hasked hknown hsnapped hfound hc
  by_cases hchanged : u.changesConnection = true
  · show Keeps cipher start past (if u.changesConnection then _ else _) _ s₂
    rw [if_pos hchanged]
    refine keeps_bind (keeps_mono (fun _ t₂ _ s₃ _ => ?_) (keeps_probe hconnection))
    refine keeps_bind (keeps_mono (fun found t₃ hloaded s₄ hs₄ => ?_) keeps_loadCluster)
    obtain ⟨cluster', credential'⟩ := found
    obtain ⟨hsame, hsnapped', -⟩ := hloaded
    exact keeps_assignConnection (hsame ▸ hconnection) (hs₄ ▸ hsnapped')
  · show Keeps cipher start past (if u.changesConnection then _ else _) _ s₂
    rw [if_neg hchanged]
    exact keeps_assignConnection hconnection (hs₂ ▸ hsnapped)

/-- What an update does after the first query of its first load. -/
def updateFinding (cipher : Aead) (id : Uuid) (u : ClusterUpdate) : Option ClusterRow → ClusterProg Unit
  | none => raise (.app clusterNotFound)
  | some cluster => .node (.credentials [cluster]) fun credentials => do
      let found ← (do
        let credential ← ofExcept (activeOf credentials)
        return (cluster, credential))
      updateLoaded cipher id u found.1 found.2

/-- The program of an update begins with the two queries of a load. -/
theorem program_update {m : ClusterMessage} {id : Uuid} {u : ClusterUpdate} (hm : m.request = .update id u)
    (hauthorized : m.authorized = .ok ()) : m.program cipher = .node (.cluster id) (updateFinding cipher id u) := by
  unfold ClusterMessage.program
  rw [hauthorized, hm]
  refine congrArg (Prog.node (ClusterOp.cluster id)) (funext fun row => ?_)
  cases row <;> rfl

theorem keeps_create {m : ClusterMessage} {id credentialId : Uuid} {request : ClusterCreate} {s : Hosts}
    (hm : m.request = .create id credentialId request) (hasked : past.asked m) :
    Keeps cipher start past (ClusterService.create cipher id credentialId request) (fun _ _ => True) s := by
  have hknown : Known cipher start past id ⟨normalizeUrl request.apiBaseUrl, request.caBundlePem,
    request.tokenIdentifier, some request.tokenSecret⟩ := .created hasked hm
  refine keeps_bind (keeps_mono (fun _ t _ s₁ _ => ?_) (keeps_probe hknown))
  refine keeps_bind (keeps_quiet (fun _ _ => rfl) fun s₂ i _ _ _ s₃ _ => ?_)
  refine keeps_commit fun s₄ _ hconfined _ t ht => ?_
  unfold ClusterWrite.apply at ht
  dsimp only at ht
  split at ht
  · next clusters credentials hclusters hcredentials =>
    cases ht
    exact created_commit hconfined.stored rfl rfl (Aead.decrypt_encrypt ..) hknown hclusters hcredentials
  · cases ht

theorem keeps_callResource {id : Uuid} {s : Hosts} :
    Keeps cipher start past (callResource cipher id) (fun _ _ => True) s := by
  refine keeps_bind (keeps_mono (fun c t (hc : Known cipher start past id c.pairing) s₁ _ => ?_)
    (keeps_bind (keeps_mono (fun found t hfound s₁ hs₁ => ?_) keeps_getCluster)))
  · exact keeps_mono (fun _ _ _ => trivial) (keeps_probe hc)
  · obtain ⟨cluster, credentials⟩ := found
    obtain ⟨hid, hfound, hknown⟩ := hfound
    show Keeps cipher start past (if cluster.isActive then _ else _) _ s₁
    split
    · refine keeps_bind (keeps_ofExcept fun credential hactive s₂ hs₂ => ?_)
      refine keeps_ofExcept fun c hc => ?_
      rw [← hid]
      exact connectionOf_known hknown (hfound.active (orRaise_ok.mp hactive)) hc
    · exact keeps_raise

theorem keeps_openClient {who : Opener} {id : Uuid} {s : Hosts} :
    Keeps cipher start past (openClient cipher who id) (fun _ _ => True) s := by
  refine keeps_bind (keeps_quiet (fun _ _ => rfl) fun s' i _ _ _ s₁ hs₁ => ?_)
  dsimp only [ClusterOp.exec]
  cases hrow : s'.tables.clusters.get? id with
  | none => exact keeps_raise
  | some cluster =>
    have hid : cluster.id = id := Table.get?_key hrow
    refine keeps_bind (keeps_mono (fun credentials t hfound s₂ hs₂ => ?_) (keeps_credentials fun c hc => ?_))
    · refine keeps_bind (keeps_ofExcept fun credential hactive s₃ _ => ?_)
      refine keeps_bind (keeps_ofExcept fun _ _ s₄ _ => ?_)
      refine keeps_bind (keeps_ofExcept fun c hc s₅ _ => ?_)
      have hknown := connectionOf_known hfound.2 (hfound.1.active (orRaise_ok.mp hactive)) hc
      exact keeps_mono (fun _ _ _ => trivial) (keeps_probe (hid ▸ hknown))
    · rw [List.mem_singleton.mp hc, hs₁, hid]
      exact hrow

theorem keeps_buildConsoleClient {id : Uuid} {s : Hosts} :
    Keeps cipher start past (buildConsoleClient cipher id) (fun _ _ => True) s := by
  refine keeps_bind (keeps_quiet (fun _ _ => rfl) fun s' i _ hconfined _ s₁ hs₁ => ?_)
  dsimp only [ClusterOp.exec]
  split
  · exact keeps_pure trivial
  · next cluster credential hjoined =>
    obtain ⟨row, hrow, hjoined⟩ := Option.bind_eq_some_iff.mp hjoined
    split at hjoined
    · obtain ⟨c, hc, hpair⟩ := Option.map_eq_some_iff.mp hjoined
      cases hpair
      have hid : cluster.id = id := Table.get?_key hrow
      obtain ⟨hmem, hboth⟩ := Table.first_some hc
      simp only [Bool.and_eq_true, beq_iff_eq] at hboth
      have hsnapped : Snapped s'.tables cluster credential :=
        ⟨⟨cluster, hid ▸ hrow, rfl⟩, Table.get?_of_mem hmem, hboth.2, hboth.1.trans hid.symm⟩
      refine keeps_bind (keeps_ofExcept fun c hc s₂ _ => ?_)
      have hknown := connectionOf_known hconfined.stored hsnapped hc
      exact keeps_mono (fun _ _ _ => trivial) (keeps_probe (hid ▸ hknown))
    · cases hjoined

theorem keeps_overview {t : Tables} {clusters : List ClusterRow} {credentials : List CredentialRow}
    (hknown : StoredKnown cipher start past t) (hfound : Found t clusters credentials) {cluster : ClusterRow}
    (hcluster : cluster ∈ clusters) {s : Hosts} :
    Keeps cipher start past (overview cipher credentials cluster) (fun _ _ => True) s := by
  unfold overview
  dsimp only
  cases hc : (activeOf (credentials.filter (fun c => c.clusterId == cluster.id))).bind (connectionOf cipher cluster) with
  | error e => exact keeps_pure trivial
  | ok c =>
    obtain ⟨credential, hactive, hc⟩ := bind_ok.mp hc
    have hfind := orRaise_ok.mp hactive
    obtain ⟨hmem, hown⟩ := List.mem_filter.mp (List.mem_of_find?_eq_some hfind)
    have hsnapped := hfound.snapped hcluster hmem (by simpa using hown) (List.find?_some hfind)
    have hconnection := connectionOf_known hknown hsnapped hc
    exact keeps_bind (keeps_mono (fun _ _ _ _ _ => keeps_pure trivial) (keeps_send hconnection))

theorem keeps_forM {l : List ClusterRow} {f : ClusterRow → ClusterProg Unit} {s : Hosts}
    (h : ∀ c ∈ l, ∀ s, Keeps cipher start past (f c) (fun _ _ => True) s) :
    Keeps cipher start past (l.forM f) (fun _ _ => True) s := by
  induction l generalizing s with
  | nil => exact keeps_pure trivial
  | cons c rest ih =>
    refine keeps_bind (keeps_mono (fun _ _ _ s₁ _ => ?_) (h c List.mem_cons_self s))
    exact ih fun c' hc' => h c' (List.mem_cons_of_mem c hc')

theorem keeps_resourceOverview {s : Hosts} :
    Keeps cipher start past (resourceOverview cipher) (fun _ _ => True) s := by
  refine keeps_bind (keeps_quiet (fun _ _ => rfl) fun s' i _ _ _ s₁ hs₁ => ?_)
  refine keeps_bind (keeps_mono (fun credentials t hfound s₂ _ => ?_) (keeps_credentials fun c hc => ?_))
  · exact keeps_forM fun c hc s => keeps_overview hfound.2 hfound.1 hc
  · rw [hs₁]
    exact Table.get?_of_mem (Table.mem_select.mp hc).1

/-- **Every request** but an update, from where its requests are known. -/
theorem keeps_program {m : ClusterMessage} {s : Hosts} (hasked : m.authorized = .ok () → past.asked m)
    (hother : ∀ id u, m.request ≠ .update id u) : Keeps cipher start past (m.program cipher) (fun _ _ => True) s := by
  refine keeps_bind (keeps_ofExcept fun _ hauthorized s₁ _ => ?_)
  have hasked := hasked hauthorized
  cases hm : m.request with
  | create id credentialId request => exact keeps_create hm hasked
  | update id u => exact absurd hm (hother id u)
  | call id => exact keeps_callResource
  | overview => exact keeps_resourceOverview
  | client who id => exact keeps_openClient
  | console id => exact keeps_buildConsoleClient

/-- What a process of a run knows: an update has to come through its first load. -/
inductive Standing (cipher : Aead) (start : Tables) (past : Past) (p : ClusterProg Unit) (s : Hosts) : Prop
  | going (keeps : Keeps cipher start past p (fun _ _ => True) s)
  | starting {m : ClusterMessage} {id : Uuid} {u : ClusterUpdate} (request : m.request = .update id u)
      (authorized : m.authorized = .ok ()) (asked : past.asked m) (program : p = m.program cipher)
  | finding {m : ClusterMessage} {u : ClusterUpdate} {cluster : ClusterRow}
      (request : m.request = .update cluster.id u) (authorized : m.authorized = .ok ()) (asked : past.asked m)
      (program : p = updateFinding cipher cluster.id u (some cluster))
      (row : ∃ row, s.tables.clusters.get? cluster.id = some row)

theorem standing_start {m : ClusterMessage} {s : Hosts} (hasked : m.authorized = .ok () → past.asked m) :
    Standing cipher start past (m.program cipher) s := by
  cases hm : m.request with
  | update id u =>
    cases hauthorized : m.authorized with
    | ok _ => exact .starting hm hauthorized (hasked hauthorized) rfl
    | error e =>
      refine .going (keeps_bind (keeps_ofExcept fun _ hok _ _ => ?_))
      rw [hauthorized] at hok
      cases hok
  | create | call | overview | client | console =>
    refine .going (keeps_program hasked fun id u h => ?_)
    rw [hm] at h
    cases h

/-- **One operation** of a request: the second query of an update's first load finds what the update's secret, if it
gives no more, is given for. -/
theorem standing_next {ρ : Type} {o : ClusterOp ρ} {rest : ρ → ClusterProg Unit} {i : Outside} {s : Hosts}
    (hI : Confined cipher start past s) (hL : Standing cipher start past (.node o rest) s)
    (hc : (pastConditions cipher past).step () (.node o rest) i s) :
    Confined cipher start past (o.exec i s).1 ∧ Pinned s.tables (o.exec i s).1.tables ∧
      Standing cipher start past (rest (o.exec i s).2) (o.exec i s).1 := by
  obtain ⟨hfits, hfound⟩ := hc
  cases hL with
  | going keeps =>
    obtain ⟨⟨hpinned, hconfined⟩, hrest⟩ := keeps s (Pinned.refl _) i () _ _ ⟨hI, hfits⟩ rfl
    exact ⟨hconfined, hpinned, .going hrest⟩
  | @starting m id u request authorized asked program =>
    cases program.trans (program_update request authorized)
    refine ⟨hI, Pinned.refl _, ?_⟩
    show Standing cipher start past (updateFinding cipher id u (s.tables.clusters.get? id)) s
    cases hrow : s.tables.clusters.get? id with
    | none => exact .going keeps_raise
    | some cluster =>
      cases Table.get?_key hrow
      exact .finding request authorized asked rfl ⟨cluster, hrow⟩
  | @finding m u cluster request authorized asked program row =>
    have hfinding : Finding cipher m cluster.id (.node o rest) :=
      ⟨_, cluster, program_update request authorized, program⟩
    cases program
    refine ⟨hI, Pinned.refl _, .going ?_⟩
    refine keeps_bind (keeps_bind (keeps_ofExcept fun credential hactive s₁ hs₁ => keeps_pure fun s₂ hs₂ => ?_))
    rw [hs₁] at hs₂
    have hloaded : Found s.tables [cluster] ((ClusterOp.credentials [cluster]).exec i s).2 :=
      found_credentials (fun c hc => by rw [List.mem_singleton.mp hc]; exact row) hfits
    have hsnapped := hloaded.active (orRaise_ok.mp hactive)
    have hpaired : Paired cipher s.tables cluster.id _ := hsnapped.paired
    have hpast := hfound m cluster.id hfinding _ hpaired
    exact keeps_updateLoaded request asked (by rw [hs₂]; exact hI.stored) (by rw [hs₂]; exact hsnapped) hpast

/-- The calls of a run form a protocol. -/
theorem clusterProtocol : Protocol (clusterMachine cipher) (pastConditions cipher past) (Confined cipher start past)
    (fun _ p s => Standing cipher start past p s) (fun s s' => Pinned s.tables s'.tables) where
  refl s := Pinned.refl s.tables
  start m s _ hasked := standing_start hasked
  step o rest i θ θ' s s' r hI hL hc hexec := by
    cases hexec
    exact standing_next hI hL hc
  drop _ _ s hI _ _ := ⟨hI, Pinned.refl _⟩
  env s s' hI he := by
    cases he
    exact ⟨hI, Pinned.refl _⟩
  stable _ p s s' hG hL := by
    cases hL with
    | going keeps => exact .going (wp_rely clusterContract_closed (fun _ _ _ _ _ _ _ _ => trivial) hG keeps)
    | starting request authorized asked program => exact .starting request authorized asked program
    | finding request authorized asked program row =>
      obtain ⟨row, hrow⟩ := row
      exact .finding request authorized asked program (hG.clusters _ row hrow)

end Programs

/-- A run has its own past. -/
theorem met_past {cipher : Aead} {tables : Tables} {actions : List ClusterAction}
    (h : Along (Sys.next (clusterMachine cipher)) clusterConditions.Met (Sys.idle ⟨tables, []⟩) actions) :
    Along (Sys.next (clusterMachine cipher)) (pastConditions cipher (pastOf cipher tables actions)).Met
      (Sys.idle ⟨tables, []⟩) actions := by
  refine h.of_prefix fun before a after hactions hmet => ?_
  cases a with
  | spawn pid m =>
    have hmem : .spawn pid m ∈ actions := by
      rw [hactions]
      exact List.mem_append_cons_self
    exact fun hauthorized => ⟨⟨pid, hmem⟩, hauthorized⟩
  | env f => exact hmet
  | crash pid => exact hmet
  | step pid i =>
    simp only [Conditions.Met] at hmet ⊢
    cases hp : (runFrom (Sys.next (clusterMachine cipher)) (Sys.idle ⟨tables, []⟩) before).procs pid with
    | none => trivial
    | some proc =>
      rw [hp] at hmet
      exact ⟨hmet, fun m id hfinding q hq => ⟨before, pid, i, after, proc.2, hactions, hp, hfinding, hq⟩⟩

/-- **Secrets stay with what they were given for**, in every run in which loads and updates
are not overtaken. -/
theorem secrets_confined (cipher : Aead) (tables : Tables) (actions : List ClusterAction)
    (h : Along (Sys.next (clusterMachine cipher)) clusterConditions.Met (Sys.idle ⟨tables, []⟩) actions) :
    Confined cipher tables (pastOf cipher tables actions) (systemAfter cipher tables actions).shared := by
  have hstart : Confined cipher tables (pastOf cipher tables actions) ⟨tables, []⟩ :=
    ⟨fun _ _ hp => .stored hp, fun _ hx => by cases hx⟩
  exact (clusterProtocol.holds_run (Sys.holds_idle hstart) (met_past h)).shared

/-- A cipher that leaves the text as it is. -/
def plainCipher : Aead where
  sealed _ text _ := text.toByteArray.data.toList
  opened _ bytes _ := String.fromUTF8? ⟨bytes.toArray⟩
  opened_sealed _ text _ := dif_pos text.isValidUTF8

/-- One cluster and its credential. -/
def oneCluster : Tables where
  clusters := .single ⟨1, "main", "https://old", none, true, 1⟩
  credentials := .single ⟨2, 1, "root@pam!master", plainCipher.encrypt 0 "first" 1 2, true⟩

def rootMessage (request : ClusterRequest) : ClusterMessage := ⟨⟨7, "root@pve", .superAdmin, 0⟩, request⟩

/-- The cluster moves, with a new secret. -/
def moving : ClusterMessage :=
  rootMessage (.update 1 { apiBaseUrl := some "https://new", tokenSecret := some "second" })

def clusterSteps (pid n : Nat) (i : Outside) : List ClusterAction := List.replicate n (.step pid i)

/-- The move alone, and a call over the new connection. -/
def movingRun : List ClusterAction :=
  .spawn 0 moving :: clusterSteps 0 9 { uuid := 3 } ++ .spawn 1 (rootMessage (.call 1)) :: clusterSteps 1 4 {}

theorem moving_confined : Confined plainCipher oneCluster (pastOf plainCipher oneCluster movingRun)
    (systemAfter plainCipher oneCluster movingRun).shared :=
  secrets_confined plainCipher oneCluster movingRun (by decide +kernel)

/-- An update that gives the URL the cluster has, overtaken by the move during its probe. -/
def overtakenRun : List ClusterAction :=
  .spawn 0 (rootMessage (.update 1 { apiBaseUrl := some "https://old" })) :: clusterSteps 0 3 {} ++
    .spawn 1 moving :: clusterSteps 1 9 { uuid := 3 } ++ clusterSteps 0 4 {} ++
    .spawn 2 (rootMessage (.call 1)) :: clusterSteps 2 4 {}

theorem overtaken_requests {m : ClusterMessage} (h : requested overtakenRun m) :
    m = rootMessage (.update 1 { apiBaseUrl := some "https://old" }) ∨ m = moving ∨ m = rootMessage (.call 1) := by
  obtain ⟨⟨pid, hm⟩, -⟩ := h
  simp only [overtakenRun, clusterSteps, List.mem_append, List.mem_cons, List.mem_replicate, List.cons_append,
    Action.spawn.injEq, reduceCtorEq, and_false, false_or, or_false] at hm
  rcases hm with ⟨-, hm⟩ | ⟨-, hm⟩ | ⟨-, hm⟩
  · exact Or.inl hm
  · exact Or.inr (Or.inl hm)
  · exact Or.inr (Or.inr hm)

/-- The second secret was given for the new URL only. -/
theorem second_known {id : Uuid} {p : Pairing}
    (h : Known plainCipher oneCluster (pastOf plainCipher oneCluster overtakenRun) id p) :
    p.tokenSecret = some "second" → p.apiBaseUrl = "https://new" := by
  cases h with
  | stored hp =>
    obtain ⟨cluster, hcluster, credential, hcredential, -, -, -, rfl⟩ := hp
    cases List.mem_singleton.mp hcluster
    cases List.mem_singleton.mp hcredential
    intro h
    exact absurd h (by decide +kernel)
  | created hasked hm =>
    rcases overtaken_requests hasked with rfl | rfl | rfl <;> cases hm
  | supplied hasked hm hs _ =>
    rcases overtaken_requests hasked with rfl | rfl | rfl
    · cases hm
      cases hs
    · cases hm
      intro _
      show normalizeUrl "https://new" = "https://new"
      decide
    · cases hm

theorem overtaken_misdirected : ¬ Confined plainCipher oneCluster (pastOf plainCipher oneCluster overtakenRun)
    (systemAfter plainCipher oneCluster overtakenRun).shared := by
  intro h
  have hsent : (1, (⟨"https://old", none, "root@pam!master", "second"⟩ : Connection)) ∈
      (systemAfter plainCipher oneCluster overtakenRun).shared.sent := by
    decide +kernel
  have hurl := second_known (h.sent _ hsent) rfl
  exact absurd hurl (by decide)

end PveMaster.Clusters
