import PveMaster.Clusters.Service
import PveMaster.Foundation.Versions

/-! The versions of the clusters.

`update` compares the version it carries with the cluster it loads first. An update with a new
connection then ends its transaction and probes, and loads the cluster again without comparing.
The history of the updates is orderly as long as every update is committed on the version it
carries (`orderly_clusters`). -/
namespace PveMaster.Clusters
open Prog ClusterService

def clusterVersion (t : Tables) (k : Uuid) : Option Nat := (t.clusters.get? k).map ClusterRow.version

/-- The cluster an update is meant for, with the version it carries. -/
def ClusterRequest.carried : ClusterRequest → Option (Uuid × Nat)
  | .update clusterId u => u.version.map (clusterId, ·)
  | _ => none

/-- What is recorded of a commit: the update, when the request carries a version. It has been computed
from the cluster that had this version. -/
def noteUpdate {ρ : Type} (o : ClusterOp ρ) (θ : Unit × ClusterMessage) (s : Hosts) (r : ρ) (h : List (Update Uuid)) :
    List (Update Uuid) :=
  match o, r with
  | .commit (.update change), .ok () =>
    match θ.2.request.carried, (ClusterWrite.update change).apply s.tables with
    | some (k, v), .ok t => h ++ [⟨k, v, v, clusterVersion s.tables k, clusterVersion t k⟩]
    | _, _ => h
  | _, _ => h

/-- The calls of the clusters, and the history of the updates. -/
def updatingMachine (cipher : Aead) :
    Machine Exn ClusterOp (Unit × ClusterMessage) (Hosts × List (Update Uuid)) Outside ClusterMessage :=
  (clusterMachine cipher).serving.recording noteUpdate

/-- An update is committed on the version it carries. -/
def ClusterOp.Current {ρ : Type} (o : ClusterOp ρ) (m : ClusterMessage) (s : Hosts) : Prop :=
  match o with
  | .commit (.update _) => ∀ kv ∈ m.request.carried, clusterVersion s.tables kv.1 = some kv.2
  | _ => True

/-- Every update carries a version; the rest of the platform lets versions grow. -/
def versionedUpdates :
    Conditions Exn ClusterOp (Unit × ClusterMessage) (Hosts × List (Update Uuid)) Outside ClusterMessage where
  spawn m _ :=
    match m.request with
    | .update _ u => u.version.isSome = true
    | _ => True
  env s s' := Grow (clusterVersion s.1.tables) (clusterVersion s'.1.tables) ∧ s'.2 = s.2

/-- Every update is committed on the version it carries. -/
def currentUpdates :
    Conditions Exn ClusterOp (Unit × ClusterMessage) (Hosts × List (Update Uuid)) Outside ClusterMessage :=
  { versionedUpdates with
    step := fun θ p _ s =>
      match p with
      | .node o _ => o.Current θ.2 s.1
      | .done _ => True }

/-! What a run without an action of the others asks for can be checked. -/

instance (m : ClusterMessage) (s : Hosts × List (Update Uuid)) : Decidable (versionedUpdates.spawn m s) := by
  unfold versionedUpdates
  dsimp only
  split <;> infer_instance

instance (θ : Unit × ClusterMessage) (p : Prog Exn ClusterOp Unit) (i : Outside) (s : Hosts × List (Update Uuid)) :
    Decidable (versionedUpdates.step θ p i s) := .isTrue trivial

instance (θ : Unit × ClusterMessage) (p : Prog Exn ClusterOp Unit) (s : Hosts × List (Update Uuid)) :
    Decidable (versionedUpdates.crash θ p s) := .isTrue trivial

instance (m : ClusterMessage) (s : Hosts × List (Update Uuid)) : Decidable (currentUpdates.spawn m s) :=
  inferInstanceAs (Decidable (versionedUpdates.spawn m s))

instance {ρ : Type} : (o : ClusterOp ρ) → (m : ClusterMessage) → (s : Hosts) → Decidable (o.Current m s)
  | .commit (.update _), m, s =>
    inferInstanceAs (Decidable (∀ kv ∈ m.request.carried, clusterVersion s.tables kv.1 = some kv.2))
  | .commit (.create _ _), _, _ => .isTrue trivial
  | .cluster _, _, _ => .isTrue trivial
  | .activeClusters, _, _ => .isTrue trivial
  | .credentials _, _, _ => .isTrue trivial
  | .joined _, _, _ => .isTrue trivial
  | .uuid4, _, _ => .isTrue trivial
  | .nonce, _, _ => .isTrue trivial
  | .send _ _, _, _ => .isTrue trivial

instance : (θ : Unit × ClusterMessage) → (p : Prog Exn ClusterOp Unit) → (i : Outside) →
    (s : Hosts × List (Update Uuid)) → Decidable (currentUpdates.step θ p i s)
  | θ, .node o _, _, s => inferInstanceAs (Decidable (o.Current θ.2 s.1))
  | _, .done _, _, _ => .isTrue trivial

instance (θ : Unit × ClusterMessage) (p : Prog Exn ClusterOp Unit) (s : Hosts × List (Update Uuid)) :
    Decidable (currentUpdates.crash θ p s) := .isTrue trivial

section Commits
variable {t t' : Tables}

theorem updated_clusters {change : ClusterChange} (h : (ClusterWrite.update change).apply t = .ok t') :
    t'.clusters = t.clusters.update change.loaded.id (ClusterRow.merge change.loaded change.current) := by
  simp only [ClusterWrite.apply] at h
  cases hupdate : updateCluster t.clusters change with
  | none =>
    rw [hupdate] at h
    cases hcredential : change.credential <;> rw [hcredential] at h <;> cases h
  | some clusters =>
    have hclusters : t'.clusters = clusters := by
      rw [hupdate] at h
      cases hcredential : change.credential with
      | none =>
        rw [hcredential] at h
        cases h
        rfl
      | some replaced =>
        rw [hcredential] at h
        dsimp only at h
        split at h
        · cases h
          rfl
        · cases h
    rw [hclusters]
    unfold updateCluster at hupdate
    dsimp only at hupdate
    split at hupdate
    · split at hupdate
      · cases hupdate
      · exact (Option.some.inj hupdate).symm
    · exact (Option.some.inj hupdate).symm

/-- The version of the cluster an update is committed on. -/
theorem version_updated {change : ClusterChange} {n : Nat} (h : (ClusterWrite.update change).apply t = .ok t')
    (hn : clusterVersion t change.loaded.id = some n) :
    clusterVersion t' change.loaded.id = some (written change.loaded.version change.current.version n) := by
  obtain ⟨row, hrow, rfl⟩ := Option.map_eq_some_iff.mp hn
  unfold clusterVersion
  rw [updated_clusters h, Table.get?_update_same hrow rfl]
  rfl

/-- The versions of the others. -/
theorem version_other {change : ClusterChange} {k : Uuid} (h : (ClusterWrite.update change).apply t = .ok t')
    (hk : k ≠ change.loaded.id) : clusterVersion t' k = clusterVersion t k := by
  unfold clusterVersion
  rw [updated_clusters h, Table.get?_update_of_ne _ hk]

/-- A cluster that is created leaves the versions of those that are there. -/
theorem grow_create {cluster : ClusterRow} {credential : CredentialRow}
    (h : (ClusterWrite.create cluster credential).apply t = .ok t') : Grow (clusterVersion t) (clusterVersion t') := by
  simp only [ClusterWrite.apply] at h
  split at h
  · next clusters credentials hclusters hcredentials =>
    cases h
    intro k n hn
    obtain ⟨row, hrow, rfl⟩ := Option.map_eq_some_iff.mp hn
    have hstays : clusters.get? k = some row := by
      have hmem := (Table.mem_insert (insertUnless_some hclusters).2).mpr (Or.inl (Table.get?_mem hrow))
      rw [← Table.get?_key hrow]
      exact Table.get?_of_mem hmem
    exact ⟨row.version, congrArg (Option.map ClusterRow.version) hstays, Nat.le_refl _⟩
  · cases h

end Commits

/-! ### Programs -/

section Programs
variable {cipher : Aead} {m : ClusterMessage} {α β : Type}

def updatesContract : Contract ClusterOp (Unit × ClusterMessage) (Hosts × List (Update Uuid)) Outside where
  may o _ θ s := Tracked (clusterVersion s.1.tables) s.2 ∧ o.Current θ.2 s.1
  rely s s' := Grow (clusterVersion s.1.tables) (clusterVersion s'.1.tables)
  guar s s' := Grow (clusterVersion s.1.tables) (clusterVersion s'.1.tables) ∧ Tracked (clusterVersion s'.1.tables) s'.2

theorem updatesContract_closed : updatesContract.Closed where
  refl _ := Grow.refl _
  trans _ _ _ h h' := Grow.trans h h'

/-- What a program of a request does, and what it knows of the versions at its end. -/
abbrev Counts (cipher : Aead) (m : ClusterMessage) (p : ClusterProg α) (Q : α → (Uuid → Option Nat) → Prop)
    (s : Hosts × List (Update Uuid)) : Prop :=
  wp (updatingMachine cipher) updatesContract p
    (fun r θ s => θ.2 = m ∧ ∀ a, r = .ok a → Q a (clusterVersion s.1.tables)) ((), m) s

theorem counts_bind {p : ClusterProg α} {f : α → ClusterProg β} {Q : β → (Uuid → Option Nat) → Prop}
    {s : Hosts × List (Update Uuid)}
    (h : Counts cipher m p (fun a stored => ∀ s, clusterVersion s.1.tables = stored → Counts cipher m (f a) Q s) s) :
    Counts cipher m (p >>= f) Q s := by
  refine wp_bind (wp_mono (fun r θ s hr => ?_) h)
  obtain ⟨⟨⟩, m'⟩ := θ
  obtain ⟨rfl, hr⟩ := hr
  cases r with
  | ok a => exact hr a rfl s rfl
  | error e => exact ⟨rfl, fun a ha => by cases ha⟩

theorem counts_ofExcept {r : Except Exn α} {Q : α → (Uuid → Option Nat) → Prop} {s : Hosts × List (Update Uuid)}
    (h : ∀ a, r = .ok a → Q a (clusterVersion s.1.tables)) : Counts cipher m (ofExcept r) Q s := ⟨rfl, h⟩

theorem exec_updating {ρ : Type} {o : ClusterOp ρ} {i : Outside} {θ θ' : Unit × ClusterMessage}
    {s s' : Hosts × List (Update Uuid)} {r : ρ} (h : (updatingMachine cipher).exec o i θ s = some (θ', s', r)) :
    θ' = θ ∧ s' = ((o.exec i s.1).1, noteUpdate o θ s.1 r s.2) ∧ r = (o.exec i s.1).2 := by
  cases h
  exact ⟨rfl, rfl, rfl⟩

/-- An operation that leaves the tables. -/
def ClusterOp.Still {ρ : Type} (o : ClusterOp ρ) : Prop :=
  match o with
  | .commit _ => False
  | _ => True

theorem still_exec {ρ : Type} {o : ClusterOp ρ} (ho : o.Still) (i : Outside) (s : Hosts) : (o.exec i s).1.tables = s.tables := by
  cases o with
  | commit w => exact ho.elim
  | _ => rfl

theorem still_note {ρ : Type} {o : ClusterOp ρ} (ho : o.Still) (θ : Unit × ClusterMessage) (s : Hosts) (r : ρ)
    (h : List (Update Uuid)) : noteUpdate o θ s r h = h := by
  cases o with
  | commit w => exact ho.elim
  | _ => rfl

theorem counts_still {ρ : Type} {o : ClusterOp ρ} {Q : ρ → (Uuid → Option Nat) → Prop} {s : Hosts × List (Update Uuid)}
    (ho : o.Still) (h : ∀ s' i, Grow (clusterVersion s.1.tables) (clusterVersion s'.tables) →
      Q (o.exec i s').2 (clusterVersion s'.tables)) : Counts cipher m (op o) Q s := by
  refine wp_op fun s' hr i θ' s'' r hmay hexec => ?_
  obtain ⟨rfl, rfl, rfl⟩ := exec_updating hexec
  have htables : clusterVersion ((o.exec i s'.1).1).tables = clusterVersion s'.1.tables := by rw [still_exec ho]
  refine ⟨?_, rfl, fun a ha => ?_⟩
  · show Grow _ (clusterVersion ((o.exec i s'.1).1).tables) ∧ Tracked (clusterVersion ((o.exec i s'.1).1).tables) _
    rw [htables, still_note ho]
    exact ⟨Grow.refl _, hmay.1⟩
  · cases ha
    show Q _ (clusterVersion ((o.exec i s'.1).1).tables)
    rw [htables]
    exact h s'.1 i hr

/-- A program that leaves the tables: the others let versions grow meanwhile. -/
theorem counts_only {p : ClusterProg α} (hp : p.Only ClusterOp.Still) {s : Hosts × List (Update Uuid)} :
    Counts cipher m p (fun _ stored => Grow (clusterVersion s.1.tables) stored) s := by
  refine wp_mono (fun r θ s' hJ => ?_) (wp_only (P := ClusterOp.Still)
    (J := fun θ s' => θ = ((), m) ∧ Grow (clusterVersion s.1.tables) (clusterVersion s'.1.tables))
    (fun θ s' s'' hr hJ => ⟨hJ.1, hJ.2.trans hr⟩) (fun o i θ θ' s' s'' r ho hJ hmay hexec => ?_) hp ⟨rfl, Grow.refl _⟩)
  · obtain ⟨rfl, hgrow⟩ := hJ
    exact ⟨rfl, fun _ _ => hgrow⟩
  · obtain ⟨rfl, rfl, rfl⟩ := exec_updating hexec
    have htables : clusterVersion ((o.exec i s'.1).1).tables = clusterVersion s'.1.tables := by rw [still_exec ho]
    show (Grow _ (clusterVersion ((o.exec i s'.1).1).tables) ∧ Tracked (clusterVersion ((o.exec i s'.1).1).tables) _) ∧
      _ ∧ Grow _ (clusterVersion ((o.exec i s'.1).1).tables)
    rw [htables, still_note ho]
    exact ⟨⟨Grow.refl _, hmay.1⟩, hJ⟩

theorem counts_mono {p : ClusterProg α} {Q Q' : α → (Uuid → Option Nat) → Prop} {s : Hosts × List (Update Uuid)}
    (h : ∀ a stored, Q a stored → Q' a stored) (hp : Counts cipher m p Q s) : Counts cipher m p Q' s :=
  wp_mono (fun _ _ _ hr => ⟨hr.1, fun a ha => h a _ (hr.2 a ha)⟩) hp

/-- What is known of a cluster that has been loaded. -/
structure Loaded (k : Uuid) (v : Nat) (cluster : ClusterRow) (stored : Uuid → Option Nat) : Prop where
  id : cluster.id = k
  ge : v ≤ cluster.version
  behind : ∃ n, stored k = some n ∧ cluster.version ≤ n

theorem Loaded.grow {k : Uuid} {v : Nat} {cluster : ClusterRow} {stored stored' : Uuid → Option Nat}
    (h : Loaded k v cluster stored) (hg : Grow stored stored') : Loaded k v cluster stored' := by
  obtain ⟨n, hn, hle⟩ := h.behind
  obtain ⟨n', hn', hle'⟩ := hg k n hn
  exact ⟨h.id, h.ge, n', hn', hle.trans hle'⟩

theorem counts_loadCluster {k : Uuid} {v : Nat} {s : Hosts × List (Update Uuid)}
    (h : ∀ stored, Grow (clusterVersion s.1.tables) stored → ∀ n, stored k = some n → v ≤ n) :
    Counts cipher m (loadCluster k) (fun found stored => Loaded k v found.1 stored) s := by
  have hget : Counts cipher m (getCluster k) (fun found stored => Loaded k v found.1 stored) s := by
    refine counts_bind (counts_still trivial fun s₁ i hgrow s₂ hs₂ => ?_)
    dsimp only [ClusterOp.exec]
    cases hrow : s₁.tables.clusters.get? k with
    | none => exact ⟨rfl, fun a ha => by cases ha⟩
    | some cluster =>
      have hversion : clusterVersion s₁.tables k = some cluster.version := congrArg (Option.map ClusterRow.version) hrow
      have hloaded : Loaded k v cluster (clusterVersion s₂.1.tables) :=
        ⟨Table.get?_key hrow, h _ hgrow _ hversion, cluster.version, by rw [hs₂]; exact hversion, Nat.le_refl _⟩
      refine counts_bind (counts_mono (fun credentials stored hgrow' s₃ hs₃ => ⟨rfl, fun a ha => ?_⟩)
        (counts_only (only_op (o := ClusterOp.credentials [cluster]) trivial)))
      cases ha
      rw [hs₃]
      exact hloaded.grow hgrow'
  refine counts_bind (counts_mono (fun found stored hloaded s₁ hs₁ => ?_) hget)
  refine counts_bind (counts_ofExcept fun credential _ s₂ hs₂ => ⟨rfl, fun a ha => ?_⟩)
  cases ha
  rw [hs₂, hs₁]
  exact hloaded

/-! The commits. -/

theorem counts_commit {w : ClusterWrite} {s : Hosts × List (Update Uuid)}
    (h : ∀ s' : Hosts × List (Update Uuid), Grow (clusterVersion s.1.tables) (clusterVersion s'.1.tables) →
      Tracked (clusterVersion s'.1.tables) s'.2 → (ClusterOp.commit w).Current m s'.1 → ∀ t, w.apply s'.1.tables = .ok t →
      Grow (clusterVersion s'.1.tables) (clusterVersion t) ∧
        Tracked (clusterVersion t) (noteUpdate (.commit w) ((), m) s'.1 (.ok ()) s'.2)) :
    Counts cipher m (commitOrConflict w) (fun _ _ => True) s := by
  refine counts_bind (wp_op fun s' hr i θ' s'' r hmay hexec => ?_)
  obtain ⟨rfl, rfl, rfl⟩ := exec_updating hexec
  refine ⟨?_, rfl, fun a _ s _ => ?_⟩
  · have hrefused (e : Refusal) : noteUpdate (.commit w) ((), m) s'.1 (.error e) s'.2 = s'.2 := by cases w <;> rfl
    unfold ClusterOp.exec
    dsimp only
    cases i.reject with
    | some e =>
      dsimp only
      rw [hrefused]
      exact ⟨Grow.refl _, hmay.1⟩
    | none =>
      cases happly : w.apply s'.1.tables with
      | error e =>
        dsimp only
        rw [hrefused]
        exact ⟨Grow.refl _, hmay.1⟩
      | ok t => exact h s' hr hmay.1 hmay.2 t happly
  · cases a with
    | ok _ => exact ⟨rfl, fun _ _ => trivial⟩
    | error e => cases e <;> exact ⟨rfl, fun a ha => by cases ha⟩

/-- **An update that is committed on the version it carries.** -/
theorem counts_updated {change : ClusterChange} {k : Uuid} {v : Nat} {s : Hosts × List (Update Uuid)}
    (hm : m.request.carried = some (k, v)) (hloaded : Loaded k v change.loaded (clusterVersion s.1.tables))
    (hnext : change.current.version = change.loaded.version + 1) :
    Counts cipher m (commitOrConflict (.update change)) (fun _ _ => True) s := by
  refine counts_commit fun s' hgrow ht hcurrent t happly => ?_
  have hstored : clusterVersion s'.1.tables k = some v := hcurrent (k, v) hm
  obtain ⟨hid, hge, n, hn, hle⟩ := hloaded.grow hgrow
  rw [hstored] at hn
  cases hn
  -- the cluster has been loaded at the version it still has
  have hsame : change.loaded.version = v := Nat.le_antisymm hle hge
  subst hid
  have hafter : clusterVersion t change.loaded.id = some (v + 1) := by
    rw [version_updated happly hstored, hnext, hsame, written_fresh]
  have hgrow' : Grow (clusterVersion s'.1.tables) (clusterVersion t) := by
    intro k n hn
    by_cases hk : k = change.loaded.id
    · subst hk
      rw [hstored] at hn
      cases hn
      exact ⟨v + 1, hafter, v.le_succ⟩
    · exact ⟨n, (version_other happly hk).trans hn, Nat.le_refl _⟩
  refine ⟨hgrow', ?_⟩
  have hnote : noteUpdate (.commit (.update change)) ((), m) s'.1 (.ok ()) s'.2 = s'.2 ++
      [⟨change.loaded.id, v, v, clusterVersion s'.1.tables change.loaded.id, clusterVersion t change.loaded.id⟩] := by
    simp only [noteUpdate, hm, happly]
  rw [hnote]
  exact ht.record hgrow' hstored hafter

/-! The requests. -/

theorem counts_quiet {p : ClusterProg Unit} (hp : p.Only ClusterOp.Still) {s : Hosts × List (Update Uuid)} :
    Counts cipher m p (fun _ _ => True) s := counts_mono (fun _ _ _ => trivial) (counts_only hp)

theorem only_probe (clusterId : Uuid) (c : Connection) : (probe clusterId c).Only ClusterOp.Still := by
  refine only_bind (only_op (o := ClusterOp.send clusterId c) trivial) fun r => ?_
  cases r <;> trivial

theorem counts_assignConnection {u : ClusterUpdate} {c : Connection} {cluster : ClusterRow} {credential : CredentialRow}
    {k : Uuid} {v : Nat} {s : Hosts × List (Update Uuid)} (hm : m.request.carried = some (k, v))
    (hloaded : Loaded k v cluster (clusterVersion s.1.tables)) :
    Counts cipher m (assignConnection cipher u c cluster credential) (fun _ _ => True) s := by
  unfold assignConnection
  by_cases htoken : u.givesToken = true
  · rw [if_pos htoken]
    refine counts_bind (counts_still (o := .uuid4) trivial fun s₁ i hgrow₁ s₂ hs₂ => ?_)
    refine counts_bind (counts_still (o := .nonce) trivial fun s₃ i hgrow₃ s₄ hs₄ => ?_)
    refine counts_updated hm ?_ rfl
    rw [hs₄]
    rw [hs₂] at hgrow₃
    exact (hloaded.grow hgrow₁).grow hgrow₃
  · rw [if_neg htoken]
    exact counts_updated hm hloaded rfl

/-- The version is compared with that of the cluster that is loaded first. -/
theorem version_of_connection {u : ClusterUpdate} {cluster : ClusterRow} {credential : CredentialRow} {c : Connection}
    {v : Nat} (hu : u.version = some v) (h : u.connection cipher cluster credential = .ok c) : cluster.version = v := by
  obtain ⟨_, hcompared, -⟩ := bind_ok.mp h
  have hsame := raiseIf_ok.mp hcompared
  rw [hu] at hsame
  by_contra hne
  exact hsame (by simpa using Ne.symm hne)

theorem counts_update {k : Uuid} {u : ClusterUpdate} {v : Nat} {s : Hosts × List (Update Uuid)}
    (hm : m.request = .update k u) (hu : u.version = some v) :
    Counts cipher m (ClusterService.update cipher k u) (fun _ _ => True) s := by
  have hcarried : m.request.carried = some (k, v) := by
    rw [hm]
    show u.version.map (k, ·) = some (k, v)
    rw [hu]
    rfl
  refine counts_bind (counts_mono (fun found stored hfound s₁ hs₁ => ?_)
    (counts_loadCluster (v := 0) fun _ _ _ _ => Nat.zero_le _))
  obtain ⟨cluster, credential⟩ := found
  refine counts_bind (counts_ofExcept fun c hc s₂ hs₂ => ?_)
  have hversion : cluster.version = v := version_of_connection hu hc
  have hloaded : Loaded k v cluster (clusterVersion s₂.1.tables) := by
    rw [hs₂, hs₁]
    exact ⟨hfound.id, hversion.ge, hfound.behind⟩
  by_cases hchanged : u.changesConnection = true
  · rw [if_pos hchanged]
    refine counts_bind (counts_mono (fun _ stored hgrow s₃ hs₃ => ?_) (counts_only (only_probe cluster.id c)))
    -- what is loaded again is not older, but may be newer
    have hleast (stored' : Uuid → Option Nat) (hgrow' : Grow (clusterVersion s₃.1.tables) stored') (n : Nat)
        (hn : stored' k = some n) : v ≤ n := by
      obtain ⟨-, -, n', hn', hle⟩ := (hloaded.grow (hs₃ ▸ hgrow)).grow hgrow'
      rw [hn] at hn'
      cases hn'
      exact hversion ▸ hle
    refine counts_bind (counts_mono (fun found stored' hfound' s₄ hs₄ => ?_) (counts_loadCluster hleast))
    exact counts_assignConnection hcarried (hs₄ ▸ hfound')
  · rw [if_neg hchanged]
    exact counts_assignConnection hcarried hloaded

theorem counts_create {clusterId credentialId : Uuid} {request : ClusterCreate} {s : Hosts × List (Update Uuid)} :
    Counts cipher m (create cipher clusterId credentialId request) (fun _ _ => True) s := by
  refine counts_bind (counts_mono (fun _ _ _ s₁ _ => ?_) (counts_only (only_probe _ _)))
  refine counts_bind (counts_still (o := .nonce) trivial fun s₂ i _ s₃ _ => ?_)
  exact counts_commit fun s₄ _ ht _ t happly => ⟨grow_create happly, ht.grow (grow_create happly)⟩

theorem only_getCluster (clusterId : Uuid) : (getCluster clusterId).Only ClusterOp.Still := by
  refine only_bind (only_op (o := ClusterOp.cluster clusterId) trivial) fun found => ?_
  cases found with
  | none => trivial
  | some cluster => exact only_bind (only_op (o := ClusterOp.credentials [cluster]) trivial) fun _ => trivial

theorem only_callResource (clusterId : Uuid) : (callResource cipher clusterId).Only ClusterOp.Still := by
  refine only_bind (only_bind (only_getCluster clusterId) fun found => ?_) fun c => only_probe clusterId c
  show Only _ (if found.1.isActive then _ else _)
  split
  · exact only_bind (only_done) fun credential => only_done
  · trivial

theorem only_resourceOverview : (resourceOverview cipher).Only ClusterOp.Still := by
  refine only_bind (only_op (o := ClusterOp.activeClusters) trivial) fun clusters => ?_
  refine only_bind (only_op (o := ClusterOp.credentials clusters) trivial) fun credentials => ?_
  induction clusters with
  | nil => trivial
  | cons cluster rest ih =>
    refine only_bind ?_ fun _ => ih
    unfold overview
    dsimp only
    split
    · next c _ => exact only_bind (only_op (o := ClusterOp.send cluster.id c) trivial) fun _ => trivial
    · trivial

theorem only_openClient (who : Opener) (clusterId : Uuid) : (openClient cipher who clusterId).Only ClusterOp.Still := by
  refine only_bind (only_op (o := ClusterOp.cluster clusterId) trivial) fun found => ?_
  cases found with
  | none => trivial
  | some cluster =>
    refine only_bind (only_op (o := ClusterOp.credentials [cluster]) trivial) fun credentials => ?_
    refine only_bind (only_done) fun credential => only_bind (only_done) fun _ => ?_
    exact only_bind (only_done) fun c => only_probe clusterId c

theorem only_buildConsoleClient (clusterId : Uuid) : (buildConsoleClient cipher clusterId).Only ClusterOp.Still := by
  refine only_bind (only_op (o := ClusterOp.joined clusterId) trivial) fun found => ?_
  cases found with
  | none => trivial
  | some found => exact only_bind (only_done) fun c => only_probe clusterId c

/-- **Every request** whose update carries a version. -/
theorem counts_program {s : Hosts × List (Update Uuid)} (hm : ∀ k u, m.request = .update k u → u.version.isSome = true) :
    Counts cipher m (m.program cipher) (fun _ _ => True) s := by
  refine counts_bind (counts_ofExcept fun _ _ s₁ _ => ?_)
  cases hrequest : m.request with
  | create clusterId credentialId request => exact counts_create
  | update clusterId u =>
    obtain ⟨v, hv⟩ := Option.isSome_iff_exists.mp (hm clusterId u hrequest)
    exact counts_update hrequest hv
  | call clusterId => exact counts_quiet (only_callResource clusterId)
  | overview => exact counts_quiet only_resourceOverview
  | client who clusterId => exact counts_quiet (only_openClient who clusterId)
  | console clusterId => exact counts_quiet (only_buildConsoleClient clusterId)

theorem updatesProtocol : Protocol (updatingMachine cipher) currentUpdates
    (fun s => Tracked (clusterVersion s.1.tables) s.2)
    (fun θ p s => wp (updatingMachine cipher) updatesContract p (fun _ _ _ => True) θ s)
    (fun s s' => Grow (clusterVersion s.1.tables) (clusterVersion s'.1.tables)) := by
  refine Protocol.of_wp_during (C := updatesContract) updatesContract_closed (fun _ _ h => h.1) (fun _ _ h _ => h.2)
    (fun _ _ _ _ _ _ => trivial) (fun m s _ hm => ?_) (fun o k i θ s hI hc => ⟨hI, hc⟩) (fun s s' hI he => ?_)
    (fun θ s hI => ⟨hI, Grow.refl (clusterVersion s.1.tables)⟩)
  · have hspawn : match m.request with
      | .update _ u => u.version.isSome = true
      | _ => True := hm
    have hcounts : Counts cipher m (m.program cipher) (fun _ _ => True) s := by
      refine counts_program fun k u hrequest => ?_
      rw [hrequest] at hspawn
      exact hspawn
    exact wp_mono (fun _ _ _ _ => trivial) hcounts
  · obtain ⟨hgrow, hhistory⟩ := he
    rw [hhistory]
    exact ⟨hI.grow hgrow, hgrow⟩

end Programs

/-- Every run of the clusters' calls under some conditions has an orderly history. -/
def OrderlyUpdateRuns (cipher : Aead)
    (c : Conditions Exn ClusterOp (Unit × ClusterMessage) (Hosts × List (Update Uuid)) Outside ClusterMessage) : Prop :=
  ∀ tables actions, Along (Sys.next (updatingMachine cipher)) c.Met (Sys.idle (⟨tables, []⟩, [])) actions →
    OrderlyUpdates (runFrom (Sys.next (updatingMachine cipher)) (Sys.idle (⟨tables, []⟩, [])) actions).shared.2

/-- **The updates of clusters are orderly** while each is committed on the version it carries. -/
theorem orderly_clusters (cipher : Aead) : OrderlyUpdateRuns cipher currentUpdates :=
  fun _ _ hmet => (updatesProtocol.holds_run (Sys.holds_idle (Tracked.nil _)) hmet).shared.orderly

end PveMaster.Clusters
