import PveMaster.Clusters.Inventory

/-! Clusters with their connections, and what `ClusterService` commits of them.

A cluster's URL and CA bundle are columns of its own row, the identifier and the secret of
its token are columns of its active credential; a credential's secret is never rewritten. -/
namespace PveMaster.Clusters

/-- AES-GCM under the key of the application: the ciphertext of a text for a nonce and the
data that goes with it. -/
structure Aead where
  sealed : (nonce : Nat) → (plaintext associatedData : String) → Bytes
  opened : (nonce : Nat) → Bytes → (associatedData : String) → Option String
  opened_sealed : ∀ nonce plaintext data, opened nonce (sealed nonce plaintext data) data = some plaintext

structure EncryptedCredential where
  ciphertext : Bytes
  nonce : Nat
  keyVersion : String
  deriving DecidableEq

/-- `CredentialCipher._associated_data`. -/
def associatedData (clusterId credentialId : Uuid) (keyVersion : String) : String :=
  String.ofList (Text.uuid clusterId ++ ':' :: Text.uuid credentialId ++ ':' :: keyVersion.toList)

/-- `CredentialCipher.encrypt`. -/
def Aead.encrypt (cipher : Aead) (nonce : Nat) (secret : String) (clusterId credentialId : Uuid) :
    EncryptedCredential where
  ciphertext := cipher.sealed nonce secret (associatedData clusterId credentialId "v1")
  nonce := nonce
  keyVersion := "v1"

/-- `CredentialCipher.decrypt`. -/
def Aead.decrypt (cipher : Aead) (e : EncryptedCredential) (clusterId credentialId : Uuid) : Option String :=
  cipher.opened e.nonce e.ciphertext (associatedData clusterId credentialId e.keyVersion)

@[simp] theorem Aead.decrypt_encrypt (cipher : Aead) (nonce : Nat) (secret : String) (clusterId credentialId : Uuid) :
    cipher.decrypt (cipher.encrypt nonce secret clusterId credentialId) clusterId credentialId = some secret :=
  cipher.opened_sealed _ _ _

/-! ### Rows -/

structure ClusterRow where
  id : Uuid
  name : String
  apiBaseUrl : String
  caBundlePem : Option String
  isActive : Bool
  version : Nat
  deriving DecidableEq

structure CredentialRow where
  id : Uuid
  clusterId : Uuid
  tokenIdentifier : String
  secret : EncryptedCredential
  isActive : Bool
  deriving DecidableEq

instance : Keyed ClusterRow Uuid := ⟨ClusterRow.id⟩
instance : Keyed CredentialRow Uuid := ⟨CredentialRow.id⟩

structure Tables where
  clusters : Table ClusterRow
  credentials : Table CredentialRow
  deriving DecidableEq

/-- Where a cluster is reached. -/
def ClusterRow.endpoint (c : ClusterRow) : String × Option String := (c.apiBaseUrl, c.caBundlePem)

/-- `UniqueConstraint` on `Cluster.name` and on `Cluster.api_base_url`. -/
def ClusterRow.clashes (c q : ClusterRow) : Bool := q.name == c.name || q.apiBaseUrl == c.apiBaseUrl

/-- `uq_cluster_credentials_active_cluster`. -/
def CredentialRow.clashes (c q : CredentialRow) : Bool :=
  c.isActive && q.isActive && q.clusterId == c.clusterId

/-! ### Commits -/

/-- The columns `update` writes, where they differ from what it has loaded. -/
def ClusterRow.merge (loaded current stored : ClusterRow) : ClusterRow :=
  { stored with
    name := written loaded.name current.name stored.name
    apiBaseUrl := written loaded.apiBaseUrl current.apiBaseUrl stored.apiBaseUrl
    caBundlePem := written loaded.caBundlePem current.caBundlePem stored.caBundlePem
    version := written loaded.version current.version stored.version }

def retired (c : CredentialRow) : CredentialRow := { c with isActive := false }

/-- What an update commits: the cluster as loaded and as assigned, and, if it was given a
token, the credential it retires and the one it adds. -/
structure ClusterChange where
  loaded : ClusterRow
  current : ClusterRow
  credential : Option (Uuid × CredentialRow)

/-- What a call commits. -/
inductive ClusterWrite where
  | create (cluster : ClusterRow) (credential : CredentialRow)
  | update (change : ClusterChange)

/-- The clusters after an update, if none of the others has the name or the URL. -/
def updateCluster (t : Table ClusterRow) (change : ClusterChange) : Option (Table ClusterRow) :=
  let stored := t.update change.loaded.id (ClusterRow.merge change.loaded change.current)
  match stored.get? change.loaded.id with
  | some row => if stored.rows.any (fun q => q.id != row.id && row.clashes q) then none else some stored
  | none => some stored

/-- The credentials after one has been retired for another. -/
def replaceCredential (t : Table CredentialRow) (old : Uuid) (new : CredentialRow) :
    Option (Table CredentialRow) :=
  insertUnless CredentialRow.clashes (t.update old retired) new

/-- The commit of a call. An update that replaces the credential flushes the cluster first. -/
def ClusterWrite.apply (t : Tables) : ClusterWrite → Except Refusal Tables
  | .create cluster credential =>
    match insertUnless ClusterRow.clashes t.clusters cluster,
      insertUnless CredentialRow.clashes t.credentials credential with
    | some clusters, some credentials => .ok ⟨clusters, credentials⟩
    | _, _ => .error .commit
  | .update change =>
    match updateCluster t.clusters change, change.credential with
    | none, none => .error .commit
    | none, some _ => .error .flush
    | some clusters, none => .ok ⟨clusters, t.credentials⟩
    | some clusters, some (old, new) =>
      match replaceCredential t.credentials old new with
      | some credentials => .ok ⟨clusters, credentials⟩
      | none => .error .commit

end PveMaster.Clusters
