import PveMaster.Clusters.Model
import PveMaster.Foundation.RelyGuarantee

/-! `ClusterService.create` and `update`, and the calls that use a stored connection.

A cluster is loaded by two queries, one for its row and one for its credentials. `update`
computes the connection from what it loads first, ends its transaction for the probe, loads
the cluster again and assigns what it has computed. -/
namespace PveMaster.Clusters
open Prog

/-- What a secret is sent to, and the secret. -/
structure Connection where
  apiBaseUrl : String
  caBundlePem : Option String
  tokenIdentifier : String
  tokenSecret : String
  deriving DecidableEq

/-- The database, and the connections Proxmox clients have been made for, newest last. -/
structure Hosts where
  tables : Tables
  sent : List (Uuid × Connection)
  deriving DecidableEq

/-- What an action takes from outside: draws, the answer to a call, and a database error. -/
structure Outside where
  uuid : Uuid := 0
  nonce : Nat := 0
  answer : Except AppError Unit := .ok ()
  reject : Option Exn := none

inductive ClusterOp : Type → Type where
  | cluster (id : Uuid) : ClusterOp (Option ClusterRow)
  /-- The clusters `resource_overview` goes through. -/
  | activeClusters : ClusterOp (List ClusterRow)
  /-- The second query of a load: the credentials of the clusters the first one has found. -/
  | credentials (clusters : List ClusterRow) : ClusterOp (List CredentialRow)
  /-- An active cluster joined with its active credential. -/
  | joined (id : Uuid) : ClusterOp (Option (ClusterRow × CredentialRow))
  | uuid4 : ClusterOp Uuid
  /-- `os.urandom(12)`. -/
  | nonce : ClusterOp Nat
  /-- The calls made over one connection. -/
  | send (clusterId : Uuid) (c : Connection) : ClusterOp (Except AppError Unit)
  | commit (w : ClusterWrite) : ClusterOp (Except Refusal Unit)

abbrev ClusterProg (α : Type) := Prog Exn ClusterOp α

def ClusterOp.exec {ρ : Type} (o : ClusterOp ρ) (i : Outside) (s : Hosts) : Hosts × ρ :=
  match o with
  | .cluster id => (s, s.tables.clusters.get? id)
  | .activeClusters => (s, s.tables.clusters.select ClusterRow.isActive)
  | .credentials clusters =>
    (s, s.tables.credentials.select (fun c => clusters.any (·.id == c.clusterId)))
  | .joined id =>
    (s, (s.tables.clusters.get? id).bind fun cluster =>
      if cluster.isActive then
        (s.tables.credentials.first (fun c => c.clusterId == id && c.isActive)).map (cluster, ·)
      else none)
  | .uuid4 => (s, i.uuid)
  | .nonce => (s, i.nonce)
  | .send clusterId c => ({ s with sent := s.sent ++ [(clusterId, c)] }, i.answer)
  | .commit w =>
    match i.reject with
    | some e => (s, .error (.database e))
    | none =>
      match w.apply s.tables with
      | .ok tables => ({ s with tables := tables }, .ok ())
      | .error e => (s, .error e)

end Clusters

namespace ClusterService
open Prog Clusters

structure ClusterCreate where
  name : String
  apiBaseUrl : String
  tokenIdentifier : String
  tokenSecret : String
  caBundlePem : Option String

structure ClusterUpdate where
  name : Option String := none
  apiBaseUrl : Option String := none
  tokenIdentifier : Option String := none
  tokenSecret : Option String := none
  caBundlePem : Option String := none
  clearCaBundle : Bool := false
  version : Option Nat := none

/-- `_normalize_url`. -/
def normalizeUrl (url : String) : String :=
  String.ofList (url.toList.reverse.dropWhile (· == '/')).reverse

variable (cipher : Aead)

/-! ### Loading -/

/-- `_get_cluster`. -/
def getCluster (clusterId : Uuid) : ClusterProg (ClusterRow × List CredentialRow) := do
  match ← op (.cluster clusterId) with
  | none => raise (.app clusterNotFound)
  | some cluster => do
    let credentials ← op (.credentials [cluster])
    return (cluster, credentials)

/-- `_active_credential`, of the credentials of a cluster. -/
def activeOf (credentials : List CredentialRow) : Except Exn CredentialRow :=
  orRaise (credentials.find? (·.isActive)) (.app credentialMissing)

/-- The cluster, and its active credential. -/
def loadCluster (clusterId : Uuid) : ClusterProg (ClusterRow × CredentialRow) := do
  let (cluster, credentials) ← getCluster clusterId
  let credential ← ofExcept (activeOf credentials)
  return (cluster, credential)

/-- `_decrypt`. -/
def decrypt (clusterId : Uuid) (credential : CredentialRow) : Except Exn String :=
  orRaise (cipher.decrypt credential.secret clusterId credential.id)
    (.app ⟨500, "CREDENTIAL_DECRYPTION_FAILED",
      "The stored Proxmox credential could not be decrypted.", []⟩)

/-- The connection of a cluster, as it has been loaded. -/
def connectionOf (cluster : ClusterRow) (credential : CredentialRow) : Except Exn Connection := do
  let secret ← decrypt cipher cluster.id credential
  return ⟨cluster.apiBaseUrl, cluster.caBundlePem, credential.tokenIdentifier, secret⟩

def probe (clusterId : Uuid) (c : Connection) : ClusterProg Unit := do
  match ← op (.send clusterId c) with
  | .ok () => return ()
  | .error e => raise (.app e)

def clusterConflict : AppError :=
  ⟨409, "CLUSTER_CONFLICT", "A cluster with the same name or endpoint already exists.", []⟩

/-- `_commit_or_conflict`; a flush before it raises what the database does. -/
def commitOrConflict (w : ClusterWrite) : ClusterProg Unit := do
  match ← op (.commit w) with
  | .ok () => return ()
  | .error .flush => raise .integrity
  | .error .commit => raise (.appFrom clusterConflict)
  | .error (.database e) => raise e

/-! ### The calls -/

/-- `create`, with the identifiers it draws. -/
def create (clusterId credentialId : Uuid) (request : ClusterCreate) : ClusterProg Unit := do
  let connection : Connection :=
    ⟨normalizeUrl request.apiBaseUrl, request.caBundlePem, request.tokenIdentifier, request.tokenSecret⟩
  probe clusterId connection
  let nonce ← op .nonce
  commitOrConflict (.create
    { id := clusterId
      name := strip request.name
      apiBaseUrl := connection.apiBaseUrl
      caBundlePem := request.caBundlePem
      isActive := true
      version := 1 }
    { id := credentialId
      clusterId := clusterId
      tokenIdentifier := request.tokenIdentifier
      secret := cipher.encrypt nonce connection.tokenSecret clusterId credentialId
      isActive := true })

/-- `api_base_url`, `ca_bundle_pem` and `token_identifier` of an update, over what is stored. -/
def ClusterUpdate.url (u : ClusterUpdate) (stored : String) : String :=
  match u.apiBaseUrl with
  | some url => normalizeUrl url
  | none => stored

def ClusterUpdate.ca (u : ClusterUpdate) (stored : Option String) : Option String :=
  if u.clearCaBundle then none
  else match u.caBundlePem with
    | some pem => some pem
    | none => stored

def ClusterUpdate.identifier (u : ClusterUpdate) (stored : String) : String :=
  match u.tokenIdentifier with
  | some identifier => if identifier = "" then stored else identifier
  | none => stored

/-- `connection_identity_changed`. -/
def ClusterUpdate.changesIdentity (u : ClusterUpdate) (cluster : ClusterRow) (credential : CredentialRow) : Bool :=
  u.url cluster.apiBaseUrl != cluster.apiBaseUrl || u.ca cluster.caBundlePem != cluster.caBundlePem ||
    u.identifier credential.tokenIdentifier != credential.tokenIdentifier

/-- `connection_changed`. -/
def ClusterUpdate.changesConnection (u : ClusterUpdate) : Bool :=
  u.apiBaseUrl.isSome || u.caBundlePem.isSome || u.clearCaBundle || u.tokenIdentifier.isSome ||
    u.tokenSecret.isSome

/-- Whether the credential is replaced. -/
def ClusterUpdate.givesToken (u : ClusterUpdate) : Bool := u.tokenIdentifier.isSome || u.tokenSecret.isSome

/-- The cluster with what an update assigns to it. -/
def ClusterUpdate.onto (u : ClusterUpdate) (c : Connection) (cluster : ClusterRow) : ClusterRow :=
  { cluster with
    name := match u.name with
      | some name => strip name
      | none => cluster.name
    apiBaseUrl := c.apiBaseUrl
    caBundlePem := c.caBundlePem
    version := cluster.version + 1 }

/-- The connection an update goes for, or why it does not. -/
def ClusterUpdate.connection (u : ClusterUpdate) (cluster : ClusterRow) (credential : CredentialRow) :
    Except Exn Connection := do
  raiseIf (u.version.any (· != cluster.version) = true)
    (.app ⟨409, "CLUSTER_VERSION_CONFLICT", "The cluster was modified by another request.", []⟩)
  raiseIf (u.changesIdentity cluster credential = true ∧ u.tokenSecret = none)
    (.app ⟨422, "PVE_CREDENTIAL_REENTRY_REQUIRED",
      "The Proxmox token secret must be re-entered when connection details change.", []⟩)
  let secret ← match u.tokenSecret with
    | some secret => Except.ok secret
    | none => decrypt cipher cluster.id credential
  return ⟨u.url cluster.apiBaseUrl, u.ca cluster.caBundlePem, u.identifier credential.tokenIdentifier, secret⟩

/-- The credential an update puts in the place of the one it has loaded. -/
def replacement (c : Connection) (clusterId credentialId : Uuid) (nonce : Nat) : CredentialRow where
  id := credentialId
  clusterId := clusterId
  tokenIdentifier := c.tokenIdentifier
  secret := cipher.encrypt nonce c.tokenSecret clusterId credentialId
  isActive := true

/-- What `update` does to the cluster as it has it in the end. -/
def assignConnection (u : ClusterUpdate) (c : Connection) (cluster : ClusterRow) (credential : CredentialRow) :
    ClusterProg Unit := do
  if u.givesToken then do
    let credentialId ← op .uuid4
    let nonce ← op .nonce
    commitOrConflict (.update ⟨cluster, u.onto c cluster,
      some (credential.id, replacement cipher c cluster.id credentialId nonce)⟩)
  else commitOrConflict (.update ⟨cluster, u.onto c cluster, none⟩)

def update (clusterId : Uuid) (u : ClusterUpdate) : ClusterProg Unit := do
  let (cluster, credential) ← loadCluster clusterId
  let connection ← ofExcept (u.connection cipher cluster credential)
  if u.changesConnection then do
    probe cluster.id connection
    let (cluster, credential) ← loadCluster clusterId
    assignConnection cipher u connection cluster credential
  else assignConnection cipher u connection cluster credential

/-- `_connection_snapshot`. -/
def connectionSnapshot (clusterId : Uuid) : ClusterProg Connection := do
  let (cluster, credentials) ← getCluster clusterId
  if cluster.isActive then do
    let credential ← ofExcept (activeOf credentials)
    ofExcept (connectionOf cipher cluster credential)
  else raise (.app clusterDisabled)

/-- `_call_resource`, and the other calls over the stored connection. -/
def callResource (clusterId : Uuid) : ClusterProg Unit := do
  let connection ← connectionSnapshot cipher clusterId
  probe clusterId connection

/-- What `resource_overview` sends for one cluster; a cluster without a usable credential is
passed over. -/
def overview (credentials : List CredentialRow) (cluster : ClusterRow) : ClusterProg Unit := do
  let own := credentials.filter (fun c => c.clusterId == cluster.id)
  match (activeOf own).bind (connectionOf cipher cluster) with
  | .ok connection => discard (op (.send cluster.id connection))
  | .error _ => return ()

/-- `resource_overview`. -/
def resourceOverview : ClusterProg Unit := do
  let clusters ← op .activeClusters
  let credentials ← op (.credentials clusters)
  clusters.forM (overview cipher credentials)

/-! ### Others that use a stored connection -/

/-- Who opens clients of its own. -/
inductive Opener where
  | power
  | provisioning
  | backup
  | restore
  | backups
  deriving DecidableEq

/-- What there is to say when the cluster or its credential is missing. -/
def Opener.unavailable : Opener → AppError
  | .power => ⟨409, "CLUSTER_UNAVAILABLE", "The workload cluster is unavailable.", []⟩
  | .provisioning => ⟨409, "CLUSTER_UNAVAILABLE", "The cluster is unavailable.", []⟩
  | .backup => ⟨409, "CLUSTER_UNAVAILABLE", "The workload cluster is unavailable.", []⟩
  | .restore => ⟨409, "CLUSTER_UNAVAILABLE", "The restore cluster is unavailable.", []⟩
  | .backups => ⟨409, "CLUSTER_CREDENTIAL_MISSING", "The cluster has no credential.", []⟩

/-- `_open_client` with the load of the cluster before it, and the calls over the client. -/
def openClient (who : Opener) (clusterId : Uuid) : ClusterProg Unit := do
  match ← op (.cluster clusterId) with
  | none => raise (.app who.unavailable)
  | some cluster => do
    let credentials ← op (.credentials [cluster])
    let credential ← ofExcept (orRaise (credentials.find? (·.isActive)) (.app who.unavailable))
    ofExcept (raiseIf (cluster.isActive = false) (.app who.unavailable))
    let connection ← ofExcept (connectionOf cipher cluster credential)
    probe clusterId connection

/-- `build_console_client`, and the calls over the client. -/
def buildConsoleClient (clusterId : Uuid) : ClusterProg Unit := do
  match ← op (.joined clusterId) with
  | none => return ()
  | some (cluster, credential) => do
    let connection ← ofExcept (connectionOf cipher cluster credential)
    probe clusterId connection

end ClusterService

namespace Clusters
open Prog

inductive ClusterRequest where
  | create (clusterId credentialId : Uuid) (request : ClusterService.ClusterCreate)
  | update (clusterId : Uuid) (u : ClusterService.ClusterUpdate)
  /-- A call over the stored connection. -/
  | call (clusterId : Uuid)
  | overview
  | client (who : ClusterService.Opener) (clusterId : Uuid)
  | console (clusterId : Uuid)

/-- A request, by whom it is made. -/
structure ClusterMessage where
  principal : Principal
  request : ClusterRequest

/-- Whether a request is one to the clusters' own routes. -/
def ClusterRequest.administrative : ClusterRequest → Bool
  | .client _ _ => false
  | .console _ => false
  | _ => true

/-- What the routes of the clusters ask of the principal. -/
def ClusterMessage.authorized (m : ClusterMessage) : Except Exn Unit :=
  if m.request.administrative then requireServiceRole m.principal [.superAdmin, .operator] else .ok ()

def ClusterRequest.program (cipher : Aead) : ClusterRequest → ClusterProg Unit
  | .create clusterId credentialId request => ClusterService.create cipher clusterId credentialId request
  | .update clusterId u => ClusterService.update cipher clusterId u
  | .call clusterId => ClusterService.callResource cipher clusterId
  | .overview => ClusterService.resourceOverview cipher
  | .client who clusterId => ClusterService.openClient cipher who clusterId
  | .console clusterId => ClusterService.buildConsoleClient cipher clusterId

def ClusterMessage.program (cipher : Aead) (m : ClusterMessage) : ClusterProg Unit := do
  ofExcept m.authorized
  m.request.program cipher

def clusterMachine (cipher : Aead) : Machine Exn ClusterOp Unit Hosts Outside ClusterMessage where
  exec o i θ s := some (θ, (o.exec i s).1, (o.exec i s).2)
  start m := ((), m.program cipher)
  drop _ s := s

abbrev ClusterAction : Type := Action Hosts Outside ClusterMessage

end PveMaster.Clusters
