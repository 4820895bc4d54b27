import PveMaster.Accounts.Administrators
import PveMaster.Accounts.Versions
import PveMaster.Administration.Organizations
import PveMaster.Administration.Versions
import PveMaster.Clusters.Confinement
import PveMaster.Clusters.Versions
import PveMaster.Ipam.Screening
import PveMaster.Ipam.Versions
import PveMaster.Requests.Targets

/-! Optimistic locking, of all that has a version and is updated by it.

Users, organizations and pools are locked while their versions are compared. Backup targets
and clusters are not: their updates are orderly as long as none is overtaken between the read
whose version it compares and its commit. -/
namespace PveMaster.Versions
open Prog Accounts Administration Pools BackupTargets Clusters

section Runs
variable {S ι μ : Type}

/-- Two requests, one statement of each in turn, so that each of them reads before the other one
commits. -/
def twoRequests (first second : μ) (i : ι) (n : Nat) : List (Action S ι (Nat × μ)) :=
  .spawn 0 (0, first) :: .spawn 1 (1, second) :: (List.replicate n [Action.step 0 i, .step 1 i]).flatten

end Runs

/-- A user is renamed and deleted, with one version. -/
def userRequests : List (Action (Store Accounts.Db Accounts.Row Flush AuthRequest × List (Update Accounts.Row))
    Accounts.Draws (Nat × AuthRequest)) :=
  twoRequests (.updateUser ⟨1, 0⟩ 3 ⟨some "Eve", none, none, some 1⟩) (.deleteUser ⟨1, 0⟩ 3 1) {} 12

/-- An organization is renamed and deleted, with one version. -/
def organizationRequests : List (Action (Store Estate Administration.Row AdminWrite AdminRequest ×
    List (Update Administration.Row)) Input (Nat × AdminRequest)) :=
  twoRequests ⟨administrator, .updateOrganization 1 ⟨some "renamed", none, 1⟩⟩
    ⟨administrator, .deleteOrganization 1 1⟩ (sampleInput "stopped") 12

def onePool : Db := { Db.empty with ipam := { Db.empty.ipam with pools := .single Ipam.linkLocalPool } }

/-- A pool is deleted twice. -/
def poolRequests : List (Action (Store Db Uuid PoolWrite PoolMessage × List (Update Uuid)) Unit (Nat × PoolMessage)) :=
  twoRequests ⟨Ipam.root, .delete 7 1⟩ ⟨Ipam.root, .delete 7 1⟩ () 12

def oneTarget : TargetTables := ⟨.single ⟨⟨1, 1, "backups", true⟩, 1⟩, []⟩

/-- A backup target is switched off, with one version, and on, with another. -/
def targetRequests (first second : Nat) :
    List (Action (Store TargetTables Uuid TargetWrite TargetMessage × List (Update Uuid)) Unit (Nat × TargetMessage)) :=
  twoRequests ⟨administrator, 1, ⟨false, first⟩⟩ ⟨administrator, 1, ⟨true, second⟩⟩ () 4

def newName : ClusterMessage := rootMessage (.update 1 { name := some "renamed", version := some 1 })

def sameUrl (version : Nat) : ClusterMessage :=
  rootMessage (.update 1 { apiBaseUrl := some "https://old", version := some version })

/-- A cluster is renamed while the probe of another update is under way. -/
def clusterRequests (version : Nat) : List (Action (Hosts × List (Update Uuid)) Outside ClusterMessage) :=
  .spawn 0 (sameUrl version) :: List.replicate 3 (.step 0 {}) ++
    .spawn 1 newName :: List.replicate 5 (.step 1 {}) ++ List.replicate 5 (.step 0 {})

end PveMaster.Versions
