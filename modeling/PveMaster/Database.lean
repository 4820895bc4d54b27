import PveMaster.Models.Ipam
import PveMaster.Models.Operation
import PveMaster.Models.Provisioning

/-! The committed database: every table the modelled services read or write.

The audit log is append-only, a list. The IPAM tables form a record of their own,
since only the IPAM service writes them. -/
namespace PveMaster

/-- The columns of `users` that services other than those of the accounts read. `sessionEpoch` is
compared with the epoch in an access token. -/
structure User where
  id : Uuid
  email : String
  role : UserRole
  isActive : Bool
  sessionEpoch : Int
  deriving DecidableEq

/-- The columns of `organizations` that requests about workloads read. -/
structure Organization where
  id : Uuid
  isActive : Bool
  deriving DecidableEq

/-- A user's membership of an organization. Who is no member of an organization has no access to
what it owns. -/
structure OrganizationMember where
  id : Uuid
  organizationId : Uuid
  userId : Uuid
  deriving DecidableEq

/-- The columns of `clusters` that the runners and the requests about workloads read; the services
that manage clusters have the rest in `PveMaster.Clusters.ClusterRow`. -/
structure Cluster where
  id : Uuid
  isActive : Bool
  deriving DecidableEq

/-- The columns of `cluster_credentials` that decide whether a cluster can be reached at all. -/
structure ClusterCredential where
  id : Uuid
  clusterId : Uuid
  isActive : Bool
  deriving DecidableEq

instance : Keyed User Uuid := ⟨User.id⟩
instance : Keyed Organization Uuid := ⟨Organization.id⟩
instance : Keyed OrganizationMember Uuid := ⟨OrganizationMember.id⟩
instance : Keyed Cluster Uuid := ⟨Cluster.id⟩
instance : Keyed ClusterCredential Uuid := ⟨ClusterCredential.id⟩

/-- The values of `audit_logs.outcome`. -/
inductive AuditOutcome where
  | attempted
  | succeeded
  | failed
  | manualReview
  deriving DecidableEq, Repr

/-- A row of `audit_logs`, without the columns that say where a request came from. The columns
before and after a change are those of `PveMaster.Audit.AuditLog`. -/
structure AuditLog where
  action : String
  outcome : AuditOutcome
  actorUserId : Option Uuid
  actorRole : Option UserRole
  organizationId : Option Uuid
  workloadId : Option Uuid
  operationId : Option Uuid
  pveUpid : Option String
  resourceType : String
  resourceId : Option Uuid
  errorCode : Option String
  deriving DecidableEq

/-- The tables only the IPAM service writes. -/
structure IpamTables where
  pools : Table IpPool
  exclusions : Table IpPoolExclusion
  addresses : Table IpAddress
  allocations : Table IpAllocation

def IpamTables.empty : IpamTables := ⟨.empty, .empty, .empty, .empty⟩

/-- What is committed. A session's reads see it, changed by what the session itself has flushed,
and a commit replaces it; nothing else of a transaction is visible to others. -/
structure Db where
  users : Table User
  organizations : Table Organization
  members : Table OrganizationMember
  clusters : Table Cluster
  credentials : Table ClusterCredential
  workloads : Table Workload
  assignments : Table WorkloadAssignment
  operations : Table Operation
  pveTasks : Table PveTask
  backupTargets : Table BackupTarget
  backupRuns : Table BackupRun
  restoreRuns : Table RestoreRun
  products : Table Product
  templates : Table Template
  nodes : Table ProvisioningNode
  requests : Table ProvisioningRequest
  steps : Table ProvisioningStep
  ipam : IpamTables
  auditLogs : List AuditLog

/-- The organization of a workload, if the workload is there: nothing where there is no such row,
and `some none` where the row belongs to no organization. -/
def Db.ownerOf (db : Db) (id : Uuid) : Option (Option Uuid) :=
  (db.workloads.get? id).map Workload.organizationId

def Db.empty : Db :=
  ⟨.empty, .empty, .empty, .empty, .empty, .empty, .empty, .empty, .empty, .empty, .empty, .empty,
    .empty, .empty, .empty, .empty, .empty, .empty, []⟩

end PveMaster
