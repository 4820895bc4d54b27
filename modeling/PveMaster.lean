import PveMaster.Foundation.Table
import PveMaster.Foundation.Process
import PveMaster.Foundation.RelyGuarantee
import PveMaster.Foundation.Budget
import PveMaster.Foundation.History
import PveMaster.Foundation.Parallel
import PveMaster.Foundation.Text
import PveMaster.Core
import PveMaster.Ipam.Address
import PveMaster.Ipam.Offsets
import PveMaster.Database
import PveMaster.Ipam.Service
import PveMaster.Ipam.Pools
import PveMaster.Ipam.Allocations
import PveMaster.Ipam.Invariant
import PveMaster.Ipam.Moves
import PveMaster.Ipam.Exclusivity
import PveMaster.Ipam.Addressing
import PveMaster.Ipam.Screening
import PveMaster.Ipam.Quarantine
import PveMaster.Operations.Session
import PveMaster.Operations.PowerRunner
import PveMaster.Operations.BackupRunner
import PveMaster.Operations.System
import PveMaster.Operations.Effects
import PveMaster.Operations.Finality
import PveMaster.Operations.Routing
import PveMaster.Operations.Conduct
import PveMaster.Operations.Snapshots
import PveMaster.Operations.Recording
import PveMaster.Operations.Submission
import PveMaster.Operations.Execution
import PveMaster.Operations.Truthfulness
import PveMaster.Operations.Deletion
import PveMaster.Operations.Assignments
import PveMaster.Provisioning.Session
import PveMaster.Provisioning.Runner
import PveMaster.Provisioning.System
import PveMaster.Provisioning.Effects
import PveMaster.Provisioning.Shape
import PveMaster.Provisioning.Fencing
import PveMaster.Requests.Session
import PveMaster.Requests.Json
import PveMaster.Requests.Operations
import PveMaster.Requests.Backups
import PveMaster.Requests.Workloads
import PveMaster.Requests.Provisioning
import PveMaster.Requests.System
import PveMaster.Requests.Acceptances
import PveMaster.Requests.Fingerprints
import PveMaster.Requests.Keys
import PveMaster.Operations.Mirror
import PveMaster.Platform.System
import PveMaster.Platform.Ownership
import PveMaster.Platform.Replay
import PveMaster.Foundation.Transactions
import PveMaster.Foundation.Chain
import PveMaster.Accounts.Model
import PveMaster.Accounts.Service
import PveMaster.Accounts.System
import PveMaster.Accounts.Invariant
import PveMaster.Accounts.Commits
import PveMaster.Accounts.Epochs
import PveMaster.Accounts.Rotation
import PveMaster.Accounts.Credentials
import PveMaster.Accounts.Administrators
import PveMaster.Foundation.Register
import PveMaster.Clusters.Inventory
import PveMaster.Clusters.Model
import PveMaster.Clusters.Service
import PveMaster.Clusters.Confinement
import PveMaster.Platform.Agreement
import PveMaster.Customers.Portal
import PveMaster.Customers.Console
import PveMaster.Customers.Isolation
import PveMaster.Administration.Model
import PveMaster.Administration.Service
import PveMaster.Administration.System
import PveMaster.Administration.Emptiness
import PveMaster.Administration.Runners
import PveMaster.Administration.Organizations
import PveMaster.Foundation.Like
import PveMaster.Administration.Directory
import PveMaster.Requests.Answers
import PveMaster.Provisioning.Secrets
import PveMaster.Provisioning.Passwords
import PveMaster.Provisioning.Disclosure
import PveMaster.Provisioning.Nodes
import PveMaster.Provisioning.Capacity
import PveMaster.Provisioning.Conservation
import PveMaster.Foundation.Parsing
import PveMaster.Console.Records
import PveMaster.Console.Websocket
import PveMaster.Console.Invariant
import PveMaster.Console.Runs
import PveMaster.Console.Grants
import PveMaster.Console.Slots
import PveMaster.Foundation.Limiting
import PveMaster.Console.RateLimit
import PveMaster.Ipam.Atomicity
import PveMaster.Ipam.Closing
import PveMaster.Observability.Pools
import PveMaster.Observability.Availability
import PveMaster.Foundation.Exposition
import PveMaster.Observability.Metrics
import PveMaster.Foundation.Batches
import PveMaster.Foundation.Solo
import PveMaster.Clusters.Import
import PveMaster.Customers.Views
import PveMaster.Operations.Specification
import PveMaster.Foundation.Scanning
import PveMaster.Foundation.Decimals
import PveMaster.Operations.Transfer
import PveMaster.Provisioning.Segments
import PveMaster.Provisioning.Networking
import PveMaster.Accounts.Versions
import PveMaster.Administration.Versions
import PveMaster.Ipam.Statements
import PveMaster.Ipam.Versions
import PveMaster.Foundation.Overwriting
import PveMaster.Clusters.Storages
import PveMaster.Foundation.Documents
import PveMaster.Audit.Redaction
import PveMaster.Audit.Log
import PveMaster.Audit.Retention
import PveMaster.Foundation.Words
import PveMaster.Foundation.Encodings
import PveMaster.Foundation.Base64
import PveMaster.Provisioning.SshKeys
import PveMaster.Browser.SshKeys
import PveMaster.Foundation.Forwarding
import PveMaster.Browser.AuthenticatedFetch
import PveMaster.Browser.Generations
import PveMaster.Browser.Refresh
import PveMaster.Requests.Targets
import PveMaster.Clusters.Versions
import PveMaster.Platform.Versions
import PveMaster.Foundation.Waiting
import PveMaster.Foundation.Serial
import PveMaster.Foundation.Paging
import PveMaster.Foundation.Product
import PveMaster.Accounts.Waiting
import PveMaster.Foundation.Fields
import PveMaster.Browser.KeyPair
import PveMaster.Ipam.Transactions
import PveMaster.Ipam.Serial
import PveMaster.Ipam.Waiting
import PveMaster.Platform.Waiting
import PveMaster.Foundation.Endpoints
import PveMaster.Proxmox.Client
import PveMaster.Console.Tickets
import PveMaster.Browser.Terminal
import PveMaster.Clusters.Disabling
