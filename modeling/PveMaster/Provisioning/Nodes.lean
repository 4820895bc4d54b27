import PveMaster.Foundation.History
import PveMaster.Foundation.Parallel
import PveMaster.Provisioning.Edits
import PveMaster.Requests.Acceptances

/-! The capacity of nodes: who sets it, takes from it and gives back.

An administrator sets it (`upsert_node`) over whatever is there; a run takes from it under
the row's lock and gives back what its request has taken, if it fails before the clone. The
object of a node that a failing step has read is still the session's when the capacity is
given back, and what it was read with is what is added to (`releaseHeld`). -/
namespace PveMaster

/-! ### `upsert_node` -/

/-- `ProvisioningNodeUpsert`, whose validation asks for amounts that are not negative. -/
structure NodeUpsert where
  clusterId : Uuid
  name : String
  isEnabled : Bool
  isMaintenance : Bool
  availableMemoryBytes : Int
  availableStorageBytes : Int
  memory : 0 ≤ availableMemoryBytes
  storage : 0 ≤ availableStorageBytes

/-- What `upsert_node` can do at once. Between its query and its commit the node it has found can
change. -/
inductive NodeOp : Type → Type where
  | getCluster (id : Uuid) : NodeOp (Option Cluster)
  | findNode (clusterId : Uuid) (name : String) : NodeOp (Option ProvisioningNode)
  /-- The assignments to the node that was found, or to a new one, and their commit. -/
  | upsert (loaded : Option ProvisioningNode) (payload : NodeUpsert) : NodeOp (Except Exn ProvisioningNode)

/-- A node as `upsert_node` adds it: with the capacity that is asked for, and never selected yet.
-/
def newNode (id : Uuid) (p : NodeUpsert) : ProvisioningNode where
  id := id
  clusterId := p.clusterId
  name := p.name
  isEnabled := p.isEnabled
  isMaintenance := p.isMaintenance
  availableMemoryBytes := p.availableMemoryBytes
  availableStorageBytes := p.availableStorageBytes
  lastSelectedAt := none

/-- What is written to the row of a node that was loaded. -/
def ProvisioningNode.upsert (loaded : ProvisioningNode) (p : NodeUpsert) (stored : ProvisioningNode) :
    ProvisioningNode :=
  { stored with
    isEnabled := written loaded.isEnabled p.isEnabled stored.isEnabled
    isMaintenance := written loaded.isMaintenance p.isMaintenance stored.isMaintenance
    availableMemoryBytes :=
      written loaded.availableMemoryBytes p.availableMemoryBytes stored.availableMemoryBytes
    availableStorageBytes :=
      written loaded.availableStorageBytes p.availableStorageBytes stored.availableStorageBytes }

/-- `UniqueConstraint("cluster_id", "name")`. -/
def ProvisioningNode.clashes (n q : ProvisioningNode) : Bool := q.clusterId == n.clusterId && q.name == n.name

/-- The tables after the commit, and the node that is answered. Of a node that was found, the
columns that differ from what was loaded are written. -/
def upserted (id : Uuid) (loaded : Option ProvisioningNode) (p : NodeUpsert) (db : Db) :
    Except Exn (Db × ProvisioningNode) :=
  match loaded with
  | none => do
    let nodes ← orRaise (insertUnless ProvisioningNode.clashes db.nodes (newNode id p)) .integrity
    return ({ db with nodes := nodes }, newNode id p)
  | some l =>
    .ok ({ db with nodes := db.nodes.update l.id (l.upsert p) },
      { l with
        isEnabled := p.isEnabled
        isMaintenance := p.isMaintenance
        availableMemoryBytes := p.availableMemoryBytes
        availableStorageBytes := p.availableStorageBytes })

def NodeOp.exec {ρ : Type} (o : NodeOp ρ) (i : Input) (w : World) : World × ρ :=
  match o with
  | .getCluster id => (w, w.db.clusters.get? id)
  | .findNode clusterId name => (w, w.db.nodes.first (fun n => n.clusterId == clusterId && n.name == name))
  | .upsert loaded payload =>
    match i.reject with
    | some e => (w, .error e)
    | none =>
      match upserted (i.uuid 0) loaded payload w.db with
      | .ok (db, node) => (w.setDb db, .ok node)
      | .error e => (w, .error e)

structure UpsertMessage where
  principal : Principal
  payload : NodeUpsert

/-- `upsert_node`: the cluster must be active, and the node is found by its name and set, or
added. -/
def upsertNode (principal : Principal) (p : NodeUpsert) : Prog Exn NodeOp ProvisioningNode := do
  Prog.ofExcept (requireServiceRole principal [.superAdmin])
  let cluster ← Prog.op (.getCluster p.clusterId)
  match cluster.filter (·.isActive) with
  | none => Prog.raise (.app ⟨404, "CLUSTER_NOT_FOUND", "The cluster was not found.", []⟩)
  | some _ => do
    let node ← Prog.op (.findNode p.clusterId p.name)
    Prog.perform (.upsert node p)

def nodeMachine : Machine Exn NodeOp Unit World Input UpsertMessage where
  exec o i θ w := some (θ, (o.exec i w).1, (o.exec i w).2)
  start m := ((), do
    let _ ← upsertNode m.principal m.payload
    return ())
  drop _ w := w

/-! ### Runs that hold the object of a node -/

/-- A run, and the node its current step has read. The object stays in the session, and with it
what was read. -/
structure CapState where
  prov : ProvState
  held : Option ProvisioningNode := none

/-- What is given back to a row by a session that holds the node as it was read. -/
def ProvisioningNode.giveBack (held : ProvisioningNode) (memory disk : Int) (stored : ProvisioningNode) :
    ProvisioningNode :=
  { stored with
    availableMemoryBytes := written held.availableMemoryBytes (held.availableMemoryBytes + memory)
      stored.availableMemoryBytes
    availableStorageBytes := written held.availableStorageBytes (held.availableStorageBytes + disk)
      stored.availableStorageBytes }

/-- The node as the session has it, once its row is selected. -/
def CapState.nodeObject (θ : CapState) (stored : ProvisioningNode) : ProvisioningNode :=
  match θ.held with
  | some n => if n.id = stored.id then n else stored
  | none => stored

/-- `_release_node_capacity`, with the node the session holds: what is given back is added to what
it was read with, if it was read before. -/
def releaseHeld (settings : Settings) (i : Input) (θ : CapState) (w : World) :
    ProvState × World × Except Exn Unit :=
  match θ.prov.current.request with
  | none => (θ.prov, w, .error .sessionState)
  | some r =>
    if θ.prov.expired then (θ.prov, w, .error .sessionState)
    else if r.capacityReserved then
      match releasable w.db r with
      | .error e => (θ.prov, w, .error e)
      | .ok (node, memory, disk) =>
        let nodes := w.db.nodes.update node.id ((θ.nodeObject node).giveBack memory disk)
        (θ.prov.assign settings .capacityReleased).commit i w { w.db with nodes := nodes }
    else (θ.prov, w, .ok ())

def CapState.exec (settings : Settings) {ρ : Type} (o : ProvOp ρ) (i : Input) (θ : CapState) (w : World) :
    Option (CapState × World × ρ) :=
  match o with
  | .getNode id =>
    match θ.held with
    | some n => if n.id = id then some (θ, w, some n)
      else some ({ θ with held := w.db.nodes.get? id }, w, w.db.nodes.get? id)
    | none => some ({ θ with held := w.db.nodes.get? id }, w, w.db.nodes.get? id)
  | .releaseNodeCapacity =>
    let (prov, w, r) := releaseHeld settings i θ w
    some ({ θ with prov := prov }, w, r)
  | .commit (.stepStarted id name touched started) audit =>
    -- the objects of the step before are gone
    (ProvOp.exec settings (.commit (.stepStarted id name touched started) audit) i θ.prov w).map
      fun (prov, w, r) => ({ prov := prov, held := none }, w, r)
  | o => (ProvOp.exec settings o i θ.prov w).map fun (prov, w, r) => ({ θ with prov := prov }, w, r)

/-- The provisioning runner, with the nodes its sessions hold. -/
def capMachine (rt : Runtime) : Machine Exn ProvOp CapState World Input ProvMessage where
  exec o i θ w := θ.exec rt.settings o i w
  start m := ({ prov := { requestId := m.requestId, runnerId := m.runnerId } }, ProvisioningRunner.run rt)
  drop θ w := w.unlock θ.prov.runnerId

/-! ### The accounts -/

/-- What a request has taken from a node, and not given back. -/
structure Reservation where
  requestId : Uuid
  memory : Int
  disk : Int
  deriving DecidableEq

/-- A node since its capacity was last set: to what, and what is reserved of it. -/
structure Account where
  memory : Int
  disk : Int
  reserved : List Reservation

abbrev Accounts : Type := Uuid → Option Account

/-- The account of one node is replaced, as it is when an administrator sets its capacity. -/
def Accounts.set (a : Accounts) (id : Uuid) (account : Account) : Accounts :=
  fun k => if k = id then some account else a k

/-- A reservation on a node. -/
def Accounts.reserve (a : Accounts) (id : Uuid) (r : Reservation) : Accounts := fun k =>
  if k = id then (a k).map fun account => { account with reserved := r :: account.reserved } else a k

/-- The release of what a request has reserved, whether or not the account still has it. -/
def Accounts.release (a : Accounts) (id requestId : Uuid) : Accounts := fun k =>
  if k = id then
    (a k).map fun account => { account with reserved := account.reserved.filter (·.requestId ≠ requestId) }
  else a k

/-- The node a run is about to give the capacity of its request back to. -/
def CapState.releases (θ : CapState) : Option Uuid :=
  match θ.prov.current.request with
  | some r => if r.capacityReserved then r.targetNodeId else none
  | none => none

/-- What an operation of a run does to the accounts. -/
def ProvOp.note {ρ : Type} (o : ProvOp ρ) (θ : CapState) (r : ρ) (a : Accounts) : Accounts :=
  match ρ, o, r with
  | _, .selectTarget memory disk, .ok node => a.reserve node.id ⟨θ.prov.requestId, memory, disk⟩
  | _, .releaseNodeCapacity, .ok _ =>
    match θ.releases with
    | some id => a.release id θ.prov.requestId
    | none => a
  | _, _, _ => a

/-- And one of an administrator. -/
def NodeOp.note {ρ : Type} (o : NodeOp ρ) (r : ρ) (a : Accounts) : Accounts :=
  match ρ, o, r with
  | _, .upsert _ payload, .ok node =>
    a.set node.id ⟨payload.availableMemoryBytes, payload.availableStorageBytes, []⟩
  | _, _, _ => a

/-- The runs and the administrators, with the accounts of what they do. -/
def capacityMachine (rt : Runtime) : Machine Exn (SumOp ProvOp NodeOp) (CapState ⊕ Unit) (World × Accounts)
    Input (ProvMessage ⊕ UpsertMessage) :=
  ((capMachine rt).recording fun o θ _ r a => o.note θ r a).beside
    (nodeMachine.recording fun o _ _ r a => o.note r a)

end PveMaster
