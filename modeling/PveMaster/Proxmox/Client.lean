import PveMaster.Proxmox
import PveMaster.Console.Records
import PveMaster.Customers.Views
import PveMaster.Foundation.Endpoints

/-! `ProxmoxClient`: the calls as HTTP requests.

A path names a node, a guest, a task or a storage, and each name is quoted. What a call asks for is read back
from what is handed to the HTTP client (`read_encode`), so calls that are handed over as one request are one call,
under two of the names the client has for it (`sent_apart`); and the calls that change nothing are the `GET` requests.
What the HTTP client makes of a path, as where a quoted name is `.` or `..`, which quoting leaves as it is, lies
beyond. -/
namespace PveMaster.Proxmox
open Encoding Console

inductive Method where
  | get | post | put | delete
  deriving DecidableEq, Repr

/-- What is handed to the HTTP client. -/
structure HttpRequest where
  method : Method
  path : List Char
  params : List (String × String) := []
  data : List (String × String) := []
  deriving DecidableEq, Repr

/-- The methods of the client and their arguments: those of the runners, and those of the synchronization and
the consoles. -/
inductive Call where
  | runner (r : Request)
  | getVersion
  | getNodeStatus (node : String)
  | getNodeRrdData (node timeframe : String)
  | getStorages
  | getStorageConfigurations
  | getNodeStorages (node : String)
  | createConsoleProxy (kind : WorkloadKind) (node : String) (vmid : Int)
  deriving DecidableEq

/-! ### Writing -/

def apiPath (segments : List (List Char)) : List Char := path ("api2".toList :: "json".toList :: segments)

/-- `/api2/json/nodes/{quote(node)}/…`. -/
def nodePath (node : String) (segments : List (List Char)) : List Char :=
  apiPath ("nodes".toList :: quoteText node :: segments)

/-- `/api2/json/nodes/{quote(node)}/{guest_type}/{vmid}/…`. -/
def guestPath (kind : WorkloadKind) (node : String) (vmid : Int) (segments : List String) : List Char :=
  nodePath node (kind.guestType.toList :: Text.integer vmid :: segments.map String.toList)

/-- The parameters `configure_qemu` takes. -/
def allowedValues : List String :=
  ["cores", "memory", "net0", "ipconfig0", "nameserver", "ciuser", "cipassword", "sshkeys"]

/-- The public keys are quoted, once more than the form is. -/
def quotedValue (v : String × String) : String × String :=
  if v.1 = "sshkeys" then (v.1, String.ofList (quoteText v.2)) else v

def powerRequest (kind : WorkloadKind) (node : String) (vmid : Int) (action : PowerAction) : Except Exn HttpRequest := do
  raiseIf (kind = .lxc ∧ action = .reset) .valueError
  return { method := .post, path := guestPath kind node vmid ["status", action.value] }

def resizeRequest (kind : WorkloadKind) (node : String) (vmid : Int) (disk : String) (sizeBytes : Int) : HttpRequest where
  method := .put
  path := guestPath kind node vmid ["resize"]
  data := [("disk", disk), ("size", intText sizeBytes)]

def statusRequest (kind : WorkloadKind) (node : String) (vmid : Int) : HttpRequest where
  method := .get
  path := guestPath kind node vmid ["status", "current"]

/-- The request a method of the client sends, unless it refuses its arguments. -/
def encodeRequest : Request → Except Exn HttpRequest
  | .getGuests => return { method := .get, path := apiPath ["cluster".toList, "resources".toList], params := [("type", "vm")] }
  | .getNodes => return { method := .get, path := apiPath ["nodes".toList] }
  | .getTaskStatus node upid =>
    return { method := .get, path := nodePath node ["tasks".toList, quoteText upid, "status".toList] }
  | .getTaskLog node upid => do
    raiseIf (upid = "" ∨ 2048 < upid.length) .valueError
    return { method := .get, path := nodePath node ["tasks".toList, quoteText upid, "log".toList]
             params := [("start", "0"), ("limit", "500")] }
  | .getGuestStatus kind node vmid => return statusRequest kind node vmid
  | .getGuestConfig kind node vmid => return { method := .get, path := guestPath kind node vmid ["config"] }
  | .getVmStatus node vmid => return statusRequest .qemu node vmid
  | .getBackupContent node storage vmid => do
    raiseIf (vmid ≤ 0 ∨ storage = "" ∨ 255 < storage.length) .valueError
    return { method := .get, path := nodePath node ["storage".toList, quoteText storage, "content".toList]
             params := [("content", "backup"), ("vmid", intText vmid)] }
  | .submitGuestPowerAction kind node vmid action => powerRequest kind node vmid action
  | .configureGuest kind node vmid cores memoryMib =>
    return { method := .put, path := guestPath kind node vmid ["config"]
             data := [("cores", intText cores), ("memory", intText memoryMib)] }
  | .resizeGuestDisk kind node vmid disk sizeBytes => return resizeRequest kind node vmid disk sizeBytes
  | .deleteGuest kind node vmid => return { method := .delete, path := guestPath kind node vmid [] }
  | .submitGuestBackup node vmid storage mode compression => do
    raiseIf (mode ≠ "snapshot" ∨ compression ≠ "zstd") .valueError
    raiseIf (vmid ≤ 0 ∨ storage = "" ∨ 255 < storage.length) .valueError
    return { method := .post, path := nodePath node ["vzdump".toList]
             data := [("vmid", intText vmid), ("storage", storage), ("mode", mode), ("compress", compression)] }
  | .submitGuestRestore kind node archive vmid name => do
    raiseIf (vmid < 100 ∨ archive = "" ∨ 1024 < archive.length ∨ name = "" ∨ 63 < name.length) .valueError
    let target := match kind with
      | .qemu => [("archive", archive), ("name", name), ("unique", "1")]
      | .lxc => [("ostemplate", archive), ("hostname", name), ("restore", "1")]
    return { method := .post, path := nodePath node [kind.guestType.toList]
             data := [("vmid", intText vmid), ("start", "0")] ++ target }
  | .cloneQemuTemplate sourceNode sourceVmid targetNode targetVmid name storage =>
    return { method := .post, path := guestPath .qemu sourceNode sourceVmid ["clone"]
             data := [("newid", intText targetVmid), ("node", targetNode), ("name", name), ("storage", storage), ("full", "1")] }
  | .configureQemu node vmid values => do
    raiseIf (values = [] ∨ ¬ ∀ v ∈ values, v.1 ∈ allowedValues) .valueError
    return { method := .put, path := guestPath .qemu node vmid ["config"], data := values.map quotedValue }
  | .resizeQemuDisk node vmid disk sizeBytes => return resizeRequest .qemu node vmid disk sizeBytes
  | .submitVmPowerAction node vmid action =>
    match PowerAction.ofValue action with
    | some action => powerRequest .qemu node vmid action
    | none => .error .valueError

def encode : Call → Except Exn HttpRequest
  | .runner r => encodeRequest r
  | .getVersion => return { method := .get, path := apiPath ["version".toList] }
  | .getNodeStatus node => return { method := .get, path := nodePath node ["status".toList] }
  | .getNodeRrdData node timeframe =>
    return { method := .get, path := nodePath node ["rrddata".toList], params := [("timeframe", timeframe), ("cf", "AVERAGE")] }
  | .getStorages =>
    return { method := .get, path := apiPath ["cluster".toList, "resources".toList], params := [("type", "storage")] }
  | .getStorageConfigurations => return { method := .get, path := apiPath ["storage".toList] }
  | .getNodeStorages node => return { method := .get, path := nodePath node ["storage".toList] }
  | .createConsoleProxy .qemu node vmid =>
    return { method := .post, path := guestPath .qemu node vmid ["vncproxy"], data := [("websocket", "1")] }
  | .createConsoleProxy .lxc node vmid => return { method := .post, path := guestPath .lxc node vmid ["termproxy"] }

/-! ### Reading -/

/-- Of the names the client has for a call, the one that is read back. -/
def canonicalRequest : Request → Request
  | .getVmStatus node vmid => .getGuestStatus .qemu node vmid
  | .configureGuest .qemu node vmid cores memoryMib =>
    .configureQemu node vmid [("cores", intText cores), ("memory", intText memoryMib)]
  | .resizeQemuDisk node vmid disk sizeBytes => .resizeGuestDisk .qemu node vmid disk sizeBytes
  | .submitVmPowerAction node vmid action =>
    match PowerAction.ofValue action with
    | some a => .submitGuestPowerAction .qemu node vmid a
    | none => .submitVmPowerAction node vmid action
  | r => r

def Call.canonical : Call → Call
  | .runner r => .runner (canonicalRequest r)
  | c => c

def integer? (text : String) : Option Int := Text.parseInteger text.toList

def readValue (v : String × String) : Option (String × String) :=
  if v.1 = "sshkeys" then (unquoteText v.2.toList).map fun keys => (v.1, keys) else some v

/-- What is asked of a guest, after its node and its kind. -/
def readGuest (h : HttpRequest) (kind : WorkloadKind) (node : String) (vmid : Int) (segments : List String) : Option Request :=
  match h.method, segments with
  | .get, ["status", "current"] => some (.getGuestStatus kind node vmid)
  | .post, ["status", action] => (PowerAction.ofValue action).map (.submitGuestPowerAction kind node vmid)
  | .get, ["config"] => some (.getGuestConfig kind node vmid)
  | .put, ["config"] =>
    match kind with
    | .qemu => (h.data.mapM readValue).map (.configureQemu node vmid)
    | .lxc => do
      let cores ← (h.data.lookup "cores").bind integer?
      let memoryMib ← (h.data.lookup "memory").bind integer?
      return .configureGuest .lxc node vmid cores memoryMib
  | .put, ["resize"] => do
    let disk ← h.data.lookup "disk"
    let sizeBytes ← (h.data.lookup "size").bind integer?
    return .resizeGuestDisk kind node vmid disk sizeBytes
  | .delete, [] => some (.deleteGuest kind node vmid)
  | .post, ["clone"] => do
    let targetVmid ← (h.data.lookup "newid").bind integer?
    let targetNode ← h.data.lookup "node"
    let name ← h.data.lookup "name"
    let storage ← h.data.lookup "storage"
    return .cloneQemuTemplate node vmid targetNode targetVmid name storage
  | _, _ => none

def readRestore (h : HttpRequest) (kind : WorkloadKind) (node : String) : Option Request := do
  let vmid ← (h.data.lookup "vmid").bind integer?
  let archive ← h.data.lookup (match kind with | .qemu => "archive" | .lxc => "ostemplate")
  let name ← h.data.lookup (match kind with | .qemu => "name" | .lxc => "hostname")
  return .submitGuestRestore kind node archive vmid name

/-- What is asked of a node. -/
def readNode (h : HttpRequest) (node : String) (segments : List String) : Option Call :=
  match h.method, segments with
  | .get, ["status"] => some (.getNodeStatus node)
  | .get, ["rrddata"] => (h.params.lookup "timeframe").map (.getNodeRrdData node)
  | .get, ["storage"] => some (.getNodeStorages node)
  | .get, ["storage", storage, "content"] => do
    let vmid ← (h.params.lookup "vmid").bind integer?
    return .runner (.getBackupContent node storage vmid)
  | .get, ["tasks", upid, "status"] => some (.runner (.getTaskStatus node upid))
  | .get, ["tasks", upid, "log"] => some (.runner (.getTaskLog node upid))
  | .post, ["vzdump"] => do
    let vmid ← (h.data.lookup "vmid").bind integer?
    let storage ← h.data.lookup "storage"
    let mode ← h.data.lookup "mode"
    let compression ← h.data.lookup "compress"
    return .runner (.submitGuestBackup node vmid storage mode compression)
  | .post, [guestType] => do
    let kind ← WorkloadKind.ofGuestType guestType
    return .runner (← readRestore h kind node)
  | .post, [guestType, vmid, "vncproxy"] | .post, [guestType, vmid, "termproxy"] => do
    return .createConsoleProxy (← WorkloadKind.ofGuestType guestType) node (← integer? vmid)
  | _, guestType :: vmid :: segments => do
    let kind ← WorkloadKind.ofGuestType guestType
    return .runner (← readGuest h kind node (← integer? vmid) segments)
  | _, _ => none

/-- What is asked by a request with these segments. -/
def readSegments (h : HttpRequest) : List String → Option Call
  | "api2" :: "json" :: "nodes" :: node :: rest => readNode h node rest
  | ["api2", "json", "nodes"] => some (.runner .getNodes)
  | ["api2", "json", "version"] => some .getVersion
  | ["api2", "json", "storage"] => some .getStorageConfigurations
  | ["api2", "json", "cluster", "resources"] =>
    match h.params.lookup "type" with
    | some "vm" => some (.runner .getGuests)
    | some "storage" => some .getStorages
    | _ => none
  | _ => none

/-- The call a request was made of. -/
def read (h : HttpRequest) : Option Call := do readSegments h (← segments h.path)

/-! ### What is read back -/

theorem integer?_intText (i : Int) : integer? (intText i) = some i := parseInteger_intText i

theorem isPlain_digit {c : Char} (h : Text.IsDigit 10 c) : isPlain c = true := by
  obtain ⟨d, hd, rfl⟩ := h
  revert d
  decide

theorem isSegment_integer (i : Int) : IsSegment (Text.integer i) (intText i) := by
  have hplain : (intText i).toList.all isPlain = true := by
    unfold intText
    rw [String.toList_ofList]
    refine List.all_eq_true.mpr fun c hc => ?_
    rcases Text.integer_chars hc with rfl | hdigit
    · rfl
    · exact isPlain_digit hdigit
  have h := isSegment_plain hplain
  unfold intText at h ⊢
  rwa [String.toList_ofList] at h

theorem isSegment_names {names : List String} (h : ∀ s ∈ names, s.toList.all isPlain = true) :
    List.Forall₂ IsSegment (names.map String.toList) names := by
  induction names with
  | nil => exact .nil
  | cons s rest ih =>
    exact .cons (isSegment_plain (h s List.mem_cons_self)) (ih fun t ht => h t (List.mem_cons_of_mem s ht))

theorem read_apiPath {h : HttpRequest} (names : List String) (hpath : h.path = apiPath (names.map String.toList))
    (hplain : ∀ s ∈ names, s.toList.all isPlain = true) : read h = readSegments h ("api2" :: "json" :: names) := by
  have hsegments : segments h.path = some ("api2" :: "json" :: names) := by
    rw [hpath]
    exact segments_path (.cons (isSegment_plain rfl) (.cons (isSegment_plain rfl) (isSegment_names hplain)))
  unfold read
  rw [hsegments]
  rfl

theorem read_nodePath {h : HttpRequest} {node : String} {texts : List (List Char)} {names : List String}
    (hpath : h.path = nodePath node texts) (hnames : List.Forall₂ IsSegment texts names) :
    read h = readNode h node names := by
  have hsegments : segments h.path = some ("api2" :: "json" :: "nodes" :: node :: names) := by
    rw [hpath]
    exact segments_path (.cons (isSegment_plain rfl) (.cons (isSegment_plain rfl) (.cons (isSegment_plain rfl)
      (.cons (isSegment_quoteText node) hnames))))
  unfold read
  rw [hsegments]
  rfl

theorem readNode_guest (h : HttpRequest) (kind : WorkloadKind) (node : String) (vmid : Int) {segments : List String}
    (hv : segments ≠ ["vncproxy"]) (ht : segments ≠ ["termproxy"]) :
    readNode h node (kind.guestType :: intText vmid :: segments) = (readGuest h kind node vmid segments).map .runner := by
  have hlast : (do
      let kind ← WorkloadKind.ofGuestType kind.guestType
      return Call.runner (← readGuest h kind node (← integer? (intText vmid)) segments)) =
      (readGuest h kind node vmid segments).map .runner := by
    simp only [WorkloadKind.ofGuestType_guestType, integer?_intText, Option.bind_eq_bind, Option.bind_some]
    cases readGuest h kind node vmid segments <;> rfl
  rw [← hlast]
  cases kind <;> grind [readNode, WorkloadKind.guestType]

theorem read_guestPath {h : HttpRequest} {kind : WorkloadKind} {node : String} {vmid : Int} {segments : List String}
    (hpath : h.path = guestPath kind node vmid segments) (hplain : ∀ s ∈ segments, s.toList.all isPlain = true)
    (hv : segments ≠ ["vncproxy"]) (ht : segments ≠ ["termproxy"]) :
    read h = (readGuest h kind node vmid segments).map .runner := by
  have hkind : IsSegment kind.guestType.toList kind.guestType := by
    cases kind <;> exact isSegment_plain rfl
  rw [read_nodePath hpath (.cons hkind (.cons (isSegment_integer vmid) (isSegment_names hplain))),
    readNode_guest h kind node vmid hv ht]

theorem readValue_quotedValue (v : String × String) : readValue (quotedValue v) = some v := by
  obtain ⟨key, value⟩ := v
  unfold readValue quotedValue
  by_cases hkey : key = "sshkeys"
  · simp [hkey, unquoteText_quoteText]
  · simp [hkey]

theorem mapM_readValue (values : List (String × String)) : (values.map quotedValue).mapM readValue = some values := by
  induction values with
  | nil => rfl
  | cons v rest ih =>
    rw [List.map_cons, List.mapM_cons, readValue_quotedValue, ih]
    rfl

theorem ofValue_value (action : PowerAction) : PowerAction.ofValue action.value = some action := by
  cases action <;> rfl

theorem value_plain (action : PowerAction) : action.value.toList.all isPlain = true := by
  cases action <;> rfl

theorem read_statusRequest (kind : WorkloadKind) (node : String) (vmid : Int) :
    read (statusRequest kind node vmid) = some (.runner (.getGuestStatus kind node vmid)) := by
  rw [read_guestPath rfl (by decide +kernel) (by decide) (by decide)]
  rfl

theorem read_resizeRequest (kind : WorkloadKind) (node : String) (vmid : Int) (disk : String) (sizeBytes : Int) :
    read (resizeRequest kind node vmid disk sizeBytes) = some (.runner (.resizeGuestDisk kind node vmid disk sizeBytes)) := by
  rw [read_guestPath rfl (by decide +kernel) (by decide) (by decide)]
  simp [readGuest, resizeRequest, List.lookup_cons, integer?_intText]

theorem read_powerRequest {kind : WorkloadKind} {node : String} {vmid : Int} {action : PowerAction} {h : HttpRequest}
    (hok : powerRequest kind node vmid action = .ok h) :
    read h = some (.runner (.submitGuestPowerAction kind node vmid action)) := by
  obtain ⟨_, _, hok⟩ := bind_ok.mp hok
  cases hok
  have hplain : ∀ s ∈ ["status", action.value], s.toList.all isPlain = true :=
    List.forall_mem_cons.mpr ⟨rfl, List.forall_mem_singleton.mpr (value_plain action)⟩
  rw [read_guestPath rfl hplain (by simp) (by simp)]
  simp [readGuest, ofValue_value]

theorem read_encodeRequest {r : Request} {h : HttpRequest} (hok : encodeRequest r = .ok h) :
    read h = some (.runner (canonicalRequest r)) := by
  cases r with
  | getGuests =>
    cases hok
    rw [read_apiPath ["cluster", "resources"] rfl (by decide +kernel)]
    rfl
  | getNodes =>
    cases hok
    rw [read_apiPath ["nodes"] rfl (by decide +kernel)]
    rfl
  | getTaskStatus node upid =>
    cases hok
    rw [read_nodePath rfl (.cons (isSegment_plain rfl) (.cons (isSegment_quoteText upid) (.cons (isSegment_plain rfl) .nil)))]
    rfl
  | getTaskLog node upid =>
    obtain ⟨_, _, hok⟩ := bind_ok.mp hok
    cases hok
    rw [read_nodePath rfl (.cons (isSegment_plain rfl) (.cons (isSegment_quoteText upid) (.cons (isSegment_plain rfl) .nil)))]
    rfl
  | getGuestStatus kind node vmid | getVmStatus node vmid =>
    cases hok
    exact read_statusRequest ..
  | getGuestConfig kind node vmid =>
    cases hok
    rw [read_guestPath rfl (by decide +kernel) (by decide) (by decide)]
    rfl
  | getBackupContent node storage vmid =>
    obtain ⟨_, _, hok⟩ := bind_ok.mp hok
    cases hok
    rw [read_nodePath rfl (.cons (isSegment_plain rfl) (.cons (isSegment_quoteText storage) (.cons (isSegment_plain rfl) .nil)))]
    simp [readNode, List.lookup_cons, integer?_intText, canonicalRequest]
  | submitGuestPowerAction kind node vmid action => exact read_powerRequest hok
  | configureGuest kind node vmid cores memoryMib =>
    cases hok
    rw [read_guestPath rfl (by decide +kernel) (by decide) (by decide)]
    cases kind <;> simp [readGuest, readValue, List.lookup_cons, integer?_intText, canonicalRequest]
  | resizeGuestDisk kind node vmid disk sizeBytes | resizeQemuDisk node vmid disk sizeBytes =>
    cases hok
    exact read_resizeRequest ..
  | deleteGuest kind node vmid =>
    cases hok
    rw [read_guestPath rfl (by decide +kernel) (by decide) (by decide)]
    rfl
  | submitGuestBackup node vmid storage mode compression =>
    obtain ⟨_, _, hok⟩ := bind_ok.mp hok
    obtain ⟨_, _, hok⟩ := bind_ok.mp hok
    cases hok
    rw [read_nodePath rfl (.cons (isSegment_plain rfl) .nil)]
    simp [readNode, List.lookup_cons, integer?_intText, canonicalRequest]
  | submitGuestRestore kind node archive vmid name =>
    obtain ⟨_, _, hok⟩ := bind_ok.mp hok
    cases hok
    cases kind <;> rw [read_nodePath rfl (.cons (isSegment_plain rfl) .nil)] <;>
      simp [readNode, readRestore, WorkloadKind.guestType, WorkloadKind.ofGuestType, List.lookup_cons, integer?_intText,
        canonicalRequest]
  | cloneQemuTemplate sourceNode sourceVmid targetNode targetVmid name storage =>
    cases hok
    rw [read_guestPath rfl (by decide +kernel) (by decide) (by decide)]
    simp [readGuest, List.lookup_cons, integer?_intText, canonicalRequest]
  | configureQemu node vmid values =>
    obtain ⟨_, _, hok⟩ := bind_ok.mp hok
    cases hok
    rw [read_guestPath rfl (by decide +kernel) (by decide) (by decide)]
    simp only [readGuest, mapM_readValue]
    rfl
  | submitVmPowerAction node vmid action =>
    simp only [encodeRequest] at hok
    simp only [canonicalRequest]
    cases haction : PowerAction.ofValue action with
    | none =>
      rw [haction] at hok
      cases hok
    | some a =>
      rw [haction] at hok
      exact read_powerRequest hok

/-- **A request is read back as the call it was made of**, under the name that is read. -/
theorem read_encode {c : Call} {h : HttpRequest} (hok : encode c = .ok h) : read h = some c.canonical := by
  cases c with
  | runner r => exact read_encodeRequest hok
  | getVersion =>
    cases hok
    rw [read_apiPath ["version"] rfl (by decide +kernel)]
    rfl
  | getNodeStatus node | getNodeRrdData node timeframe | getNodeStorages node =>
    cases hok
    rw [read_nodePath rfl (.cons (isSegment_plain rfl) .nil)]
    rfl
  | getStorages =>
    cases hok
    rw [read_apiPath ["cluster", "resources"] rfl (by decide +kernel)]
    rfl
  | getStorageConfigurations =>
    cases hok
    rw [read_apiPath ["storage"] rfl (by decide +kernel)]
    rfl
  | createConsoleProxy kind node vmid =>
    cases kind <;> cases hok <;> rw [read_nodePath rfl (.cons (isSegment_plain rfl)
      (.cons (isSegment_integer vmid) (.cons (isSegment_plain rfl) .nil)))] <;>
      simp [readNode, integer?_intText, WorkloadKind.guestType, WorkloadKind.ofGuestType, Call.canonical]

theorem encodeRequest_canonical (r : Request) : encodeRequest (canonicalRequest r) = encodeRequest r := by
  cases r with
  | configureGuest kind node vmid cores memoryMib =>
    cases kind with
    | qemu => simp [canonicalRequest, encodeRequest, raiseIf, allowedValues, quotedValue, pure, Except.pure, bind, Except.bind]
    | lxc => rfl
  | submitVmPowerAction node vmid action =>
    simp only [canonicalRequest]
    cases haction : PowerAction.ofValue action with
    | none => rfl
    | some a => simp only [encodeRequest, haction]
  | _ => rfl

theorem encode_canonical (c : Call) : encode c.canonical = encode c := by
  cases c with
  | runner r => exact encodeRequest_canonical r
  | _ => rfl

/-- Whether a call asks Proxmox to change something. -/
def Call.mutating : Call → Bool
  | .runner r => r.mutating
  | .createConsoleProxy .. => true
  | _ => false

theorem powerRequest_method {kind : WorkloadKind} {node : String} {vmid : Int} {action : PowerAction} {h : HttpRequest}
    (hok : powerRequest kind node vmid action = .ok h) : h.method = .post := by
  obtain ⟨_, _, hok⟩ := bind_ok.mp hok
  cases hok
  rfl

theorem method_get {c : Call} {h : HttpRequest} (hok : encode c = .ok h) : h.method = .get ↔ c.mutating = false := by
  cases c with
  | runner r =>
    cases r with
    | getTaskLog | getBackupContent | submitGuestRestore | configureQemu =>
      obtain ⟨_, _, hok⟩ := bind_ok.mp hok
      cases hok
      simp [Call.mutating, Request.mutating]
    | submitGuestBackup =>
      obtain ⟨_, _, hok⟩ := bind_ok.mp hok
      obtain ⟨_, _, hok⟩ := bind_ok.mp hok
      cases hok
      simp [Call.mutating, Request.mutating]
    | submitGuestPowerAction => simp [powerRequest_method hok, Call.mutating, Request.mutating]
    | submitVmPowerAction node vmid action =>
      simp only [encode, encodeRequest] at hok
      split at hok
      · simp [powerRequest_method hok, Call.mutating, Request.mutating]
      · cases hok
    | _ =>
      cases hok
      simp [statusRequest, resizeRequest, Call.mutating, Request.mutating]
  | createConsoleProxy kind =>
    cases kind <;> cases hok <;> simp [Call.mutating]
  | _ =>
    cases hok
    simp [Call.mutating]

/-- **Two calls are handed to the HTTP client as one request** exactly if they are one call under two names, whatever
nodes, tasks, storages and values they name; and a call is a `GET` exactly if it changes nothing. -/
theorem sent_apart {c c' : Call} {h h' : HttpRequest} (hok : encode c = .ok h) (hok' : encode c' = .ok h') :
    (h = h' ↔ c.canonical = c'.canonical) ∧ (h.method = .get ↔ c.mutating = false) := by
  refine ⟨⟨fun heq => ?_, fun heq => ?_⟩, method_get hok⟩
  · have hread := read_encode hok
    rw [heq, read_encode hok'] at hread
    exact (Option.some.inj hread).symm
  · have hsent := encode_canonical c
    rw [heq, encode_canonical c', hok, hok'] at hsent
    exact (Except.ok.inj hsent).symm

/-- A node named like a path, and the clone that its start would be sent as if it were not quoted. -/
theorem sent_apart_named : ∃ h h',
    encode (.runner (.deleteGuest .qemu "a/qemu/1" 2)) = .ok h ∧ encode (.runner (.deleteGuest .qemu "a" 1)) = .ok h' ∧
      h ≠ h' := by
  have h := @sent_apart (.runner (.deleteGuest .qemu "a/qemu/1" 2)) (.runner (.deleteGuest .qemu "a" 1)) _ _ rfl rfl
  refine ⟨_, _, rfl, rfl, fun heq => ?_⟩
  have hcanonical := h.1.mp heq
  simp [Call.canonical, canonicalRequest] at hcanonical

end PveMaster.Proxmox
