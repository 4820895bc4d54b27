import PveMaster.Foundation.Exposition
import PveMaster.Models.Operation
import PveMaster.Observability.Pools

/-! What `/metrics` writes.

A worker sends heartbeats; each is a key of Redis that expires. The text is made of comments and samples
(`metricLines_text`), whatever the clusters are called, so a scraper reads what the queues and the rows of the
tables come to (`clusterMetric`, `operationMetric`, `poolMetric`), in the order in which the database answers, and a
worker is up exactly if a heartbeat arrived within the time it lasts (`metrics_read`). -/
namespace PveMaster.Observability
open Exposition Text Ipam IpamService

/-! ### Heartbeats -/

/-- `_record_worker_heartbeat`, or Redis could not be reached. -/
structure Heartbeat where
  hostname : List Char
  time : Instant
  sent : Bool

/-- The keys of the heartbeats, each with the instant it expires at. -/
abbrev Heartbeats := List (List Char × Instant)

def heartbeatPrefix : List Char := "pvemaster:worker:heartbeat:".toList

/-- `SETEX`. -/
def record (ttl : Nat) (keys : Heartbeats) (b : Heartbeat) : Heartbeats :=
  if b.sent then
    (heartbeatPrefix ++ b.hostname, b.time + ttl * second) ::
      keys.filter fun k => k.1 ≠ heartbeatPrefix ++ b.hostname
  else keys

/-- The keys after some heartbeats. -/
def recorded (ttl : Nat) (beats : List Heartbeat) : Heartbeats := beats.foldl (record ttl) []

/-- The keys that `SCAN` finds. -/
def scan (keys : Heartbeats) (now : Instant) : List (List Char) := (keys.filter fun k => now ≤ k.2).map Prod.fst

/-! ### What is read -/

/-- What a request finds in Redis, and whether it answers to `SCAN` and to `LLEN`. -/
structure RedisView where
  keys : Heartbeats
  operations : Nat
  celery : Nat
  scans : Bool
  measures : Bool

structure WorkerStatus where
  available : Bool
  alive : Bool
  workers : List (List Char)

structure QueueStatus where
  available : Bool
  total : Nat
  queues : List (List Char × Nat)

/-- `key.rsplit(":", 1)[-1]`. -/
def workerName (key : List Char) : List Char := (key.reverse.takeWhile (· != ':')).reverse

/-- `_worker_status`. -/
def workerStatus (r : RedisView) (now : Instant) : WorkerStatus :=
  if r.scans then
    let workers := (scan r.keys now).map workerName
    { available := true, alive := !workers.isEmpty, workers := workers.insertionSort (· ≤ ·) }
  else { available := false, alive := false, workers := [] }

/-- `_queue_status`. -/
def queueStatus (r : RedisView) : QueueStatus :=
  if r.measures then
    { available := true
      total := r.operations + r.celery
      queues := [("operations".toList, r.operations), ("celery".toList, r.celery)] }
  else { available := false, total := 0, queues := [] }

/-- What is read of a cluster. -/
structure Cluster where
  id : Uuid
  name : List Char
  isActive : Bool
  lastConnectedAt : Option Instant
  lastConnectionErrorCode : Option String

structure ClusterConnectionStatus where
  clusterId : Uuid
  name : List Char
  enabled : Bool
  connected : Bool
  lastConnectedAt : Option Instant
  errorCode : Option String

/-- The orders in which the database answers: all the rows, each as often as it is there. -/
structure Orders where
  clusters : List Cluster → List Cluster
  groups : List (OperationStatus × Nat) → List (OperationStatus × Nat)
  pools : List IpPool → List IpPool
  clusters_perm : ∀ l, (clusters l).Perm l
  groups_perm : ∀ l, (groups l).Perm l
  pools_perm : ∀ l, (pools l).Perm l

/-- The rows as they are stored. -/
def Orders.stored : Orders := ⟨id, id, id, fun _ => .refl _, fun _ => .refl _, fun _ => .refl _⟩

structure Database where
  clusters : List Cluster
  operations : Table Operation
  ipam : IpamTables

/-- `_cluster_statuses`. -/
def clusterStatuses (o : Orders) (db : Database) : List ClusterConnectionStatus :=
  (o.clusters (db.clusters.filter Cluster.isActive)).map fun item =>
    { clusterId := item.id
      name := item.name
      enabled := item.isActive
      connected := item.isActive && item.lastConnectionErrorCode.isNone && item.lastConnectedAt.isSome
      lastConnectedAt := item.lastConnectedAt
      errorCode := item.lastConnectionErrorCode }

def statuses : List OperationStatus := [.queued, .running, .succeeded, .failed, .timeout]

/-- `GROUP BY status`: a status that no operation has is no group. -/
def operationCounts (o : Orders) (db : Database) : List (OperationStatus × Nat) :=
  o.groups ((statuses.map fun status => (status, (db.operations.select fun p => p.status = status).length)).filter fun g => g.2 ≠ 0)

/-! ### The text -/

/-- `int(b)`. -/
def bit (b : Bool) : Int := if b then 1 else 0

/-- `text.replace(c, by)`. -/
def replaced (c : Char) (by' text : List Char) : List Char := text.flatMap fun d => if d = c then by' else [d]

def statusText : OperationStatus → List Char
  | .queued => "QUEUED".toList
  | .running => "RUNNING".toList
  | .succeeded => "SUCCEEDED".toList
  | .failed => "FAILED".toList
  | .timeout => "TIMEOUT".toList

def clusterLine (cluster : ClusterConnectionStatus) : List Char :=
  let name := replaced '\n' ['\\', 'n'] (replaced '"' ['\\', '"'] (replaced '\\' ['\\', '\\'] cluster.name))
  let labels := "cluster_id=\"".toList ++ uuid cluster.clusterId ++ "\",name=\"".toList ++ name ++ "\"".toList
  "pvemaster_cluster_connection_up\x7b".toList ++ labels ++ "\x7d ".toList ++ integer (bit cluster.connected)

/-- The two lines before the samples of a metric. -/
def heading (name help : String) : List (List Char) :=
  [ "# HELP ".toList ++ name.toList ++ ' ' :: help.toList,
    "# TYPE ".toList ++ name.toList ++ " gauge".toList ]

/-- `prometheus_metrics`, its lines. -/
def metricLines (worker : WorkerStatus) (queue : QueueStatus) (clusters : List ClusterConnectionStatus)
    (counts : List (OperationStatus × Nat)) (pools : List (Uuid × String × Int)) : List (List Char) :=
  heading "pvemaster_worker_up" "Whether at least one Celery worker heartbeat is current." ++
  ["pvemaster_worker_up ".toList ++ integer (bit worker.alive)] ++
  heading "pvemaster_job_queue_length" "Number of jobs waiting in a Celery queue." ++
  ((queue.queues.insertionSort fun a b => a.1 ≤ b.1).map fun q =>
    "pvemaster_job_queue_length\x7bqueue=\"".toList ++ q.1 ++ "\"\x7d ".toList ++ integer q.2) ++
  heading "pvemaster_cluster_connection_up" "Last known Proxmox connection state." ++
  clusters.map clusterLine ++
  heading "pvemaster_operations" "Number of operation records by status." ++
  (counts.map fun c => "pvemaster_operations\x7bstatus=\"".toList ++ statusText c.1 ++ "\"\x7d ".toList ++ integer c.2) ++
  heading "pvemaster_ip_pool_available" "Number of available addresses in an IP pool." ++
  (pools.map fun p => "pvemaster_ip_pool_available\x7bpool_id=\"".toList ++ uuid p.1 ++ "\"\x7d ".toList ++ integer p.2.2)

/-- `prometheus_metrics`. -/
def prometheusMetrics (o : Orders) (r : RedisView) (db : Database) (now : Instant) : List Char :=
  ['\n'].intercalate (metricLines (workerStatus r now) (queueStatus r) (clusterStatuses o db) (operationCounts o db)
    (ipPoolCounts o.pools db.ipam)) ++ ['\n']

/-! ### Heartbeats within their time -/

theorem recorded_append (ttl : Nat) (beats : List Heartbeat) (b : Heartbeat) :
    recorded ttl (beats ++ [b]) = record ttl (recorded ttl beats) b := by
  simp [recorded]

/-- A key was set by a heartbeat, and none of the heartbeats so far outlasts every key. -/
theorem recorded_spec (ttl : Nat) {beats : List Heartbeat} (hordered : beats.Pairwise fun b c => b.time ≤ c.time) :
    (∀ k ∈ recorded ttl beats, ∃ b ∈ beats, b.sent = true ∧ k.2 = b.time + ttl * second) ∧
      ∀ b ∈ beats, b.sent = true → ∃ k ∈ recorded ttl beats, b.time + ttl * second ≤ k.2 := by
  induction beats using List.reverseRecOn with
  | nil => exact ⟨fun k hk => absurd hk List.not_mem_nil, fun b hb => absurd hb List.not_mem_nil⟩
  | append_singleton beats newest ih =>
    obtain ⟨hordered, -, hnewest⟩ := List.pairwise_append.mp hordered
    obtain ⟨hset, hlasting⟩ := ih hordered
    have holder : ∀ k ∈ recorded ttl beats, k.2 ≤ newest.time + ttl * second := by
      intro k hk
      obtain ⟨b, hb, -, htime⟩ := hset k hk
      have := hnewest b hb newest List.mem_cons_self
      rw [htime]
      exact Int.add_le_add_right this _
    rw [recorded_append, record]
    by_cases hsent : newest.sent = true
    · rw [if_pos hsent]
      constructor
      · intro k hk
        rcases List.mem_cons.mp hk with rfl | hk
        · exact ⟨newest, by simp, hsent, rfl⟩
        · obtain ⟨b, hb, hbeat⟩ := hset k (List.mem_filter.mp hk).1
          exact ⟨b, by simp [hb], hbeat⟩
      · intro b hb hbsent
        refine ⟨_, List.mem_cons_self, ?_⟩
        rcases List.mem_append.mp hb with hb | hb
        · obtain ⟨k, hk, hle⟩ := hlasting b hb hbsent
          exact Int.le_trans hle (holder k hk)
        · cases List.mem_singleton.mp hb
          exact Int.le_refl _
    · rw [if_neg hsent]
      constructor
      · intro k hk
        obtain ⟨b, hb, hbeat⟩ := hset k hk
        exact ⟨b, by simp [hb], hbeat⟩
      · intro b hb hbsent
        rcases List.mem_append.mp hb with hb | hb
        · exact hlasting b hb hbsent
        · cases List.mem_singleton.mp hb
          exact absurd hbsent hsent

theorem alive_iff {ttl : Nat} {beats : List Heartbeat} (hordered : beats.Pairwise fun b c => b.time ≤ c.time)
    {r : RedisView} (hkeys : r.keys = recorded ttl beats) (now : Instant) :
    (workerStatus r now).alive = true ↔ r.scans = true ∧ ∃ b ∈ beats, b.sent = true ∧ now ≤ b.time + ttl * second := by
  obtain ⟨hset, hlasting⟩ := recorded_spec ttl hordered
  unfold workerStatus
  split
  · next hscans =>
    have hfound : (!((scan r.keys now).map workerName).isEmpty) = true ↔ ∃ k ∈ recorded ttl beats, now ≤ k.2 := by
      simp [scan, hkeys, List.filter_eq_nil_iff]
    rw [hfound]
    constructor
    · rintro ⟨k, hk, hlive⟩
      obtain ⟨b, hb, hsent, htime⟩ := hset k hk
      exact ⟨hscans, b, hb, hsent, htime ▸ hlive⟩
    · rintro ⟨-, b, hb, hsent, hlive⟩
      obtain ⟨k, hk, hle⟩ := hlasting b hb hsent
      exact ⟨k, hk, Int.le_trans hlive hle⟩
  · next hscans => simp [hscans]

/-! ### The lines -/

def workerSample (up : Bool) : Sample := ⟨"pvemaster_worker_up".toList, [], bit up⟩

def queueSample (q : List Char × Nat) : Sample := ⟨"pvemaster_job_queue_length".toList, [("queue".toList, q.1)], q.2⟩

def clusterSample (c : ClusterConnectionStatus) : Sample :=
  ⟨"pvemaster_cluster_connection_up".toList, [("cluster_id".toList, uuid c.clusterId), ("name".toList, c.name)], bit c.connected⟩

def operationSample (c : OperationStatus × Nat) : Sample :=
  ⟨"pvemaster_operations".toList, [("status".toList, statusText c.1)], c.2⟩

def poolSample (p : Uuid × String × Int) : Sample :=
  ⟨"pvemaster_ip_pool_available".toList, [("pool_id".toList, uuid p.1)], p.2.2⟩

/-- Three replacements, one after the other, escape a text. -/
theorem replaced_escaped (text : List Char) :
    replaced '\n' ['\\', 'n'] (replaced '"' ['\\', '"'] (replaced '\\' ['\\', '\\'] text)) = escaped text := by
  induction text with
  | nil => rfl
  | cons c text ih =>
    have happend (c : Char) (by' a b : List Char) : replaced c by' (a ++ b) = replaced c by' a ++ replaced c by' b :=
      List.flatMap_append
    have hcons (c d : Char) (by' rest : List Char) :
        replaced c by' (d :: rest) = (if d = c then by' else [d]) ++ replaced c by' rest := rfl
    rw [hcons, happend, happend, ih]
    show _ = (if c = '\\' then ['\\', '\\'] else if c = '"' then ['\\', '"'] else if c = '\n' then ['\\', 'n'] else [c]) ++
      escaped text
    congr 1
    split
    · rfl
    · simp only [replaced, List.flatMap_cons, List.flatMap_nil, List.append_nil]
      split
      · rfl
      · simp

theorem escaped_eq {text : List Char} (h : ∀ c ∈ text, c ≠ '\\' ∧ c ≠ '"' ∧ c ≠ '\n') : escaped text = text := by
  induction text with
  | nil => rfl
  | cons c text ih =>
    obtain ⟨hslash, hquote, hline⟩ := h c List.mem_cons_self
    show (if c = '\\' then ['\\', '\\'] else if c = '"' then ['\\', '"'] else if c = '\n' then ['\\', 'n'] else [c]) ++
      escaped text = _
    rw [if_neg hslash, if_neg hquote, if_neg hline, ih fun c hc => h c (List.mem_cons_of_mem _ hc)]
    rfl

theorem escaped_uuid (u : Nat) : escaped (uuid u) = uuid u := by
  refine escaped_eq fun c hc => ?_
  rcases uuid_chars hc with rfl | hdigit
  · decide
  · exact ⟨hdigit.ne (by decide), hdigit.ne (by decide), hdigit.ne (by decide)⟩

theorem escaped_statusText (status : OperationStatus) : escaped (statusText status) = statusText status := by
  cases status <;> rfl

theorem text_none (name : List Char) (i : Int) : Sample.text ⟨name, [], i⟩ = name ++ ' ' :: integer i := by
  simp [Sample.text]

theorem text_one (name key value : List Char) (i : Int) : Sample.text ⟨name, [(key, value)], i⟩ =
    name ++ '\x7b' :: (key ++ '=' :: '"' :: (escaped value ++ '"' :: '\x7d' :: ' ' :: integer i)) := by
  simp [Sample.text, label, List.intercalate]

theorem text_two (name key value key' value' : List Char) (i : Int) : Sample.text ⟨name, [(key, value), (key', value')], i⟩ =
    name ++ '\x7b' :: (key ++ '=' :: '"' :: (escaped value ++ '"' :: ',' ::
      (key' ++ '=' :: '"' :: (escaped value' ++ '"' :: '\x7d' :: ' ' :: integer i)))) := by
  simp [Sample.text, label, List.intercalate]

theorem clusterLine_text (c : ClusterConnectionStatus) : clusterLine c = (clusterSample c).text := by
  unfold clusterLine clusterSample
  simp only [replaced_escaped, text_two, escaped_uuid, List.append_assoc, String.reduceToList,
    List.cons_append, List.nil_append]

theorem operationLine_text (c : OperationStatus × Nat) :
    "pvemaster_operations\x7bstatus=\"".toList ++ statusText c.1 ++ "\"\x7d ".toList ++ integer c.2 =
      (operationSample c).text := by
  unfold operationSample
  simp only [text_one, escaped_statusText, List.append_assoc, String.reduceToList,
    List.cons_append, List.nil_append]

theorem poolLine_text (p : Uuid × String × Int) :
    "pvemaster_ip_pool_available\x7bpool_id=\"".toList ++ uuid p.1 ++ "\"\x7d ".toList ++ integer p.2.2 =
      (poolSample p).text := by
  unfold poolSample
  simp only [text_one, escaped_uuid, List.append_assoc, String.reduceToList,
    List.cons_append, List.nil_append]

theorem queueLine_text {q : List Char × Nat} (h : escaped q.1 = q.1) :
    "pvemaster_job_queue_length\x7bqueue=\"".toList ++ q.1 ++ "\"\x7d ".toList ++ integer q.2 =
      (queueSample q).text := by
  unfold queueSample
  simp only [text_one, h, List.append_assoc, String.reduceToList,
    List.cons_append, List.nil_append]

def comments (name help : String) : List Line :=
  [ .comment (" HELP ".toList ++ name.toList ++ ' ' :: help.toList),
    .comment (" TYPE ".toList ++ name.toList ++ " gauge".toList) ]

theorem heading_text (name help : String) : heading name help = (comments name help).map Line.text := rfl

theorem workerLine_text (up : Bool) :
    "pvemaster_worker_up ".toList ++ integer (bit up) = (workerSample up).text := by
  unfold workerSample
  rw [text_none]
  rfl

/-- The samples of the metrics, each after its comments. -/
def metrics (worker : WorkerStatus) (queue : QueueStatus) (clusters : List ClusterConnectionStatus)
    (counts : List (OperationStatus × Nat)) (pools : List (Uuid × String × Int)) : List Line :=
  comments "pvemaster_worker_up" "Whether at least one Celery worker heartbeat is current." ++
  [.sample (workerSample worker.alive)] ++
  comments "pvemaster_job_queue_length" "Number of jobs waiting in a Celery queue." ++
  ((queue.queues.insertionSort fun a b => a.1 ≤ b.1).map fun q => .sample (queueSample q)) ++
  comments "pvemaster_cluster_connection_up" "Last known Proxmox connection state." ++
  (clusters.map fun c => .sample (clusterSample c)) ++
  comments "pvemaster_operations" "Number of operation records by status." ++
  (counts.map fun c => .sample (operationSample c)) ++
  comments "pvemaster_ip_pool_available" "Number of available addresses in an IP pool." ++
  (pools.map fun p => .sample (poolSample p))

theorem metricLines_text (worker : WorkerStatus) {queue : QueueStatus} (clusters : List ClusterConnectionStatus)
    (counts : List (OperationStatus × Nat)) (pools : List (Uuid × String × Int))
    (hqueues : ∀ q ∈ queue.queues, escaped q.1 = q.1) :
    metricLines worker queue clusters counts pools = (metrics worker queue clusters counts pools).map Line.text := by
  have hqueue : ((queue.queues.insertionSort fun a b => a.1 ≤ b.1).map fun q =>
      "pvemaster_job_queue_length\x7bqueue=\"".toList ++ q.1 ++ "\"\x7d ".toList ++ integer q.2) =
      (queue.queues.insertionSort fun a b => a.1 ≤ b.1).map fun q => (queueSample q).text :=
    List.map_congr_left fun q hq => queueLine_text (hqueues q ((List.mem_insertionSort _).mp hq))
  have hcluster : clusters.map clusterLine = clusters.map fun c => (clusterSample c).text :=
    List.map_congr_left fun c _ => clusterLine_text c
  unfold metricLines metrics
  rw [hqueue, hcluster]
  simp only [heading_text, workerLine_text, operationLine_text, poolLine_text, List.map_append, List.map_map]
  rfl

/-- The samples of the metrics. -/
def samples (worker : WorkerStatus) (queue : QueueStatus) (clusters : List ClusterConnectionStatus)
    (counts : List (OperationStatus × Nat)) (pools : List (Uuid × String × Int)) : List Sample :=
  workerSample worker.alive :: (queue.queues.insertionSort fun a b => a.1 ≤ b.1).map queueSample ++
    clusters.map clusterSample ++ counts.map operationSample ++ pools.map poolSample

theorem metrics_samples (worker : WorkerStatus) (queue : QueueStatus) (clusters : List ClusterConnectionStatus)
    (counts : List (OperationStatus × Nat)) (pools : List (Uuid × String × Int)) :
    (metrics worker queue clusters counts pools).filterMap Line.sample? = samples worker queue clusters counts pools := by
  have hcomments (name help : String) : (comments name help).filterMap Line.sample? = [] := rfl
  have hsamples {α : Type} (f : α → Sample) (l : List α) : (l.map fun a => Line.sample (f a)).filterMap Line.sample? = l.map f := by
    simp [List.filterMap_map, Function.comp_def, Line.sample?]
  have hworker : [Line.sample (workerSample worker.alive)].filterMap Line.sample? = [workerSample worker.alive] := rfl
  simp only [metrics, List.filterMap_append, hcomments, hsamples, hworker, List.nil_append]
  simp only [samples, List.append_assoc, List.cons_append, List.nil_append]

theorem workerSample_written (up : Bool) : (workerSample up).Written := Sample.written_of rfl

theorem queueSample_written (q : List Char × Nat) : (queueSample q).Written := Sample.written_of rfl

theorem clusterSample_written (c : ClusterConnectionStatus) : (clusterSample c).Written := Sample.written_of rfl

theorem operationSample_written (c : OperationStatus × Nat) : (operationSample c).Written := Sample.written_of rfl

theorem poolSample_written (p : Uuid × String × Int) : (poolSample p).Written := Sample.written_of rfl

theorem comments_written {name help : String} (hname : '\n' ∉ name.toList) (hhelp : '\n' ∉ help.toList) {l : Line}
    (hl : l ∈ comments name help) : l.Written := by
  have hkinds : '\n' ∉ " HELP ".toList ∧ '\n' ∉ " TYPE ".toList ∧ '\n' ∉ " gauge".toList := by decide
  simp only [comments, List.mem_cons, List.not_mem_nil, or_false] at hl
  rcases hl with rfl | rfl
  · simp [Line.Written, hname, hhelp]
  · simp [Line.Written, hname]

theorem metrics_written {worker : WorkerStatus} {queue : QueueStatus} {clusters : List ClusterConnectionStatus}
    {counts : List (OperationStatus × Nat)} {pools : List (Uuid × String × Int)} {l : Line}
    (hl : l ∈ metrics worker queue clusters counts pools) : l.Written := by
  have hsamples {α : Type} {f : α → Sample} (hf : ∀ a, (f a).Written) {as : List α} {l : Line}
      (hl : l ∈ as.map fun a => Line.sample (f a)) : l.Written := by
    obtain ⟨a, -, rfl⟩ := List.mem_map.mp hl
    exact hf a
  simp only [metrics, List.mem_append] at hl
  rcases hl with ((((((((hl | hl) | hl) | hl) | hl) | hl) | hl) | hl) | hl) | hl
  · exact comments_written (by decide) (by decide) hl
  · cases List.mem_singleton.mp hl
    exact workerSample_written _
  · exact comments_written (by decide) (by decide) hl
  · exact hsamples queueSample_written hl
  · exact comments_written (by decide) (by decide) hl
  · exact hsamples clusterSample_written hl
  · exact comments_written (by decide) (by decide) hl
  · exact hsamples operationSample_written hl
  · exact comments_written (by decide) (by decide) hl
  · exact hsamples poolSample_written hl

/-! ### Round trip -/

theorem intercalate_lines (lines : List Line) (h : lines ≠ []) :
    ['\n'].intercalate (lines.map Line.text) ++ ['\n'] = exposition lines := by
  induction lines with
  | nil => exact absurd rfl h
  | cons l lines ih =>
    cases lines with
    | nil => simp [List.intercalate, exposition]
    | cons m lines =>
      have hcons : ['\n'].intercalate ((l :: m :: lines).map Line.text) =
          l.text ++ '\n' :: ['\n'].intercalate ((m :: lines).map Line.text) := by
        simp [List.intercalate]
      rw [hcons, List.append_assoc, List.cons_append, ih (List.cons_ne_nil _ _)]
      simp [exposition]

theorem queues_escaped (r : RedisView) : ∀ q ∈ (queueStatus r).queues, escaped q.1 = q.1 := by
  intro q hq
  unfold queueStatus at hq
  split at hq
  · rcases List.mem_cons.mp hq with rfl | hq
    · rfl
    · cases List.mem_singleton.mp hq
      rfl
  · cases hq

/-! ### What there is to tell

The samples, from the queues and the rows of the tables. -/

def queueMetrics (r : RedisView) : List Sample :=
  if r.measures then
    [ ⟨"pvemaster_job_queue_length".toList, [("queue".toList, "celery".toList)], r.celery⟩,
      ⟨"pvemaster_job_queue_length".toList, [("queue".toList, "operations".toList)], r.operations⟩ ]
  else []

/-- A cluster has been reached once, and without an error since. -/
def clusterMetric (c : Cluster) : Sample :=
  ⟨"pvemaster_cluster_connection_up".toList, [("cluster_id".toList, uuid c.id), ("name".toList, c.name)],
    bit (c.lastConnectedAt.isSome && c.lastConnectionErrorCode.isNone)⟩

/-- The number of operations with a status. -/
def operationTotal (db : Database) (status : OperationStatus) : Nat := db.operations.rows.countP fun p => p.status = status

def operationMetric (db : Database) (status : OperationStatus) : Sample :=
  ⟨"pvemaster_operations".toList, [("status".toList, statusText status)], operationTotal db status⟩

open Classical in
/-- The addresses of a pool that neither the network needs nor the gateway has, that no range excludes, and that no
row holds for anybody. -/
noncomputable def leftOver (t : IpamTables) (pool : IpPool) : Finset Int :=
  (Finset.Icc (pool.cidr.base : Int) pool.cidr.toNetwork.broadcast).filter fun x =>
    x ≠ pool.cidr.base ∧ (pool.cidr.version = .v4 → x ≠ pool.cidr.toNetwork.broadcast) ∧ (∀ g ∈ pool.gateway, x ≠ g.ip) ∧
      (∀ e ∈ t.exclusions, e.poolId = pool.id → ¬ ((e.startAddress.ip : Int) ≤ x ∧ x ≤ e.endAddress.ip)) ∧
      ∀ a ∈ t.addresses, a.poolId = pool.id → a.state ≠ .available → x ≠ a.address.ip

noncomputable def poolMetric (t : IpamTables) (pool : IpPool) : Sample :=
  ⟨"pvemaster_ip_pool_available".toList, [("pool_id".toList, uuid pool.id)], (leftOver t pool).card⟩

theorem sorted_two {a b : List Char × Nat} (h : ¬ a.1 ≤ b.1) : ([a, b].insertionSort fun a b => a.1 ≤ b.1) = [b, a] := by
  simp [List.insertionSort, h]

theorem queues_metrics (r : RedisView) :
    ((queueStatus r).queues.insertionSort fun a b => a.1 ≤ b.1).map queueSample = queueMetrics r := by
  have hlater : ¬ "operations".toList ≤ "celery".toList := by decide
  unfold queueStatus queueMetrics
  cases r.measures with
  | true =>
    show (List.insertionSort _ [("operations".toList, r.operations), ("celery".toList, r.celery)]).map queueSample = _
    rw [sorted_two hlater]
    rfl
  | false => rfl

theorem clusters_metrics (o : Orders) (db : Database) :
    (clusterStatuses o db).map clusterSample = (o.clusters (db.clusters.filter Cluster.isActive)).map clusterMetric := by
  unfold clusterStatuses
  rw [List.map_map]
  refine List.map_congr_left fun c hc => ?_
  have hactive : c.isActive = true := (List.mem_filter.mp ((o.clusters_perm _).mem_iff.mp hc)).2
  rw [Function.comp_apply]
  unfold clusterSample clusterMetric
  rw [hactive, Bool.true_and, Bool.and_comm]

/-- A group is a status that some operation has, with their number. -/
theorem operations_metrics (o : Orders) (db : Database) : ∃ groups : List OperationStatus,
    groups.Perm (statuses.filter fun status => operationTotal db status ≠ 0) ∧
      (operationCounts o db).map operationSample = groups.map (operationMetric db) := by
  have htotal (status : OperationStatus) :
      (db.operations.select fun p => p.status = status).length = operationTotal db status :=
    List.countP_eq_length_filter.symm
  have hcounts : operationCounts o db =
      o.groups ((statuses.filter fun status => operationTotal db status ≠ 0).map fun status =>
        (status, operationTotal db status)) := by
    unfold operationCounts
    simp only [htotal, List.filter_map, Function.comp_def]
  have hperm := o.groups_perm ((statuses.filter fun status => operationTotal db status ≠ 0).map fun status =>
    (status, operationTotal db status))
  rw [← hcounts] at hperm
  refine ⟨(operationCounts o db).map Prod.fst, ?_, ?_⟩
  · have hfirst := hperm.map Prod.fst
    rwa [List.map_map, Function.comp_def, List.map_id'] at hfirst
  · rw [List.map_map]
    refine List.map_congr_left fun group hgroup => ?_
    obtain ⟨status, -, rfl⟩ := List.mem_map.mp (hperm.mem_iff.mp hgroup)
    rfl

/-- What is counted of a pool is what is left over of it. -/
theorem availableCount_leftOver (t : IpamTables) (pool : IpPool) : availableCount t pool = (leftOver t pool).card := by
  unfold availableCount leftOver
  rw [availableAddressCount_eq]
  congr 2
  refine Finset.filter_congr fun x _ => ?_
  rw [covered_blockedRanges]
  push Not
  tauto

theorem pools_metrics (o : Orders) (t : IpamTables) :
    (ipPoolCounts o.pools t).map poolSample = (o.pools (t.pools.select IpPool.isActive)).map (poolMetric t) := by
  unfold ipPoolCounts
  rw [List.map_map]
  refine List.map_congr_left fun pool _ => ?_
  rw [Function.comp_apply]
  unfold poolSample poolMetric
  rw [availableCount_leftOver]

/-- **What a scraper reads** of `/metrics`: one sample for the workers, which is 1 if Redis answers and a heartbeat was
recorded within its time, one for each queue, each active cluster under the name it has, each status that an operation
has and each active pool. -/
theorem metrics_read {ttl : Nat} {beats : List Heartbeat} (hordered : beats.Pairwise fun b c => b.time ≤ c.time)
    {r : RedisView} (hkeys : r.keys = recorded ttl beats) (o : Orders) (db : Database) (now : Instant) :
    ∃ (up : Bool) (clusters : List Cluster) (groups : List OperationStatus) (pools : List IpPool),
      (up = true ↔ r.scans = true ∧ ∃ b ∈ beats, b.sent = true ∧ now ≤ b.time + ttl * second) ∧
      clusters.Perm (db.clusters.filter Cluster.isActive) ∧
      groups.Perm (statuses.filter fun status => operationTotal db status ≠ 0) ∧
      pools.Perm (db.ipam.pools.select IpPool.isActive) ∧
      read (prometheusMetrics o r db now) = some (workerSample up :: queueMetrics r ++ clusters.map clusterMetric ++
        groups.map (operationMetric db) ++ pools.map (poolMetric db.ipam)) := by
  obtain ⟨groups, hgroups, hoperations⟩ := operations_metrics o db
  refine ⟨(workerStatus r now).alive, o.clusters (db.clusters.filter Cluster.isActive), groups,
    o.pools (db.ipam.pools.select IpPool.isActive), alive_iff hordered hkeys now, o.clusters_perm _, hgroups,
    o.pools_perm _, ?_⟩
  unfold prometheusMetrics
  rw [metricLines_text _ _ _ _ (queues_escaped r), intercalate_lines, read_exposition _ fun l hl => metrics_written hl,
    metrics_samples]
  · unfold samples
    rw [queues_metrics, clusters_metrics, hoperations, pools_metrics]
  · simp [metrics, comments]

/-- A cluster whose name has a quote and a line break, and a worker that sent a heartbeat half a minute ago. -/
theorem quoted_read : ∃ r o db,
    read (prometheusMetrics o r db (30 * second)) =
      some [workerSample true,
        ⟨"pvemaster_job_queue_length".toList, [("queue".toList, "celery".toList)], 2⟩,
        ⟨"pvemaster_job_queue_length".toList, [("queue".toList, "operations".toList)], 0⟩,
        ⟨"pvemaster_cluster_connection_up".toList, [("cluster_id".toList, uuid 1), ("name".toList, "a\"\n".toList)], 1⟩] := by
  let db : Database := ⟨[⟨1, "a\"\n".toList, true, some 0, none⟩], .empty, ⟨.empty, .empty, .empty, .empty⟩⟩
  let r : RedisView := ⟨recorded 60 [⟨"w".toList, 0, true⟩], 0, 2, true, true⟩
  obtain ⟨up, clusters, groups, pools, hup, hclusters, hgroups, hpools, hread⟩ :=
    metrics_read (List.pairwise_singleton _ ⟨"w".toList, 0, true⟩) (r := r) rfl .stored db (30 * second)
  have halive : up = true := hup.mpr ⟨rfl, ⟨"w".toList, 0, true⟩, List.mem_cons_self, rfl, by decide⟩
  have hone : clusters = [⟨1, "a\"\n".toList, true, some 0, none⟩] := List.perm_singleton.mp hclusters
  have hno : groups = [] := List.perm_nil.mp hgroups
  have hnone : pools = [] := List.perm_nil.mp hpools
  exact ⟨r, .stored, db, by rw [hread, halive, hone, hno, hnone]; rfl⟩

end PveMaster.Observability
