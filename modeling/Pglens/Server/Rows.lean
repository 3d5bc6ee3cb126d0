import Pglens.Server.Wire
import Pglens.Delta.Batch
import Pglens.Topology.Engine

/-! The rows of internal/store that the pipeline builds, and the functions that fill them from one
metric at a time. Columns that no metric has set are `none`. -/
namespace Pglens.Server
open Pglens.Wire

/-- The conversion of a float to an integer: towards zero. -/
def truncInt (q : ℚ) : ℤ := q.num.tdiv q.den

def hasPrefix (s head : String) : Bool := head.toList.isPrefixOf s.toList

def contains (s part : String) : Bool := decide (part.toList <:+: s.toList)

def trimPrefix (s head : String) : String :=
  if hasPrefix s head then String.ofList (s.toList.drop head.length) else s

def tenantID : String := "default"

structure Origin where
  clusterID : ℤ
  instanceID : UUID
  deriving DecidableEq, Repr

inductive Destination
  | metrics
  | statements
  | ash
  | replication
  | tables
  | indexes
  | bloat
  deriving DecidableEq, Repr

def destinationTable (check : String) : Destination :=
  if check = "stat_statements" then .statements
  else if check = "ash" then .ash
  else if hasPrefix check "replication" then .replication
  else if check = "table_stats" then .tables
  else if check = "index_stats" then .indexes
  else if check = "bloat_estimate" then .bloat
  else .metrics

def bloatSkippedTablesMetric : String := "pg_bloat_skipped_tables"

def metricDestination (check metric : String) : Destination :=
  if metric=bloatSkippedTablesMetric then .metrics else destinationTable check

structure MetricRow where
  ts : Time
  tenantID : String
  clusterID : ℤ
  instanceID : UUID
  datname : String
  metric : String
  labels : Labels
  seriesID : ℤ
  value : ℚ
  deriving DecidableEq, Repr

structure StatementRow where
  ts : Time
  tenantID : String
  clusterID : ℤ
  instanceID : UUID
  datname : String
  queryID : ℤ
  callsRate : Option ℚ := none
  execTimeRateMs : Option ℚ := none
  rowsRate : Option ℚ := none
  sharedBlksHitRate : Option ℚ := none
  sharedBlksReadRate : Option ℚ := none
  walBytesRate : Option ℚ := none
  tempBlksWrittenRate : Option ℚ := none
  sampleSeconds : Option ℚ := none
  deriving DecidableEq, Repr

structure ASHRow where
  ts : Time
  tenantID : String
  clusterID : ℤ
  instanceID : UUID
  datname : String
  waitEventType : String
  waitEvent : String
  state : String
  queryID : Option ℤ
  samples : ℤ
  windowSeconds : ℤ
  windowTicks : ℤ
  deriving DecidableEq, Repr

structure ReplicationRow where
  ts : Time
  tenantID : String
  clusterID : ℤ
  instanceID : UUID
  upstreamID : Option UUID := none
  slotName : String
  edgeType : String
  syncState : Option String := none
  writeLagBytes : Option ℤ := none
  flushLagBytes : Option ℤ := none
  replayLagBytes : Option ℤ := none
  writeLagSec : Option ℚ := none
  flushLagSec : Option ℚ := none
  replayLagSec : Option ℚ := none
  slotActive : Option Bool := none
  slotWalStatus : Option String := none
  slotRetainedBytes : Option ℤ := none
  source : String
  slotType : Option String := none
  slotSafeWALSizeBytes : Option ℤ := none
  deriving DecidableEq, Repr

structure TableStatRow where
  ts : Time
  tenantID : String
  clusterID : ℤ
  instanceID : UUID
  datname : String
  schemaname : String
  relname : String
  seqScan : Option ℚ := none
  seqTupRead : Option ℚ := none
  idxScan : Option ℚ := none
  idxTupFetch : Option ℚ := none
  nTupIns : Option ℚ := none
  nTupUpd : Option ℚ := none
  nTupDel : Option ℚ := none
  nTupHotUpd : Option ℚ := none
  nLiveTup : Option ℤ := none
  nDeadTup : Option ℤ := none
  nModSinceAnalyze : Option ℤ := none
  deadTupleRatio : Option ℚ := none
  lastVacuumAgeSeconds : Option ℚ := none
  lastVacuum : Option Time := none
  lastAutovacuum : Option Time := none
  lastAnalyze : Option Time := none
  lastAutoanalyze : Option Time := none
  autovacuumCount : Option ℚ := none
  autoanalyzeCount : Option ℚ := none
  relpages : Option ℤ := none
  relTuples : Option ℚ := none
  relfrozenXIDAge : Option ℤ := none
  totalBytes : Option ℤ := none
  tableBytes : Option ℤ := none
  toastBytes : Option ℤ := none
  deriving DecidableEq, Repr

structure IndexStatRow where
  ts : Time
  tenantID : String
  clusterID : ℤ
  instanceID : UUID
  datname : String
  schemaname : String
  relname : String
  indexRelname : String
  idxScan : Option ℚ := none
  idxTupRead : Option ℚ := none
  idxTupFetch : Option ℚ := none
  idxBlksRead : Option ℚ := none
  idxBlksHit : Option ℚ := none
  indexBytes : Option ℤ := none
  isUnique : Option Bool := none
  isPrimary : Option Bool := none
  isValid : Option Bool := none
  defHash : Option String := none
  deriving DecidableEq, Repr

structure BloatRow where
  ts : Time
  tenantID : String
  clusterID : ℤ
  instanceID : UUID
  datname : String
  schemaname : String
  relname : String
  indexRelname : String
  objectKind : String
  method : String
  realBytes : Option ℤ := none
  expectedBytes : Option ℤ := none
  bloatBytes : Option ℤ := none
  bloatRatio : Option ℚ := none
  deriving DecidableEq, Repr

structure ObjectFactRow where
  tenantID : String
  clusterID : ℤ
  instanceID : UUID
  datname : String
  kind : String
  key : String
  labels : Labels
  valueText : Option String
  valueJSON : Bytes
  firstSeen : Time
  lastSeen : Time
  changedAt : Time
  deriving DecidableEq, Repr

structure LockSnapshotRow where
  tenantID : String
  instanceID : UUID
  clusterID : ℤ
  ts : Time
  tree : Bytes
  deriving DecidableEq, Repr

structure QueryTextRow where
  tenantID : String
  clusterID : ℤ
  datname : String
  queryID : ℤ
  pgMajor : ℤ
  queryText : String
  lastSeen : Time
  deriving DecidableEq, Repr

structure TopologyEdgeRow where
  tenantID : String
  clusterID : ℤ
  fromInstance : UUID
  toInstance : UUID
  edgeType : String
  confidence : Topology.Confidence
  deriving DecidableEq, Repr

structure RelationKey where
  schema : String
  relation : String
  index : String
  deriving DecidableEq, Repr

structure RelationStatsPrune where
  tableName : Destination
  tenantID : String
  instanceID : UUID
  datname : String
  before : Time
  present : List RelationKey
  deriving DecidableEq, Repr

structure FactKey where
  kind : String
  key : String
  deriving DecidableEq, Repr

structure ObjectFactPrune where
  tenantID : String
  instanceID : UUID
  datname : String
  kinds : List String
  before : Time
  present : List FactKey
  deriving DecidableEq, Repr

structure CounterReset where
  datname : String
  ts : Time
  metric : String
  reason : Delta.ResetReason
  labels : Labels
  deriving DecidableEq, Repr

inductive EventType
  | topology (type : Topology.EventType)
  | cardinalityTruncated
  | counterResetDetected
  deriving DecidableEq, Repr

/-- Their payloads, under the keys the source writes. `series` holds a metric, a reason and
labels for each series of the sample. -/
inductive EventPayload
  | topology (payload : Topology.Payload)
  | truncated (check database : String)
  | resets (metric : String) (reason : Delta.ResetReason) (labels : Labels) (count : ℕ)
      (database : String) (series : List (String × Delta.ResetReason × Labels))
  deriving DecidableEq, Repr

structure EventRow where
  tenantID : String
  ts : Time
  type : EventType
  clusterID : ℤ
  instanceID : Option UUID
  payload : EventPayload
  deriving DecidableEq, Repr

def counterResetSample : ℕ := 10

/-- counterResetEvents: one event per database of a result, in the order the databases
first appear. -/
def counterResetEvents (resets : List CounterReset) (o : Origin) : List EventRow :=
  (resets.map CounterReset.datname).eraseDups.filterMap fun datname =>
    let group := resets.filter fun r => r.datname == datname
    group.head?.map fun first =>
      { tenantID := tenantID, ts := first.ts, type := .counterResetDetected,
        clusterID := o.clusterID, instanceID := some o.instanceID,
        payload := .resets first.metric first.reason first.labels group.length datname
          ((group.take counterResetSample).map fun r => (r.metric,r.reason,r.labels)) }

def seriesDatname (r : Result) (m : Metric) : String :=
  if r.database ≠ "" then r.database else m.labels.get "database"

/-- A result that covers several databases has one StatsReset for all of them, which a
series of one database is not observed with. -/
def seriesStatsReset (r : Result) (m : Metric) : Option Time :=
  if r.database = "" ∧ m.labels.get "database" ≠ "" then none else r.statsReset

def runningBasebackups (r : Result) : ℤ :=
  if r.error ≠ "" ∨ r.skipReason ≠ "" then 0
  else match r.metrics.find? fun m => m.name == "pg_basebackup_jobs_running" && m.labels.isEmpty with
    | some m => truncInt m.value
    | none => 0

def replicationSource (check : String) : String :=
  if check = "replication_receiver" then "receiver"
  else if check = "replication_streaming" then "sender"
  else if check = "replication_slots" then "slot"
  else ""

def presentRelations (metrics : List Metric) : List RelationKey :=
  ((metrics.filter fun m => m.name != bloatSkippedTablesMetric).map fun m =>
    (⟨m.labels.get "schemaname",m.labels.get "relname",m.labels.get "indexrelname"⟩ :
      RelationKey)).eraseDups

def presentFacts (facts : List Fact) : List FactKey := facts.map fun f => ⟨f.kind,f.key⟩

/-- ageToTime, at the microsecond precision of timestamptz. -/
def ageToTime (ts : Time) (ageSeconds : ℚ) : Time :=
  let ns := ts.ns-truncInt (ageSeconds*Duration.second)
  { ts with ns := ns-ns%Duration.microsecond }

def applyTableMetric (c : Codec) (row : TableStatRow) (name : String) (value : ℚ) :
    TableStatRow :=
  match c.toLower name with
  | "seq_scan" => { row with seqScan := some value }
  | "seq_tup_read" => { row with seqTupRead := some value }
  | "idx_scan" => { row with idxScan := some value }
  | "idx_tup_fetch" => { row with idxTupFetch := some value }
  | "n_tup_ins" => { row with nTupIns := some value }
  | "n_tup_upd" => { row with nTupUpd := some value }
  | "n_tup_del" => { row with nTupDel := some value }
  | "n_tup_hot_upd" => { row with nTupHotUpd := some value }
  | "autovacuum_count" => { row with autovacuumCount := some value }
  | "autoanalyze_count" => { row with autoanalyzeCount := some value }
  | "n_live_tup" => { row with nLiveTup := some (truncInt value) }
  | "n_dead_tup" => { row with nDeadTup := some (truncInt value) }
  | "n_mod_since_analyze" => { row with nModSinceAnalyze := some (truncInt value) }
  | "dead_tuple_ratio" => { row with deadTupleRatio := some value }
  | "last_vacuum_age_seconds" =>
    { row with lastVacuumAgeSeconds := some value, lastVacuum := some (ageToTime row.ts value) }
  | "last_autovacuum_age_seconds" => { row with lastAutovacuum := some (ageToTime row.ts value) }
  | "last_analyze_age_seconds" => { row with lastAnalyze := some (ageToTime row.ts value) }
  | "last_autoanalyze_age_seconds" => { row with lastAutoanalyze := some (ageToTime row.ts value) }
  | "relpages" => { row with relpages := some (truncInt value) }
  | "reltuples" => { row with relTuples := some value }
  | "relfrozenxid_age" => { row with relfrozenXIDAge := some (truncInt value) }
  | "total_bytes" => { row with totalBytes := some (truncInt value) }
  | "table_bytes" => { row with tableBytes := some (truncInt value) }
  | "toast_bytes" => { row with toastBytes := some (truncInt value) }
  | _ => row

def applyIndexMetric (c : Codec) (row : IndexStatRow) (name : String) (value : ℚ)
    (labels : Labels) : IndexStatRow :=
  match c.toLower name with
  | "idx_scan" => { row with idxScan := some value }
  | "idx_tup_read" => { row with idxTupRead := some value }
  | "idx_tup_fetch" => { row with idxTupFetch := some value }
  | "idx_blks_read" => { row with idxBlksRead := some value }
  | "idx_blks_hit" => { row with idxBlksHit := some value }
  | "index_bytes" => { row with indexBytes := some (truncInt value) }
  | "is_unique" => { row with isUnique := some (value != 0) }
  | "is_primary" => { row with isPrimary := some (value != 0) }
  | "is_valid" => { row with isValid := some (value != 0) }
  | "def_hash" =>
    if labels.get "def_hash" ≠ "" then { row with defHash := some (labels.get "def_hash") } else row
  | _ => row

def applyBloatMetric (c : Codec) (row : BloatRow) (name : String) (value : ℚ) : BloatRow :=
  match c.toLower name with
  | "real_bytes" | "bloat_real_bytes" => { row with realBytes := some (truncInt value) }
  | "expected_bytes" | "bloat_expected_bytes" => { row with expectedBytes := some (truncInt value) }
  | "bytes" | "bloat_bytes" => { row with bloatBytes := some (truncInt value) }
  | "ratio" | "bloat_ratio" => { row with bloatRatio := some value }
  | _ => row

/-- The first of the labels that is set. -/
def firstLabel (labels : Labels) (names : List String) : Option String :=
  (names.map labels.get).find? fun v => v != ""

def replicationSlot (labels : Labels) : String :=
  (firstLabel labels ["slot_name","slot","application_name","standby"]).getD ""

def applyStatementMetric (c : Codec) (row : StatementRow) (name : String) (value : ℚ) :
    StatementRow :=
  let lower := c.toLower name
  if contains lower "temp_blks_written" then { row with tempBlksWrittenRate := some value }
  else if contains lower "shared_blks_hit" then { row with sharedBlksHitRate := some value }
  else if contains lower "shared_blks_read" then { row with sharedBlksReadRate := some value }
  else if contains lower "wal_bytes" then { row with walBytesRate := some value }
  else if contains lower "exec_time" || contains lower "total_exec" then
    { row with execTimeRateMs := some value }
  else if contains lower "calls" then { row with callsRate := some value }
  else if contains lower "rows" && !contains lower "blks" then { row with rowsRate := some value }
  else row

/-- The sync_state label, under the name older agents use too. -/
def syncStateLabel (labels : Labels) : Option String :=
  (labels.lookup "sync_state").orElse fun _ => labels.lookup "sync_mode"

/-- applyReplicationMetric, first what it does for every metric of a slot. -/
def applySlotLabels (lower : String) (row : ReplicationRow) (labels : Labels) : ReplicationRow :=
  if row.source = "slot" ∨ contains lower "slot_" then
    { row with
      slotWalStatus := row.slotWalStatus.orElse fun _ =>
        firstLabel labels ["slot_wal_status","wal_status","status"]
      slotType := row.slotType.orElse fun _ => firstLabel labels ["slot_type"] }
  else row

def applyReplicationMetric (c : Codec) (row : ReplicationRow) (name : String) (value : ℚ)
    (labels : Labels) : ReplicationRow :=
  let lower := c.toLower name
  let row := applySlotLabels lower row labels
  if contains lower "slot_active_pid" then row
  else if contains lower "slot_safe_wal_size" then
    { row with slotSafeWALSizeBytes := some (truncInt value) }
  else if contains lower "slot_active" then { row with slotActive := some (value != 0) }
  else if contains lower "slot_retained" || contains lower "retained_bytes" then
    { row with slotRetainedBytes := some (truncInt value) }
  else if contains lower "write_lag_bytes" then { row with writeLagBytes := some (truncInt value) }
  else if contains lower "flush_lag_bytes" then { row with flushLagBytes := some (truncInt value) }
  else if contains lower "replay_lag_bytes" then
    { row with replayLagBytes := some (truncInt value) }
  else if contains lower "write_lag" && contains lower "sec" then
    { row with writeLagSec := some value }
  else if contains lower "flush_lag" && contains lower "sec" then
    { row with flushLagSec := some value }
  else if contains lower "replay_lag" && contains lower "sec" then
    { row with replayLagSec := some value }
  else if contains lower "sync_state" then
    match syncStateLabel labels with
    | some s => { row with syncState := some s }
    | none => row
  else row

/-- A label, or what stands for it when it is empty. -/
def labelOr (labels : Labels) (name dflt : String) : String :=
  if labels.get name = "" then dflt else labels.get name

/-- The number under the first of two labels that is there at all. -/
def labelInt (c : Codec) (labels : Labels) (name other : String) (dflt : ℤ) : ℤ :=
  match labels.lookup name with
  | some v => (c.parseInt v).getD dflt
  | none => ((labels.lookup other).bind c.parseInt).getD dflt

/-- The queryid of an ASH bucket. The second spelling is read only when the first is empty,
and any other case of the name only when neither gave a number. -/
def ashQueryID (c : Codec) (labels : Labels) : Option ℤ :=
  let spelled := if labels.get "queryid" ≠ "" then c.parseInt (labels.get "queryid")
    else if labels.get "query_id" ≠ "" then c.parseInt (labels.get "query_id") else none
  spelled.orElse fun _ => labels.findSome? fun kv =>
    if c.equalFold kv.1 "queryid" && kv.2 != "" then c.parseInt kv.2 else none

def buildASHRow (c : Codec) (ts : Time) (o : Origin) (datname : String) (m : Metric) : ASHRow where
  ts := ts
  tenantID := tenantID
  clusterID := o.clusterID
  instanceID := o.instanceID
  datname := labelOr m.labels "datname" datname
  waitEventType := labelOr m.labels "wait_event_type" "CPU"
  waitEvent := labelOr m.labels "wait_event" "CPU"
  state := labelOr m.labels "state" "active"
  queryID := ashQueryID c m.labels
  samples := truncInt m.value
  windowSeconds := labelInt c m.labels "window_seconds" "window" 10
  windowTicks := labelInt c m.labels "window_ticks" "ticks" 0

/-- The queryid label of a statement metric, in any spelling. -/
def statementQueryID (c : Codec) (labels : Labels) : Option ℤ :=
  (((firstLabel labels ["queryid","query_id"]).orElse fun _ =>
    (labels.find? fun kv => c.equalFold kv.1 "queryid").map Prod.snd).filter
      fun s => s != "").bind c.parseInt

/-- How far the agent's clock is from the server's. -/
def clockSkewSeconds (now sent : Time) : ℚ := |Duration.seconds (now.sub sent)|

/-- The newest timestamp of the results, else the sent time, else the receive time. -/
def selfMetricTS (env : Envelope) (results : List Result) (now : Time) : Time :=
  let ts := results.foldl (fun ts r => if r.ts.after ts then r.ts else ts) .zero
  if !ts.isZero then ts else if !env.sentAt.isZero then env.sentAt else now

/-- selfMetricRows: the ingest self-monitoring gauges of one instance. -/
def selfMetricRows (c : Codec) (env : Envelope) (inst : Instance) (o : Origin) (now : Time) :
    List MetricRow :=
  if inst.results=[] then [] else
  let total : ℚ := inst.results.length
  let failed : ℚ := (inst.results.filter fun r => r.error != "").length
  let truncated : ℚ := (inst.results.filter fun r => r.truncated).length
  let sent := if env.transmittedAt.isZero then env.sentAt else env.transmittedAt
  let values := [("pglens_check_error_rate",failed/total),
    ("pglens_cardinality_truncated_rate",truncated/total)] ++
    if sent.isZero then [] else [("pglens_agent_clock_skew_seconds",clockSkewSeconds now sent)]
  values.map fun v =>
    { ts := selfMetricTS env inst.results now, tenantID := tenantID, clusterID := o.clusterID,
      instanceID := o.instanceID, datname := "", metric := v.1, labels := [],
      seriesID := c.seriesID ⟨v.1,o.instanceID,"",""⟩, value := v.2 }

end Pglens.Server
