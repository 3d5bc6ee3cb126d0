import Pglens.Server.Addresses

/-! The loop body of Pipeline.Process over the results of an instance: facts, prunes, truncation
events, query texts and metrics go to the instance's buffers, and a metric of unknown kind rejects
the instance. -/
namespace Pglens.Server
open Pglens.Lib Pglens.Wire

inductive InstanceError
  | invalidClusterID (text : String)
  | invalidInstanceID (text : String)
  | unknownKind (kind metric : String)
  deriving DecidableEq, Repr

/-- The results one check reports for one database of one instance. -/
structure CheckCountKey where
  instanceID : UUID
  check : String
  database : String
  deriving DecidableEq, Repr

structure CheckOutcome where
  key : CheckCountKey
  ts : Time
  failed : Bool
  deriving DecidableEq, Repr

structure StatementKey where
  ts : Time
  datname : String
  queryID : ℤ
  deriving DecidableEq, Repr

structure ReplicationKey where
  ts : Time
  slot : String
  datname : String
  source : String
  deriving DecidableEq, Repr

structure TableStatKey where
  ts : Time
  datname : String
  schema : String
  relname : String
  deriving DecidableEq, Repr

structure IndexStatKey where
  ts : Time
  datname : String
  schema : String
  indexrelname : String
  deriving DecidableEq, Repr

structure BloatKey where
  ts : Time
  datname : String
  schema : String
  relname : String
  indexrelname : String
  method : String
  deriving DecidableEq, Repr

structure PartialKey where
  check : String
  datname : String
  deriving DecidableEq, Repr

structure PartialObservation where
  ts : Time
  isPartial : Bool
  truncated : Bool
  deriving DecidableEq, Repr

/-- The row under a key of a map of row pointers is changed, after it is created when there
is none. -/
def upsert {K V : Type} [DecidableEq K] (m : List (K × V)) (k : K) (fresh : V) (f : V → V) :
    List (K × V) :=
  if (m.lookup k).isSome then m.map fun kv => if kv.1=k then (k,f kv.2) else kv
  else m++[(k,f fresh)]

structure Context where
  codec : Codec
  store : Store
  inst : Instance
  origin : Origin
  edges : List Topology.Edge

/-- The buffers of one instance. `resets` is of the result at hand, and `rates` are the rate
points that rows were built from. -/
structure InstanceState where
  delta : Delta.Engine
  batch : Delta.Batch
  events : List EventRow := []
  generic : List MetricRow := []
  ash : List ASHRow := []
  queryTexts : List QueryTextRow := []
  statements : List (StatementKey × StatementRow) := []
  replication : List (ReplicationKey × ReplicationRow) := []
  facts : List ObjectFactRow := []
  clearCheckSkips : List String := []
  partialState : List (PartialKey × PartialObservation) := []
  truncatedAt : String → Option Time := fun _ => none
  lockSnapshot : Option LockSnapshotRow := none
  tables : List (TableStatKey × TableStatRow) := []
  indexes : List (IndexStatKey × IndexStatRow) := []
  bloat : List (BloatKey × BloatRow) := []
  relationPrunes : List RelationStatsPrune := []
  factPrunes : List ObjectFactPrune := []
  outcomes : List CheckOutcome := []
  resets : List CounterReset := []
  rates : List Delta.Point := []

/-- The buffers before the first result, with the events of the topology step. -/
def InstanceState.start (delta : Delta.Engine) (events : List EventRow) : InstanceState :=
  { delta := delta, batch := delta.begin, events := events }

/-- An object fact without labels that was seen at one time. -/
def factAt (o : Origin) (datname kind key : String) (text : Option String) (ts : Time) :
    ObjectFactRow :=
  ⟨tenantID,o.clusterID,o.instanceID,datname,kind,key,[],text,[],ts,ts,ts⟩

def complete (r : Result) : Bool :=
  r.error == "" && r.skipReason == "" && !r.truncated && !r.isPartial

def relationPrune (o : Origin) (r : Result) : List RelationStatsPrune :=
  match destinationTable r.check with
  | .tables | .indexes | .bloat =>
    [⟨destinationTable r.check,tenantID,o.instanceID,r.database,r.ts,presentRelations r.metrics⟩]
  | _ => []

def factPrune (o : Origin) (r : Result) : List ObjectFactPrune :=
  if replacedFactKinds r.check = [] then []
  else [⟨tenantID,o.instanceID,r.database,replacedFactKinds r.check,r.ts,presentFacts r.facts⟩]

/-- A result up to its truncation event: skip facts, prunes, partial state and outcome. -/
def InstanceState.note (x : Context) (s : InstanceState) (r : Result) : InstanceState :=
  let pk : PartialKey := ⟨r.check,r.database⟩
  { s with
    facts := if r.skipReason ≠ ""
      then s.facts++[factAt x.origin "" "check_skip" r.check (some r.skipReason) r.ts]
      else s.facts
    clearCheckSkips := if r.skipReason = "" ∧ r.error = "" then s.clearCheckSkips++[r.check]
      else s.clearCheckSkips
    relationPrunes := if complete r then s.relationPrunes++relationPrune x.origin r
      else s.relationPrunes
    factPrunes := if complete r then s.factPrunes++factPrune x.origin r else s.factPrunes
    partialState := if r.error = "" ∧ r.skipReason = "" ∧
        !((s.partialState.lookup pk).any fun latest => r.ts.before latest.ts)
      then upsert s.partialState pk ⟨r.ts,r.isPartial,r.truncated⟩
        fun _ => ⟨r.ts,r.isPartial,r.truncated⟩
      else s.partialState
    outcomes := if r.error ≠ "" ∨ r.skipReason = ""
      then s.outcomes++[⟨⟨x.origin.instanceID,r.check,r.database⟩,r.ts,r.error != ""⟩]
      else s.outcomes }

/-- truncationEventDue: `none` when its lookup fails. -/
def truncationEventDue (x : Context) (written : String → Option Time) (txn : Txn)
    (check : String) (ts : Time) : Option (Bool × Txn) :=
  if (written check).any fun last => decide (ts.sub last<truncationEventWindow)
  then some (false,txn)
  else txn.exec.map fun txn => (!x.store.recentlyTruncated x.origin check ts,txn)

def truncationEvent (o : Origin) (r : Result) : EventRow :=
  ⟨tenantID,r.ts,.cardinalityTruncated,o.clusterID,some o.instanceID,
    .truncated r.check r.database⟩

/-- The truncation event of a result, if one is due. -/
def InstanceState.markTruncated (x : Context) (s : InstanceState) (txn : Txn) (r : Result) :
    Option (InstanceState × Txn) :=
  if r.truncated then
    (truncationEventDue x s.truncatedAt txn r.check r.ts).map fun (due,txn) =>
      (if due then { s with
        truncatedAt := Function.update s.truncatedAt r.check (some r.ts)
        events := s.events++[truncationEvent x.origin r] } else s,txn)
  else some (s,txn)

def InstanceState.addFact (x : Context) (r : Result) (s : InstanceState) (f : Fact) :
    InstanceState :=
  if (f.validate x.codec).isSome then s
  else if f.kind = "lock_tree" then
    { s with lockSnapshot := some ⟨tenantID,x.origin.instanceID,x.origin.clusterID,r.ts,
        x.codec.withholdLockTreeQueries f.valueJSON⟩ }
  else if f.kind = "plan" then s
  else
    let f := if f.kind = "xmin_horizon"
      then { f with valueJSON := x.codec.withholdXminIdentity f.valueJSON } else f
    { s with facts := s.facts++[{ factAt x.origin r.database f.kind f.key
        (if f.valueText ≠ "" ∨ f.emptySetting then some f.valueText else none) r.ts with
        labels := f.labels, valueJSON := f.valueJSON }] }

/-- The major version as PGVersion.Major gives it. -/
def pgMajor (version : ℤ) : ℤ := version.tdiv 10000

def queryText (x : Context) (r : Result) (kv : String × String) : Option QueryTextRow :=
  (x.codec.parseInt kv.1).map fun qid =>
    ⟨tenantID,x.origin.clusterID,r.database,qid,pgMajor x.inst.pgVersion,
      if x.codec.mayHoldCredential kv.2 then x.codec.withheld else kv.2,r.ts⟩

/-- A result between its truncation event and its metrics: facts, a running base backup,
query texts. -/
def InstanceState.describe (x : Context) (s : InstanceState) (r : Result) : InstanceState :=
  let s := r.facts.foldl (InstanceState.addFact x r) s
  { s with
    facts := if 0<runningBasebackups r
      then s.facts++[factAt x.origin "" "backup" "basebackup_running"
        (some (toString (runningBasebackups r))) r.ts]
      else s.facts
    queryTexts := s.queryTexts++r.queryTexts.filterMap (queryText x r) }

def seriesKey (x : Context) (r : Result) (m : Metric) : SeriesKey :=
  ⟨m.name,x.origin.instanceID,seriesDatname r m,x.codec.canonicalLabels m.labels⟩

def counterObservation (x : Context) (r : Result) (m : Metric) : Delta.Observation :=
  ⟨seriesKey x r m,r.ts,m.value,seriesStatsReset r m⟩

section NewRows
variable (x : Context) (r : Result)

def newStatementRow (qid : ℤ) : StatementRow where
  ts := r.ts
  tenantID := tenantID
  clusterID := x.origin.clusterID
  instanceID := x.origin.instanceID
  datname := r.database
  queryID := qid

/-- Only a receiver row falls back to this instance's own upstream. -/
def newReplicationRow (m : Metric) : ReplicationRow where
  ts := r.ts
  tenantID := tenantID
  clusterID := x.origin.clusterID
  instanceID := x.origin.instanceID
  slotName := replicationSlot m.labels
  edgeType := "streaming"
  source := replicationSource r.check
  upstreamID := match m.labels.lookup "upstream_id" with
    | some s => x.codec.parseUUID s
    | none => if replicationSource r.check = "receiver"
      then x.edges.head?.map Topology.Edge.toID else none
  syncState := syncStateLabel m.labels

def newTableStatRow (key : TableStatKey) : TableStatRow where
  ts := r.ts
  tenantID := tenantID
  clusterID := x.origin.clusterID
  instanceID := x.origin.instanceID
  datname := r.database
  schemaname := key.schema
  relname := key.relname

def newIndexStatRow (key : IndexStatKey) (relname : String) : IndexStatRow where
  ts := r.ts
  tenantID := tenantID
  clusterID := x.origin.clusterID
  instanceID := x.origin.instanceID
  datname := r.database
  schemaname := key.schema
  relname := relname
  indexRelname := key.indexrelname

def newBloatRow (key : BloatKey) (objectKind : String) : BloatRow where
  ts := r.ts
  tenantID := tenantID
  clusterID := x.origin.clusterID
  instanceID := x.origin.instanceID
  datname := r.database
  schemaname := key.schema
  relname := key.relname
  indexRelname := key.indexrelname
  objectKind := objectKind
  method := key.method

def genericRow (m : Metric) (value : ℚ) : MetricRow where
  ts := r.ts
  tenantID := tenantID
  clusterID := x.origin.clusterID
  instanceID := x.origin.instanceID
  datname := seriesDatname r m
  metric := m.name
  labels := m.labels
  seriesID := x.codec.seriesID (seriesKey x r m)
  value := value

end NewRows

/-- The interval of the first rate a statement row is built from. -/
def StatementRow.sampled (row : StatementRow) (seconds : ℚ) : StatementRow :=
  if 0<seconds ∧ row.sampleSeconds=none then { row with sampleSeconds := some seconds } else row

/-- The switch on the destination: the row, or the column of a row, of one value.
`seconds` is the interval of a rate, zero for a gauge. -/
def InstanceState.route (x : Context) (r : Result) (m : Metric) (value seconds : ℚ)
    (s : InstanceState) : InstanceState :=
  let label := m.labels.get
  match metricDestination r.check m.name with
  | .metrics => { s with generic := s.generic++[genericRow x r m value] }
  | .statements =>
    match statementQueryID x.codec m.labels with
    | none => s
    | some qid =>
      { s with
        statements := upsert s.statements ⟨r.ts,r.database,qid⟩ (newStatementRow x r qid)
          fun row => (applyStatementMetric x.codec row m.name value).sampled seconds }
  -- ASH rows are built before the switch.
  | .ash => s
  | .replication =>
    let key := ⟨r.ts,replicationSlot m.labels,r.database,replicationSource r.check⟩
    { s with
      replication := upsert s.replication key (newReplicationRow x r m)
        fun row => applyReplicationMetric x.codec row m.name value m.labels }
  | .tables =>
    let key := ⟨r.ts,r.database,label "schemaname",label "relname"⟩
    { s with
      tables := upsert s.tables key (newTableStatRow x r key)
        fun row => applyTableMetric x.codec row (trimPrefix m.name "pg_table_") value }
  | .indexes =>
    let key := ⟨r.ts,r.database,label "schemaname",label "indexrelname"⟩
    { s with
      indexes := upsert s.indexes key (newIndexStatRow x r key (label "relname"))
        fun row => applyIndexMetric x.codec row (trimPrefix m.name "pg_index_") value m.labels }
  | .bloat =>
    let key := ⟨r.ts,r.database,label "schemaname",label "relname",label "indexrelname",
      label "method"⟩
    { s with
      bloat := upsert s.bloat key (newBloatRow x r key (label "object_kind"))
        fun row => applyBloatMetric x.codec row (trimPrefix m.name "pg_bloat_") value }

/-- A counter: its observation, and the row of the rate or the reset it yields. -/
def InstanceState.observe (x : Context) (r : Result) (m : Metric) (s : InstanceState) :
    InstanceState :=
  let o := s.batch.observe s.delta (counterObservation x r m)
  let s := { s with batch := o.2.1, delta := o.2.2 }
  match o.1 with
  | (_,some ev) => { s with resets := s.resets ++
      [⟨seriesDatname r m,ev.ts,m.name,ev.reason,m.labels⟩] }
  | (some pt,none) => { s with rates := s.rates++[pt] }.route x r m pt.rate pt.seconds
  | (none,none) => s

/-- One metric of a result. ASH buckets are counts and are never observed. -/
def InstanceState.addMetric (x : Context) (r : Result) (s : InstanceState) (m : Metric) :
    Except InstanceError InstanceState :=
  match m.kind with
  | .other kind => .error (.unknownKind kind m.name)
  | kind =>
    if metricDestination r.check m.name = .ash then
      .ok { s with ash := s.ash++[buildASHRow x.codec r.ts x.origin r.database m] }
    else if kind=.counter then .ok (s.observe x r m)
    else .ok (s.route x r m m.value 0)

def InstanceState.addMetrics (x : Context) (r : Result) (s : InstanceState) :
    List Metric → Except InstanceError InstanceState
  | [] => .ok s
  | m::ms =>
    match s.addMetric x r m with
    | .error err => .error err
    | .ok s => s.addMetrics x r ms

/-- How the results of an instance end: taken, rejected, or with a lookup that failed. -/
inductive Verdict
  | taken (s : InstanceState) (txn : Txn)
  | rejected (err : InstanceError) (txn : Txn)
  | failed

def InstanceState.addResult (x : Context) (s : InstanceState) (txn : Txn) (r : Result) :
    Verdict :=
  match (s.note x r).markTruncated x txn r with
  | none => .failed
  | some (s,txn) =>
    match (s.describe x r).addMetrics x r r.metrics with
    | .error err => .rejected err txn
    | .ok s => .taken { s with events := s.events++counterResetEvents s.resets x.origin
                               resets := [] } txn

/-- The results of an instance, up to the first that rejects it. -/
def InstanceState.addResults (x : Context) (s : InstanceState) (txn : Txn) :
    List Result → Verdict
  | [] => .taken s txn
  | r::rs =>
    match s.addResult x txn r with
    | .taken s txn => s.addResults x txn rs
    | .rejected err txn => .rejected err txn
    | .failed => .failed

end Pglens.Server
