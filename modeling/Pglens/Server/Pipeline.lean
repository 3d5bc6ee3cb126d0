import Pglens.Server.Instance

/-! An envelope is processed instance by instance and stored in one transaction. The topology engine
changes as the instances are processed and is put back by its undo functions when an instance is
rejected or the envelope fails. The clock is read several times in a call; a `Clock` is those
readings. The counters of refused facts and edges and the series gauge are left out: nothing reads
them back. -/
namespace Pglens.Server
open Pglens.Lib Pglens.Wire Function

/-- The readings of the server's clock during one call: at its start, at each instance's
observation and self metrics, and at the end. -/
structure Clock where
  start : Time
  observed : ℕ → Time
  self : ℕ → Time
  counted : Time

/-- `checkOK` and `checkErrors` are the check counters. -/
structure Pipeline where
  pool : Bool
  delta : Delta.Engine
  topo : Topology.Engine
  lastEvict : Time
  checkCounted : CheckCountKey → Option Time
  checkOK : UUID × String → ℕ
  checkErrors : UUID × String → ℕ

def newPipeline (pool : Bool) (now : Time) : Pipeline :=
  ⟨pool,Delta.newEngine 0,Topology.newEngine,now,fun _ => none,fun _ => 0,fun _ => 0⟩

def Pipeline.evicts (p : Pipeline) (now : Time) : Bool :=
  !decide (now.sub p.lastEvict<10*Duration.minute)

def Pipeline.maybeEvict (p : Pipeline) (now : Time) : Pipeline :=
  if p.evicts now then
    let cutoff := now.add (-Duration.hour)
    { p with
      delta := p.delta.evict cutoff
      topo := p.topo.evict cutoff
      checkCounted := fun key => (p.checkCounted key).filter fun ts =>
        !(ts.before cutoff || ts.after (now.add Duration.hour))
      lastEvict := now }
  else p

def Pipeline.count (p : Pipeline) (id : UUID) (check : String) (failed : Bool) : Pipeline :=
  if failed then
    { p with checkErrors := update p.checkErrors (id,check) (p.checkErrors (id,check)+1) }
  else { p with checkOK := update p.checkOK (id,check) (p.checkOK (id,check)+1) }

/-- One outcome in Pipeline.countChecks. -/
def Pipeline.countCheck (now : Time) (p : Pipeline) (o : CheckOutcome) : Pipeline :=
  if (p.checkCounted o.key).any fun last => !last.after now && !o.ts.after last then p
  else { p with checkCounted := update p.checkCounted o.key (some o.ts) }.count
    o.key.instanceID o.key.check o.failed

def Pipeline.countChecks (p : Pipeline) (now : Time) (outcomes : List CheckOutcome) : Pipeline :=
  outcomes.foldl (Pipeline.countCheck now) p

def normalizeRole (role : String) : Role :=
  if role = "primary" then .primary else if role = "standby" then .standby else .unknown

/-- Where Process returns an error: the statement that failed. -/
inductive ErrorPoint
  | beginTx
  | readRole (id : UUID)
  | lookUpTruncated
  | writeTopologyEdges
  | deleteCheckSkip
  | deleteCheckPartial
  | storeRole (id : UUID)
  | touchInstances
  | writeMetrics
  | writeStatements
  | writeASH
  | writeReplication
  | writeQueryTexts
  | writeEvents
  | writeObjectFacts
  | pruneObjectFacts
  | writeLockSnapshots
  | pruneRelationStats
  | writeTableStats
  | writeIndexStats
  | writeBloat
  | commitTx
  deriving DecidableEq, Repr

structure PipelineResult where
  accepted : ℕ := 0
  rejected : ℕ := 0
  errors : String → Option InstanceError := fun _ => none

/-- The rows of an envelope's transaction, and the check outcomes it counts afterwards. -/
structure Staged where
  edges : List (Origin × List TopologyEdgeRow) := []
  clearedSkips : List (UUID × String) := []
  clearedPartials : List (UUID × PartialKey) := []
  generic : List MetricRow := []
  statements : List StatementRow := []
  ash : List ASHRow := []
  replication : List ReplicationRow := []
  queryTexts : List QueryTextRow := []
  events : List EventRow := []
  facts : List ObjectFactRow := []
  tables : List TableStatRow := []
  indexes : List IndexStatRow := []
  bloat : List BloatRow := []
  lockSnapshots : List LockSnapshotRow := []
  relationPrunes : List RelationStatsPrune := []
  factPrunes : List ObjectFactPrune := []
  outcomes : List CheckOutcome := []
  storedInstances : List UUID := []
  storedRoles : UUID → Option Role := fun _ => none
  rates : List Delta.Point := []

/-- An event of the topology engine as a row. A cluster-scoped event names no instance. -/
def topologyEvent (o : Origin) (ev : Topology.Event) : EventRow :=
  ⟨tenantID,ev.timestamp,.topology ev.type,o.clusterID,
    if ev.instanceID=UUID.nil then none else some ev.instanceID,.topology ev.payload⟩

def edgeRow (o : Origin) (e : Topology.Edge) : TopologyEdgeRow :=
  ⟨tenantID,o.clusterID,o.instanceID,e.toID,e.type,e.confidence⟩

/-- The check_partial facts that an accepted instance leaves, and those it removes. -/
def partialFacts (o : Origin) (s : InstanceState) : List ObjectFactRow :=
  (s.partialState.filter fun kv => kv.2.isPartial || kv.2.truncated).map fun kv =>
    factAt o kv.1.datname "check_partial" kv.1.check
      (some (if kv.2.truncated then "truncated" else "partial")) kv.2.ts

def completeAgain (s : InstanceState) : List PartialKey :=
  (s.partialState.filter fun kv => !kv.2.isPartial && !kv.2.truncated).map Prod.fst

/-- The statements an accepted instance adds to the transaction. -/
def acceptStatements (s : InstanceState) : List ErrorPoint :=
  [.writeTopologyEdges]++s.clearCheckSkips.eraseDups.map (fun _ => .deleteCheckSkip) ++
    (completeAgain s).map fun _ => .deleteCheckPartial

/-- The buffers of an accepted instance go to the envelope's. -/
def Staged.accept (st : Staged) (x : Context) (env : Envelope) (now : Time) (s : InstanceState) :
    Staged where
  edges := st.edges++[(x.origin,x.edges.map (edgeRow x.origin))]
  clearedSkips := st.clearedSkips++s.clearCheckSkips.eraseDups.map (Prod.mk x.origin.instanceID)
  clearedPartials := st.clearedPartials++(completeAgain s).map (Prod.mk x.origin.instanceID)
  generic := st.generic++s.generic++selfMetricRows x.codec env x.inst x.origin now
  statements := st.statements++s.statements.map Prod.snd
  ash := st.ash++s.ash
  replication := st.replication++s.replication.map Prod.snd
  queryTexts := st.queryTexts++s.queryTexts
  events := st.events++s.events
  facts := st.facts++s.facts++partialFacts x.origin s
  tables := st.tables++s.tables.map Prod.snd
  indexes := st.indexes++s.indexes.map Prod.snd
  bloat := st.bloat++s.bloat.map Prod.snd
  lockSnapshots := st.lockSnapshots++s.lockSnapshot.toList
  relationPrunes := st.relationPrunes++s.relationPrunes
  factPrunes := st.factPrunes++s.factPrunes
  outcomes := st.outcomes++s.outcomes
  storedInstances := st.storedInstances++[x.origin.instanceID]
  storedRoles := update st.storedRoles x.origin.instanceID
    (some (normalizeRole x.inst.role))
  rates := st.rates++s.rates

/-- The state of the loop over the instances. `undos` has the last undo function first, and
`delta` moves only in the addresses it hands out. -/
structure Loop where
  topo : Topology.Engine
  delta : Delta.Engine
  undos : List Topology.Undo := []
  lookups : Lookups
  staged : Staged := {}
  batches : List Delta.Batch := []
  result : PipelineResult := {}

/-- An error return in the middle of the call: the statement that failed, and the topology
engine with what the deferred function has to undo. -/
structure Failure where
  point : ErrorPoint
  topo : Topology.Engine
  undos : List Topology.Undo

structure Call where
  env : Envelope
  clock : Clock
  txn : Txn

def Loop.reject (l : Loop) (inst : Instance) (err : InstanceError) : Loop :=
  { l with result := { l.result with
      rejected := l.result.rejected+1
      errors := update l.result.errors inst.instanceID (some err) } }

/-- The observation of an instance that the topology engine gets. -/
def topologyObservation (st : Store) (env : Envelope) (inst : Instance) (cid : ClusterID)
    (id : UUID) (edges : List Topology.Edge) : Topology.Observation :=
  ⟨id,cid,normalizeRole inst.role,st.role id,env.sentAt,edges⟩

/-- An instance from its topology step on, with the edges and the lookups so far. -/
def Loop.addResolved (c : Codec) (st : Store) (call : Call) (l : Loop) (inst : Instance)
    (pos : ℕ) (cid : ClusterID) (id : UUID) (edges : List Topology.Edge) (q : Lookups) :
    Except Failure Loop :=
  let t := l.topo.applyUndoable (call.clock.observed pos)
    (topologyObservation st call.env inst cid id edges)
  let x : Context := ⟨c,st,inst,⟨cid.toInt,id⟩,edges⟩
  let s := InstanceState.start l.delta (t.1.map (topologyEvent x.origin))
  match s.addResults x q.txn inst.results with
  | .failed => .error ⟨.lookUpTruncated,t.2.2,t.2.1::l.undos⟩
  | .rejected err txn =>
    .ok ({ l with topo := t.2.1.run t.2.2, lookups := ⟨txn,q.cache⟩ }.reject inst err)
  | .taken s txn =>
    match txn.execAll (acceptStatements s) with
    | .error point => .error ⟨point,t.2.2,t.2.1::l.undos⟩
    | .ok txn => .ok
      { topo := t.2.2
        delta := s.delta
        undos := t.2.1::l.undos
        lookups := ⟨txn,q.cache⟩
        staged := l.staged.accept x call.env (call.clock.self pos) s
        batches := l.batches++[s.batch]
        result := { l.result with accepted := l.result.accepted+1 } }

/-- One instance whose identifiers are valid. -/
def Loop.addInstance (c : Codec) (st : Store) (call : Call) (l : Loop) (inst : Instance)
    (pos : ℕ) (cid : ClusterID) (id : UUID) : Except Failure Loop :=
  match l.lookups.txn.exec with
  | none => .error ⟨.readRole id,l.topo,l.undos⟩
  | some txn =>
    let r := resolveEdges (addressesOf c call.env) st cid id (upstreams inst)
      ⟨txn,l.lookups.cache⟩
    l.addResolved c st call inst pos cid id r.1 r.2

/-- One instance of the loop. -/
def Loop.step (c : Codec) (st : Store) (call : Call) (l : Loop) (inst : Instance) (pos : ℕ) :
    Except Failure Loop :=
  match c.parseClusterID inst.clusterID with
  | none => .ok (l.reject inst (.invalidClusterID inst.clusterID))
  | some cid =>
    match c.parseUUID inst.instanceID with
    | none => .ok (l.reject inst (.invalidInstanceID inst.instanceID))
    | some id => l.addInstance c st call inst pos cid id

/-- The loop over instances, each with its position in the envelope. -/
def Loop.run (c : Codec) (st : Store) (call : Call) (l : Loop) :
    List (Instance × ℕ) → Except Failure Loop
  | [] => .ok l
  | (inst,pos)::todo =>
    match l.step c st call inst pos with
    | .error f => .error f
    | .ok l => l.run c st call todo

/-- A write of several rows is a statement unless there are none. -/
def writeOf {α : Type} (point : ErrorPoint) (rows : List α) : List ErrorPoint :=
  if rows.isEmpty then [] else [point]

def finalStatements (s : Staged) : List ErrorPoint :=
  s.storedInstances.map .storeRole++writeOf .touchInstances s.storedInstances ++
  writeOf .writeMetrics s.generic++writeOf .writeStatements s.statements ++
  writeOf .writeASH s.ash++writeOf .writeReplication s.replication ++
  writeOf .writeQueryTexts s.queryTexts++writeOf .writeEvents s.events ++
  writeOf .writeObjectFacts s.facts++s.factPrunes.map (fun _ => .pruneObjectFacts) ++
  writeOf .writeLockSnapshots s.lockSnapshots ++
  s.relationPrunes.map (fun _ => .pruneRelationStats)++writeOf .writeTableStats s.tables ++
  writeOf .writeIndexStats s.indexes++writeOf .writeBloat s.bloat++[.commitTx]

/-- What a committed transaction changes in the tables that Process reads. -/
def Store.commit (st : Store) (s : Staged) : Store :=
  (s.storedInstances.foldl (fun st id => match s.storedRoles id with
    | some role => st.setRole id role
    | none => st) st).addEvents s.events

/-- What Process returns: an error, the result of an envelope that was stored with the rows
it stored, or, without a pool, the result alone. -/
inductive Reply
  | failed (point : ErrorPoint)
  | stored (result : PipelineResult) (rows : Staged)
  | unstored (result : PipelineResult)

structure World where
  server : Pipeline
  store : Store

/-- The metrics of a result without a pool: the engine moves at once. -/
def Pipeline.metricsNoDB (c : Codec) (id : UUID) (inst : Instance) (r : Result) (p : Pipeline) :
    List Metric → Option InstanceError × Pipeline
  | [] => (none,p)
  | m::ms =>
    match m.kind with
    | .other kind => (some (.unknownKind kind m.name),p)
    | kind =>
      let x : Context := ⟨c,⟨[],[]⟩,inst,⟨0,id⟩,[]⟩
      let p := if destinationTable r.check ≠ .ash ∧ kind=.counter
        then { p with delta := (p.delta.observe (counterObservation x r m)).2 } else p
      p.metricsNoDB c id inst r ms

/-- The results of an instance without a pool. -/
def Pipeline.resultsNoDB (c : Codec) (id : UUID) (inst : Instance) (p : Pipeline) :
    List Result → Option InstanceError × Pipeline
  | [] => (none,p)
  | r::rs =>
    let p := if r.error ≠ "" then p.count id r.check true
      else if r.skipReason = "" then p.count id r.check false else p
    match p.metricsNoDB c id inst r r.metrics with
    | (some err,p) => (some err,p)
    | (none,p) => p.resultsNoDB c id inst rs

def Pipeline.processInstanceNoDB (c : Codec) (p : Pipeline) (inst : Instance) :
    Option InstanceError × Pipeline :=
  match c.parseClusterID inst.clusterID,c.parseUUID inst.instanceID with
  | none,_ => (some (.invalidClusterID inst.clusterID),p)
  | some _,none => (some (.invalidInstanceID inst.instanceID),p)
  | some _,some id => p.resultsNoDB c id inst inst.results

/-- Process without a pool. -/
def Pipeline.processNoDB (c : Codec) (p : Pipeline) (res : PipelineResult) :
    List Instance → PipelineResult × Pipeline
  | [] => (res,p)
  | inst::todo =>
    match p.processInstanceNoDB c inst with
    | (none,p) => p.processNoDB c { res with accepted := res.accepted+1 } todo
    | (some err,p) => p.processNoDB c { res with
        rejected := res.rejected+1
        errors := update res.errors inst.instanceID (some err) } todo

def Pipeline.commit (p : Pipeline) (now : Time) (l : Loop) : Pipeline :=
  { p with
    topo := l.topo
    delta := l.batches.foldl (fun e (b : Delta.Batch) => b.commit e) l.delta }.countChecks now l.staged.outcomes

/-- Process with a pool, over the instances `todo` of the envelope. -/
def World.processAll (c : Codec) (w : World) (call : Call) (todo : List (Instance × ℕ)) :
    Reply × World :=
  match call.txn.exec with
  | none => (.failed .beginTx,w)
  | some txn =>
    let start : Loop := { topo := w.server.topo, delta := w.server.delta,
                          lookups := ⟨txn,fun _ => none⟩ }
    match start.run c w.store call todo with
    | .error f => (.failed f.point,
        { w with server := { w.server with topo := Topology.undoAll f.undos f.topo } })
    | .ok l =>
      match l.lookups.txn.execAll (finalStatements l.staged) with
      | .error point => (.failed point,
          { w with server := { w.server with topo := Topology.undoAll l.undos l.topo } })
      | .ok _ => (.stored l.result l.staged,
          ⟨w.server.commit call.clock.counted l,w.store.commit l.staged⟩)

def World.process (c : Codec) (w : World) (call : Call) : Reply × World :=
  let w : World := { w with server := w.server.maybeEvict call.clock.start }
  if w.server.pool then w.processAll c call call.env.instances.zipIdx
  else
    let r := w.server.processNoDB c {} call.env.instances
    (.unstored r.1,{ w with server := r.2 })

end Pglens.Server
