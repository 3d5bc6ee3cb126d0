import Pglens.Time
import Pglens.Pgtype
import Pglens.Lib.FinMap
import Mathlib.Data.Finset.Card
import Mathlib.Logic.Function.Basic

/-! `apply` is Engine.apply of internal/topology: repeat detection, role changes and failovers,
orphan standbys and split brain. The clock reading is an argument. The engine keeps instance states
and last primaries behind pointers, and the undo functions compare them, so each carries its address
and the engine the next free one. The edge TTL is left out: nothing reads it. -/
namespace Pglens.Topology
open Pglens.Lib Function Duration

inductive Confidence
  | high
  | low
  deriving DecidableEq, Repr

/-- A replication connection from one instance to another. -/
structure Edge where
  fromID : InstanceID
  toID : InstanceID
  type : String
  syncState : String
  confidence : Confidence
  deriving DecidableEq, Repr

/-- One instance's topology state, as the envelope sent at `timestamp` reports it. -/
structure Observation where
  instanceID : InstanceID
  clusterID : ClusterID
  role : Role
  priorRole : Option Role
  timestamp : Time
  edges : List Edge
  deriving DecidableEq, Repr

/-- Whether a stored role says anything about the instance. -/
def knownRole (r : Option Role) : Bool := r != none && r != some .unknown

inductive EventType
  | failoverDetected
  | roleChange
  | splitBrainDetected
  | orphanStandby
  deriving DecidableEq, Repr

/-- The payloads of the four event types, under the keys the source writes. -/
inductive Payload
  | primaries (old_primary new_primary : InstanceID)
  | roles (old_role : Option Role) (new_role : Role)
  | primaryCount (primary_count : ℕ)
  | duration (duration_seconds : ℚ)
  deriving DecidableEq, Repr

/-- A cluster-scoped event names no instance: its `instanceID` is nil. -/
structure Event where
  type : EventType
  timestamp : Time
  instanceID : InstanceID
  clusterID : ClusterID
  payload : Payload
  deriving DecidableEq, Repr

/-- What the engine tracks of one instance. `edgeSeenAt` is keyed by the edge's target. -/
structure InstanceState where
  role : Role
  clusterID : ClusterID
  timestamp : Time
  lastObs : Observation
  quietCycles : ℕ
  orphanAt : Time
  orphanSeenAt : Time
  orphanSeenSent : Time
  orphanedAt : Time
  edgeSeenAt : FinMap InstanceID Time

structure InstancePtr where
  addr : ℕ
  state : InstanceState

structure LastPrimaryInfo where
  addr : ℕ
  instanceID : InstanceID
  timestamp : Time
  deriving DecidableEq, Repr

/-- A cluster without members in `clusterInstances` and a cluster that is not in it read
alike everywhere. -/
structure Engine where
  instances : FinMap InstanceID InstancePtr
  clusterInstances : ClusterID → Finset InstanceID
  lastPrimary : ClusterID → Option LastPrimaryInfo
  lastFailoverTime : ClusterID → Option Time
  lastSplitBrain : ClusterID → Option Time
  heap : ℕ

def failoverWindow : ℤ := 120*second
def orphanWindow : ℤ := 60*second
def splitBrainWindow : ℤ := 60*second

def newEngine : Engine :=
  ⟨FinMap.empty,fun _ => ∅,fun _ => none,fun _ => none,fun _ => none,0⟩

/-- The observation the engine took last from the instance comes again: the same sent
time and content. -/
def isRepeat (inst : Option InstanceState) (obs : Observation) : Bool :=
  match inst with
  | none => false
  | some s => !obs.timestamp.isZero && obs.timestamp.equal s.lastObs.timestamp &&
      decide (obs.role=s.lastObs.role) && decide (obs.clusterID=s.lastObs.clusterID) &&
      decide (obs.edges=s.lastObs.edges)

/-- The recent primary of the cluster that a promotion hands over from: seen within the
failover window, and not the promoted instance itself. -/
def Engine.recentPrimary (e : Engine) (now : Time) (obs : Observation) : Option LastPrimaryInfo :=
  (e.lastPrimary obs.clusterID).filter fun lp =>
    decide (now.sub lp.timestamp<failoverWindow) && decide (lp.instanceID≠obs.instanceID)

/-- The role part of `apply`: the events, and the failover times. `held` is the role the
engine has for the instance, `none` on a first sighting. -/
def Engine.roleChange (e : Engine) (now : Time) (held : Option Role) (obs : Observation) :
    List Event × (ClusterID → Option Time) :=
  let event (type : EventType) (payload : Payload) : Event :=
    ⟨type,now,obs.instanceID,obs.clusterID,payload⟩
  let failover := update e.lastFailoverTime obs.clusterID (some now)
  if held = some obs.role then ([],e.lastFailoverTime)
  else if obs.role=.primary ∧ held = some .standby then
    match e.recentPrimary now obs with
    | some lp => ([event .failoverDetected (.primaries lp.instanceID obs.instanceID)],failover)
    | none => ([event .roleChange (.roles none obs.role)],e.lastFailoverTime)
  else match held with
    | some r =>
      -- An unknown role hides a promotion; its failover time is set all the same.
      let times := if r=.unknown ∧ obs.role=.primary ∧ (e.recentPrimary now obs).isSome
        then failover else e.lastFailoverTime
      ([event .roleChange (.roles (some r) obs.role)],times)
    | none =>
      if knownRole obs.priorRole then
        if obs.priorRole ≠ some obs.role then
          ([event .roleChange (.roles obs.priorRole obs.role)],e.lastFailoverTime)
        else ([],e.lastFailoverTime)
      else ([event .roleChange (.roles none obs.role)],e.lastFailoverTime)

/-- The instance state with the observation's role, cluster, time and last observation; a
state just created is otherwise zero. -/
def InstanceState.renew (inst : Option InstanceState) (now : Time) (obs : Observation) :
    InstanceState :=
  match inst with
  | none => ⟨obs.role,obs.clusterID,now,obs,0,.zero,.zero,.zero,.zero,FinMap.empty⟩
  | some s => { s with
      role := obs.role, clusterID := obs.clusterID, timestamp := now, lastObs := obs }

def InstanceState.clearOrphan (s : InstanceState) : InstanceState :=
  { s with orphanAt := .zero, orphanedAt := .zero }

/-- Whether an observation without orphan evidence ends the episode: two such in a row, a
whole window since the last evidence on the server's clock and, when both observations
carry a sent time, on the agent's. -/
def orphanGapEnds (s : InstanceState) (now sent : Time) : Bool :=
  if s.quietCycles<2 ∨ now.sub s.orphanSeenAt < orphanWindow then false
  else if !sent.isZero && !s.orphanSeenSent.isZero &&
    decide (sent.sub s.orphanSeenSent<orphanWindow) then false
  else true

def InstanceState.quietCycle (s : InstanceState) (now sent : Time) : InstanceState :=
  let s := { s with quietCycles := s.quietCycles+1 }
  if orphanGapEnds s now sent then s.clearOrphan else s

/-- One edge of a standby: a resolved upstream ends the orphan episode. -/
def InstanceState.seeEdge (now : Time) (s : InstanceState) (edge : Edge) : InstanceState :=
  if edge.confidence=.high then
    { s.clearOrphan with edgeSeenAt := s.edgeSeenAt.set edge.toID now }
  else s

/-- One cycle with orphan evidence, before the event is decided. -/
def InstanceState.orphanEvidence (s : InstanceState) (now sent : Time) : InstanceState :=
  { s with
    quietCycles := 0
    orphanAt := if s.orphanAt.isZero then now else s.orphanAt
    orphanSeenAt := now
    orphanSeenSent := sent }

/-- Every edge of the observation is unresolved, and there is one. -/
def Observation.orphaned (obs : Observation) : Bool :=
  !(obs.edges.any fun edge => decide (edge.confidence=.high)) && decide (0<obs.edges.length)

/-- The edges part of `apply`: the orphan episode, per role. -/
def InstanceState.orphanStep (s : InstanceState) (now : Time) (obs : Observation) :
    InstanceState × List Event :=
  match obs.role with
  | .standby =>
    let s := obs.edges.foldl (seeEdge now) s
    if obs.orphaned then
      let s := s.orphanEvidence now obs.timestamp
      if orphanWindow ≤ now.sub s.orphanAt ∧ orphanWindow ≤ now.sub s.orphanedAt then
        ({ s with orphanedAt := now },[⟨.orphanStandby,now,obs.instanceID,obs.clusterID,
          .duration (seconds (now.sub s.orphanAt))⟩])
      else (s,[])
    else (s.quietCycle now obs.timestamp,[])
  | .unknown => (s.quietCycle now obs.timestamp,[])
  | .primary => (s.clearOrphan,[])

/-- Whether an instance state counts as a live primary: seen within the failover window,
and not before the cluster's last failover. -/
def InstanceState.countsAsPrimary (s : InstanceState) (now lastFailover : Time) : Bool :=
  decide (s.role=.primary) && decide (now.sub s.timestamp<failoverWindow) &&
    !s.timestamp.before lastFailover

/-- The live primaries of a cluster. The source would read a nil state for a member that
is not tracked; there is none. -/
def Engine.primaries (e : Engine) (clusterID : ClusterID) (now : Time) : Finset InstanceID :=
  (e.clusterInstances clusterID).filter fun id =>
    ((e.instances.get id).map fun p =>
      p.state.countsAsPrimary now ((e.lastFailoverTime clusterID).getD .zero)) = some true

/-- Engine.detectSplitBrain, at most once per window and cluster. -/
def Engine.detectSplitBrain (e : Engine) (clusterID : ClusterID) (now : Time) :
    List Event × Engine :=
  let lastFailover := (e.lastFailoverTime clusterID).getD .zero
  let primaries := (e.primaries clusterID now).card
  if 2≤primaries then
    if lastFailover.isZero=true ∨ 30*second < now.sub lastFailover then
      if (∀ last ∈ e.lastSplitBrain clusterID, splitBrainWindow ≤ now.sub last) then
        ([⟨.splitBrainDetected,now,UUID.nil,clusterID,.primaryCount primaries⟩],
          { e with lastSplitBrain := update e.lastSplitBrain clusterID (some now) })
      else ([],e)
    else ([],e)
  else ([],{ e with lastSplitBrain := update e.lastSplitBrain clusterID none })

def dropFrom (index : ClusterID → Finset InstanceID) (c : ClusterID) (id : InstanceID) :
    ClusterID → Finset InstanceID :=
  update index c ((index c).erase id)

def addTo (index : ClusterID → Finset InstanceID) (c : ClusterID) (id : InstanceID) :
    ClusterID → Finset InstanceID :=
  update index c (insert id (index c))

/-- Tracking an observation that is not a repeat: everything `apply` writes before it
looks for split brain. `inst` is the state behind the instance's pointer `addr`, `none`
when it was just created. -/
def Engine.track (e : Engine) (now : Time) (obs : Observation) (addr : ℕ)
    (inst : Option InstanceState) : List Event × Engine :=
  let r := e.roleChange now (inst.map InstanceState.role) obs
  let o := (InstanceState.renew inst now obs).orphanStep now obs
  -- The zero state of an instance just created has the zero cluster.
  let held := (inst.map InstanceState.clusterID).getD 0
  let index := if held≠obs.clusterID then dropFrom e.clusterInstances held obs.instanceID
    else e.clusterInstances
  (r.1++o.2,
    { e with
      instances := e.instances.set obs.instanceID ⟨addr,o.1⟩
      clusterInstances := addTo index obs.clusterID obs.instanceID
      lastPrimary := if obs.role=.primary then
        update e.lastPrimary obs.clusterID (some ⟨e.heap,obs.instanceID,now⟩)
        else e.lastPrimary
      lastFailoverTime := r.2
      heap := if obs.role=.primary then e.heap+1 else e.heap })

abbrev Engine.known (e : Engine) (id : InstanceID) : Option InstanceState :=
  (e.instances.get id).map InstancePtr.state

def Engine.apply (e : Engine) (now : Time) (obs : Observation) : List Event × Engine :=
  let inst := (e.instances.get obs.instanceID).map InstancePtr.state
  if isRepeat inst obs then ([],e)
  else
    let addr := ((e.instances.get obs.instanceID).map InstancePtr.addr).getD e.heap
    let fresh := { e with
      heap := if (e.instances.get obs.instanceID).isSome then e.heap else e.heap+1 }
    let t := fresh.track now obs addr inst
    let sb := t.2.detectSplitBrain obs.clusterID now
    (t.1++sb.1,sb.2)

/-- A sequence of observations, each at its clock reading, with the events of each. -/
def Engine.applyAll (e : Engine) : List (Time × Observation) → List (List Event) × Engine
  | [] => ([],e)
  | (now,obs)::steps =>
    let r := e.apply now obs
    let rest := r.2.applyAll steps
    (r.1::rest.1,rest.2)

def Engine.liveCluster (e : Engine) (before : Time) (c : ClusterID) : Bool :=
  decide (∃ id∈e.instances.keys, ∃ p ∈ e.instances.get id,
    p.state.timestamp.before before=false ∧ p.state.clusterID=c)

/-- Engine.Evict: the instances last observed before the cutoff go, and with them what is
kept for clusters none of the others is in. Its count is left out: no caller reads it. -/
def Engine.evict (e : Engine) (before : Time) : Engine where
  instances := e.instances.sweep fun p =>
    if p.state.timestamp.before before then none
    else some { p with state := { p.state with
      edgeSeenAt := p.state.edgeSeenAt.sweep fun seen =>
        if seen.before before then none else some seen } }
  clusterInstances c := if e.liveCluster before c then
    (e.clusterInstances c).filter fun id =>
      ((e.instances.get id).map fun p =>
        p.state.timestamp.before before && decide (p.state.clusterID=c)) ≠ some true
    else ∅
  lastPrimary c := if e.liveCluster before c then e.lastPrimary c else none
  lastFailoverTime c := if e.liveCluster before c then e.lastFailoverTime c else none
  lastSplitBrain c := if e.liveCluster before c then e.lastSplitBrain c else none
  heap := e.heap

end Pglens.Topology
