import Pglens.Leadership
import Pglens.Lib.Attempt
import Pglens.Server.Store
import Pglens.Staleness.Slots

/-! Staleness.Evaluate, run by any number of replicas against one database. A replica's memory
survives its terms as a leader; the instances and events tables are shared. The gauges an evaluation
sets are left out, and so are the tables it only purges. Rows are kept newest first. -/
namespace Pglens.Staleness
open Pglens.Lib Function Duration

/-- A row of the instances joined with the agents. -/
structure InstanceRow where
  id : UUID
  clusterID : ℤ
  lastSeen : Time
  role : Role
  revoked : Bool
  deriving DecidableEq, Repr

inductive EventType
  | agentUp
  | agentDown
  | instanceReachable
  | instanceUnreachable
  | noPrimaryInCluster
  | slotInactive
  | slotLost
  deriving DecidableEq, Repr

inductive Payload
  | reached (instance_id : UUID)
  | silent (instance_id : UUID) (last_seen : Time)
  | headless (cluster_id : ℤ)
  | slot (slot_name : String)
  deriving DecidableEq, Repr

structure Event where
  typ : EventType
  clusterID : Option ℤ
  instanceID : Option UUID
  payload : Payload
  deriving DecidableEq, Repr

structure EventRow where
  eventID : ℕ
  ts : Time
  event : Event
  deriving DecidableEq, Repr

/-- The events table, as far as the evaluator writes it. -/
structure EventTable where
  rows : List EventRow
  next : ℕ
  deriving DecidableEq, Repr

def EventTable.insert (t : EventTable) (ts : Time) : List Event → EventTable
  | [] => t
  | ev::evs => EventTable.insert ⟨⟨t.next,Server.stamp ts,ev⟩::t.rows,t.next+1⟩ ts evs

def instanceStaleAfter : ℤ := 90*second
def noPrimaryThreshold : ℤ := 60*second
def eventRetention : ℤ := 90*24*hour
def eventPurgeInterval : ℤ := hour
def eventPurgeBatch : ℕ := 10000
def queryTextPurgeInterval : ℤ := hour
def queryTextPurgeBatch : ℕ := 10000

/-- Up to the threshold and including it, a silent instance is up. -/
def isStaleUp (lastSeen now : Time) (threshold : ℤ) : Bool := !now.after (lastSeen.add threshold)

/-- The Staleness of one replica, but for the session it keeps. -/
structure Replica where
  instanceUp : UUID → Option Bool
  announcedLoaded : Bool
  clusterPrimarySeen : ℤ → Option Time
  clusterNoPrimaryEmitted : ℤ → Bool
  slotInactive : SlotSpells
  slotLostEmitted : SlotKey → Bool
  lastEventPurge : Time
  eventPurgeBacklog : Bool
  lastQueryTextPurge : Time
  queryTextPurgeBacklog : Bool

def Replica.new : Replica :=
  ⟨fun _ => none,false,fun _ => none,fun _ => false,⟨fun _ => none,fun _ => false⟩,fun _ => false,
    .zero,false,.zero,false⟩

inductive Fault
  | leader
  | instances
  | announced
  | emit
  | slots
  | purge
  deriving DecidableEq, Repr

/-- One transaction of emitEvents: its clock reading, and whether it commits. -/
structure Tx where
  ts : Time
  ok : Bool
  deriving DecidableEq, Repr

/-- What a leader's evaluation works on. `txs` are the transactions that begin. -/
structure Turn where
  memory : Replica
  events : EventTable
  txs : List Tx

/-- emitEvents: all the events, or none. -/
def emitEvents (evs : List Event) : Attempt Fault Turn := fun t =>
  match t.txs with
  | [] => (t,some .emit)
  | tx::txs =>
    if tx.ok then ({ t with events := t.events.insert tx.ts evs, txs := txs },none)
    else ({ t with txs := txs },some .emit)

/-- transitionEvents: the agent event, and the instance event the alert rules read. -/
def transitionEvents (clusterID : ℤ) (instanceID : UUID) (up : Bool) (lastSeen : Time) :
    List Event :=
  if up then
    [⟨.agentUp,some clusterID,some instanceID,.reached instanceID⟩,
      ⟨.instanceReachable,some clusterID,some instanceID,.reached instanceID⟩]
  else
    [⟨.agentDown,some clusterID,some instanceID,.silent instanceID lastSeen⟩,
      ⟨.instanceUnreachable,some clusterID,some instanceID,.reached instanceID⟩]

/-- An agent event of the instance. -/
def EventRow.announces (i : UUID) (row : EventRow) : Bool :=
  decide (row.event.typ=.agentUp ∨ row.event.typ=.agentDown) &&
    decide (row.event.instanceID=some i)

/-- One row of a scan for the newest: a row of the same time does not displace it. -/
def newerRow (best : Option EventRow) (row : EventRow) : Option EventRow :=
  match best with
  | none => some row
  | some b => if b.ts.before row.ts then some row else some b

/-- announcedStates, on the rows in the order the database meets them: of rows with the same
time it returns any. -/
def announcedStates (scan : List EventRow) (i : UUID) : Option Bool :=
  ((scan.filter (EventRow.announces i)).foldl newerRow none).map fun row =>
    decide (row.event.typ=.agentUp)

/-- The states a new term starts from. -/
def announcedUp (now : Time) (instances : List InstanceRow) (announced : UUID → Option Bool)
    (i : UUID) : Option Bool :=
  match instances.find? fun inst => inst.id == i with
  | none => none
  | some inst =>
    match announced i with
    | some up => some up
    | none => if inst.lastSeen.before (now.add (-eventRetention)) then some false else none

def Turn.setUp (t : Turn) (i : UUID) (up : Bool) : Turn :=
  { t with memory := { t.memory with
      instanceUp := update t.memory.instanceUp i (some up) } }

/-- The reload of the announced states; `scan` is `none` when the query fails. -/
def loadAnnounced (now : Time) (instances : List InstanceRow)
    (scan : Option (List EventRow → List EventRow)) : Attempt Fault Turn := fun t =>
  if t.memory.announcedLoaded then (t,none)
  else match scan with
    | none => (t,some .announced)
    | some scan => ({ t with memory := { t.memory with
        instanceUp := announcedUp now instances (announcedStates (scan t.events.rows))
        announcedLoaded := true } },none)

/-- One instance of the transitions loop. The state moves once its events are stored. -/
def noteInstance (now : Time) (inst : InstanceRow) : Attempt Fault Turn := fun t =>
  let up := isStaleUp inst.lastSeen now instanceStaleAfter
  let set : Attempt Fault Turn := Attempt.pure fun t => t.setUp inst.id up
  let announce := (emitEvents (transitionEvents inst.clusterID inst.id up inst.lastSeen)).andThen set
  if inst.revoked then set t
  else match t.memory.instanceUp inst.id with
    | some prevUp => if prevUp=up then (t,none) else announce t
    | none => if up then set t else announce t

/-- A revoked agent's instances make no cluster a subject of the no-primary check. -/
def clusterIDs (instances : List InstanceRow) : List ℤ :=
  ((instances.filter fun inst => !inst.revoked).map InstanceRow.clusterID).dedup

/-- The cluster has a primary that is not stale. -/
def clusterHasPrimary (now : Time) (instances : List InstanceRow) (cid : ℤ) : Bool :=
  instances.any fun inst => !inst.revoked && inst.clusterID == cid && decide (inst.role=.primary) &&
    isStaleUp inst.lastSeen now instanceStaleAfter

def Turn.setPrimarySeen (t : Turn) (cid : ℤ) (now : Time) : Turn :=
  { t with memory := { t.memory with
      clusterPrimarySeen := update t.memory.clusterPrimarySeen cid (some now) } }

def Turn.setNoPrimaryEmitted (t : Turn) (cid : ℤ) (emitted : Bool) : Turn :=
  { t with memory := { t.memory with
      clusterNoPrimaryEmitted := update t.memory.clusterNoPrimaryEmitted cid emitted } }

/-- One cluster of the no-primary loop. -/
def noteCluster (now : Time) (hasPrimary : ℤ → Bool) (cid : ℤ) : Attempt Fault Turn := fun t =>
  if hasPrimary cid then ((t.setPrimarySeen cid now).setNoPrimaryEmitted cid false,none)
  else match t.memory.clusterPrimarySeen cid with
    | none => (t.setPrimarySeen cid now,none)
    | some lastSeen =>
      if lastSeen.isZero then (t,none)
      else if noPrimaryThreshold < now.sub lastSeen ∧ t.memory.clusterNoPrimaryEmitted cid = false then
        (emitEvents [⟨.noPrimaryInCluster,some cid,none,.headless cid⟩]).andThen
          (Attempt.pure fun t => t.setNoPrimaryEmitted cid true) t
      else (t,none)

/-- emitSlotEvents. What is not written, and what comes after it, is unmarked. -/
def emitSlotEvents (typ : EventType) (unmark : List SlotEmission → Turn → Turn) :
    List SlotEmission → Attempt Fault Turn
  | [] => Attempt.done
  | em::ems => fun t =>
    match emitEvents [⟨typ,some em.clusterID,some em.instanceID,.slot em.slotName⟩] t with
    | (t,none) => emitSlotEvents typ unmark ems t
    | (t,some e) => (unmark (em::ems) t,some e)

def unmarked (ems : List SlotEmission) (emitted : SlotKey → Bool) : SlotKey → Bool := fun key =>
  emitted key && !(ems.any fun em => em.key == key)

def Turn.unmarkInactive (ems : List SlotEmission) (t : Turn) : Turn :=
  { t with memory := { t.memory with slotInactive :=
      { t.memory.slotInactive with emitted := unmarked ems t.memory.slotInactive.emitted } } }

def Turn.unmarkLost (ems : List SlotEmission) (t : Turn) : Turn :=
  { t with memory := { t.memory with slotLostEmitted := unmarked ems t.memory.slotLostEmitted } }

/-- evaluateSlots, on the rows its query returns. -/
def evaluateSlots (now : Time) (slots : Option (List SlotRow)) : Attempt Fault Turn := fun t =>
  match slots with
  | none => (t,some .slots)
  | some rows =>
    let inactive := decideSlotInactiveEmissions rows now t.memory.slotInactive
    (emitSlotEvents .slotInactive Turn.unmarkInactive inactive.1).andThen (fun t =>
      let lost := decideSlotLostEmissions rows t.memory.slotLostEmitted
      emitSlotEvents .slotLost Turn.unmarkLost lost.1
        { t with memory := { t.memory with slotLostEmitted := lost.2 } })
      { t with memory := { t.memory with slotInactive := inactive.2 } }

/-- purgeTopologyEdges, of which only an error is left. -/
def purgeTopologyEdges (ok : Bool) : Attempt Fault Turn := fun t =>
  (t,if ok then none else some .purge)

/-- purgeQueryTexts: `affected` is the count of its DELETE, `none` when that fails. -/
def purgeQueryTexts (now : Time) (affected : Option ℕ) : Attempt Fault Turn := fun t =>
  let m := t.memory
  if !m.queryTextPurgeBacklog && !m.lastQueryTextPurge.isZero &&
    decide (now.sub m.lastQueryTextPurge<queryTextPurgeInterval) then (t,none)
  else match affected with
    | none => (t,some .purge)
    | some n => ({ t with memory := { m with
        lastQueryTextPurge := now
        queryTextPurgeBacklog := n == queryTextPurgeBatch } },none)

/-- purgeEvents, on the rows in the order the database meets them; the DELETE fails when
`scan` is `none`. -/
def purgeEvents (now : Time) (scan : Option (List EventRow → List EventRow)) :
    Attempt Fault Turn := fun t =>
  let m := t.memory
  if !m.eventPurgeBacklog && !m.lastEventPurge.isZero &&
    decide (now.sub m.lastEventPurge<eventPurgeInterval) then (t,none)
  else match scan with
    | none => (t,some .purge)
    | some scan =>
      let cutoff := Server.stamp (now.add (-eventRetention))
      let old := ((scan t.events.rows).filter fun row => row.ts.before cutoff).take eventPurgeBatch
      let ids := old.map EventRow.eventID
      ({ t with
        events := { t.events with rows := t.events.rows.filter fun row => !ids.contains row.eventID }
        memory := { m with
          lastEventPurge := now
          eventPurgeBacklog := old.length == eventPurgeBatch } },none)

/-- purgeRetention: a failed purge of the texts does not stop the events'. -/
def purgeRetention (now : Time) (affected : Option ℕ) (scan : Option (List EventRow → List EventRow)) :
    Attempt Fault Turn := fun t =>
  let texts := purgeQueryTexts now affected t
  let events := purgeEvents now scan texts.1
  (events.1,texts.2.orElse fun _ => events.2)

/-- Everything one call of Evaluate meets: the clock, the outcome of each query, the order of
a map's iteration, and the orders in which the database scans the events. -/
structure Round where
  io : LeaderIO
  now : Time
  readsInstances : Bool
  announcedScan : Option (List EventRow → List EventRow)
  order : List ℤ
  txs : List Tx
  slots : Option (List SlotRow)
  purgesEdges : Bool
  purgedTexts : Option ℕ
  purgeScan : Option (List EventRow → List EventRow)

/-- The part of an evaluation that announces instances and clusters. -/
def announceAll (instances : List InstanceRow) (round : Round) : Attempt Fault Turn :=
  (loadAnnounced round.now instances round.announcedScan).andThen
    ((Attempt.each (noteInstance round.now) instances).andThen
      (Attempt.each (noteCluster round.now (clusterHasPrimary round.now instances)) round.order))

def keepHouse (round : Round) : Attempt Fault Turn :=
  (evaluateSlots round.now round.slots).andThen
    ((purgeTopologyEdges round.purgesEdges).andThen
      (purgeRetention round.now round.purgedTexts round.purgeScan))

/-- The replicas and their database. `clock` is the last reading of the clock. -/
structure World where
  instances : List InstanceRow
  events : EventTable
  locks : Locks
  leaders : ℕ → Leader
  replicas : ℕ → Replica
  clock : Time

def World.start (instances : List InstanceRow) (clock : Time) : World :=
  ⟨instances,⟨[],0⟩,Locks.new,fun _ => Leader.new,fun _ => Replica.new,clock⟩

/-- ensureLeader. A replica that wins the lock starts from what the events show. -/
def World.ensureLeader (w : World) (r : ℕ) (io : LeaderIO) : Election × World :=
  let e := (w.leaders r).ensure w.locks io
  let memory := w.replicas r
  (e.1,{ w with
    locks := e.2.2
    leaders := update w.leaders r e.2.1
    replicas := update w.replicas r { memory with
      announcedLoaded := memory.announcedLoaded && decide (e.1 ≠ .asked true false) } })

def World.turn (w : World) (r : ℕ) (round : Round) : Turn := ⟨w.replicas r,w.events,round.txs⟩

def World.evaluate (w : World) (r : ℕ) (round : Round) : World × Option Fault :=
  let e := w.ensureLeader r round.io
  let led : World := { e.2 with clock := (round.txs.map Tx.ts).getLast?.getD round.now }
  if e.1=.failed then (led,some .leader)
  else if !round.readsInstances then (led,some .instances)
  else if !(led.leaders r).hasLock then (led,none)
  else
    let t := (announceAll led.instances round).andThen (keepHouse round) (led.turn r round)
    ({ led with
      events := t.1.events
      replicas := update led.replicas r t.1.memory },t.2)

/-- The pushes change the instances, sessions end, and replicas evaluate. A replica that is
stopped is one whose session ends and that does not evaluate again; one that starts is a new
one. -/
inductive Action
  | push (instances : List InstanceRow)
  | endSession (c : ℕ)
  | evaluate (r : ℕ) (round : Round)

def World.step (w : World) : Action → World
  | .push instances => { w with instances := instances }
  | .endSession c => { w with locks := w.locks.endSession c }
  | .evaluate r round => (w.evaluate r round).1

end Pglens.Staleness
