import Pglens.Pgtype
import Pglens.Lib.FinMap
import Pglens.Agent.Databases
import Mathlib.Data.Finset.Card
import Mathlib.Data.Finset.Sort

/-! schedule.go of cmd/pglens-agent: what a target's checks are gated on is read every thirty
seconds, and the schedule is built again when it changed. A Go map[string]bool that only holds true
is the set of its keys. -/
namespace Pglens.Agent
open Pglens.Lib List Text

inductive PermTier
  | readOnly
  | explain
  | signal
  | extension
  deriving DecidableEq, Repr

def PermTier.string : PermTier → Text
  | .readOnly => utf8 "T0"
  | .explain => utf8 "T1"
  | .signal => utf8 "T2"
  | .extension => utf8 "T3"

def roleText : Role → Text
  | .primary => utf8 "primary"
  | .standby => utf8 "standby"
  | .unknown => utf8 "unknown"

structure TargetGate where
  role : Role
  version : ℤ
  tier : PermTier
  exts : FinMap Text Bool
  databases : Finset Text
  discovered : List Database
  statementsUnknown : Bool

/-- The verb %v of a map prints its entries by key. -/
def formatExts (exts : FinMap Text Bool) : Text :=
  utf8 "map["++(utf8 " ").intercalate ((exts.keys.sort (· ≤ ·)).map fun name =>
    name++utf8 ":"++utf8 (if (exts.get name).getD false then "true" else "false"))++utf8 "]"

def TargetGate.key (g : TargetGate) : Text :=
  roleText g.role++utf8 "/"++decimal g.version++utf8 "/"++g.tier.string++utf8 "/" ++
    formatExts g.exts

/-- The loop of keepDatabases over the free slots. -/
def fillSlots (slots : ℕ) : List Database → Finset Text → Finset Text
  | [],next => next
  | db::rest,next =>
    if slots≤next.card then next
    else fillSlots slots rest (if db.monitored then insert db.name next else next)

def listedNames (discovered : List Database) : Finset Text := (discovered.map Database.name).toFinset

def monitoredNames (discovered : List Database) : Finset Text :=
  ((discovered.filter Database.monitored).map Database.name).toFinset

def keepDatabases (last : Finset Text) (discovered : List Database) : Finset Text :=
  fillSlots (discovered.countP Database.monitored) discovered (last.filter (· ∈ listedNames discovered))

def sameDatabases (a b : Finset Text) : Bool := a.card == b.card && decide (∀ name∈a, name∈b)

/-- The rows of a discovery. pg_database has each name once. -/
structure Listing where
  rows : List DbRow
  nodup : (rows.map DbRow.name).Nodup

/-- What one read of a target meets: the rows of Discover or its error, whether the read's context has
ended behind it, what the manager knows of the server, and the answer of LocateStatements, found and
failed, for the databases it may look at. -/
structure Observation where
  discover : Option Listing
  expired : Bool
  version : ℤ
  role : Role
  tier : PermTier
  locate : List Database → Bool × Bool

def pgStatStatements : Text := utf8 "pg_stat_statements"

/-- `scheduled` is none before the first schedule. -/
def readTargetGate (sorter : SliceSort DbRow) (opts : ConnOptions) (scheduled : Option (Finset Text))
    (o : Observation) : TargetGate × Bool :=
  let dbs := (o.discover.map fun l => selectDatabases sorter l.rows opts).getD []
  if o.expired then (⟨.unknown,0,.readOnly,.empty,∅,[],false⟩,false)
  else
    let role := if o.version≠0 then o.role else .unknown
    let tier := if o.version≠0 then o.tier else .readOnly
    let usable := o.discover.isSome && o.version != 0 && role != .unknown
    -- the lookup covers what the schedule holds behind this read
    let held := if scheduled.isSome && !usable then scheduled.getD ∅ else keepDatabases (scheduled.getD ∅) dbs
    let lookup := dbs.map fun db => { db with monitored := decide (db.name∈held) }
    let statements := if o.discover.isSome then o.locate lookup else (false,false)
    (⟨role,o.version,tier,FinMap.empty.set pgStatStatements statements.1,monitoredNames dbs,dbs,
        statements.2⟩,usable)

/-- `last` is none when the target is not seen. -/
def nextGate (last : Option TargetGate) (read : TargetGate) (readOK : Bool) : TargetGate × Bool :=
  match last with
  | none => (read,true)
  | some last =>
    if !readOK then (last,false)
    else
      let exts := if read.statementsUnknown then
          read.exts.set pgStatStatements ((last.exts.get pgStatStatements).getD false)
        else read.exts
      let next := { read with exts := exts, databases := keepDatabases last.databases read.discovered }
      (next,next.key != last.key || !sameDatabases next.databases last.databases)

/-- A manager: the name of its target, and the options of its connections. -/
structure Manager where
  database : Text
  opts : ConnOptions

structure ScheduleSet where
  gates : FinMap Text TargetGate
  stopped : Bool

section Sets
variable (sorter : SliceSort DbRow)

/-- One target's part of readGates. -/
def readGate (m : Manager) (prev : Option TargetGate) (o : Observation) : TargetGate × Bool :=
  let read := readTargetGate sorter m.opts (prev.map TargetGate.databases) o
  nextGate prev read.1 read.2

/-- The gates of all targets and the names of those that changed. -/
def readGates (managers : List Manager) (observe : Text → Observation) (prev : FinMap Text TargetGate) :
    FinMap Text TargetGate × List Text :=
  (managers.foldl (fun next m =>
      next.set m.database (readGate sorter m (prev.get m.database) (observe m.database)).1) .empty,
    (managers.filter fun m => (readGate sorter m (prev.get m.database) (observe m.database)).2).map Manager.database)

def ScheduleSet.start (managers : List Manager) (observe : Text → Observation) : ScheduleSet :=
  ⟨(readGates sorter managers observe .empty).1,false⟩

/-- The pass of reconcile, and whether stop runs while the targets are read. -/
def ScheduleSet.reconcile (managers : List Manager) (s : ScheduleSet) (observe : Text → Observation)
    (stops : Bool) : ScheduleSet :=
  if s.stopped then s
  else
    let read := readGates sorter managers observe s.gates
    let s := { s with stopped := s.stopped || stops }
    if read.2.isEmpty then s else if s.stopped then s else { s with gates := read.1 }

/-- A start and passes of reconcile behind it. -/
def ScheduleSet.run (managers : List Manager) (first : Text → Observation)
    (passes : List ((Text → Observation) × Bool)) : ScheduleSet :=
  passes.foldl (fun s p => ScheduleSet.reconcile sorter managers s p.1 p.2) (ScheduleSet.start sorter managers first)

end Sets

lemma nextGate_databases (last read : TargetGate) (readOK : Bool) :
    (nextGate (some last) read readOK).1.databases =
    if readOK then keepDatabases last.databases read.discovered else last.databases := by
  cases readOK <;> rfl

variable {discovered : List Database} {name : Text} {opts : ConnOptions} {sorter : SliceSort DbRow}
  {o : Observation} {last : Option TargetGate} {m : Manager}

lemma card_listedNames (h : (discovered.map Database.name).Nodup) :
    (listedNames discovered).card = discovered.length := by
  rw [listedNames,toFinset_card_of_nodup h,length_map]

/-- What a discovery gives a read: names that are listed once, and a monitored one for each place. -/
structure Discovered (opts : ConnOptions) (discovered : List Database) : Prop where
  nodup : (discovered.map Database.name).Nodup
  slots : discovered.countP Database.monitored = min opts.places discovered.length

lemma Discovered.fits (h : Discovered opts discovered)
    {last : Finset Text} (hlast : last.card≤opts.places) :
    (last.filter (· ∈ listedNames discovered)).card ≤ discovered.countP Database.monitored := by
  have hpart : (last.filter (· ∈ listedNames discovered)).card ≤ last.card := Finset.card_filter_le _ _
  have hlisted : (last.filter (· ∈ listedNames discovered)).card ≤ (listedNames discovered).card :=
    Finset.card_le_card fun name hname => (Finset.mem_filter.mp hname).2
  rw [card_listedNames h.nodup] at hlisted
  rw [h.slots]
  exact le_min (hpart.trans hlast) hlisted

/-- The gate of a target once it was read so often. -/
def gateAfter (sorter : SliceSort DbRow) (m : Manager) (observations : List Observation) : Option TargetGate :=
  observations.foldl (fun last o => some (readGate sorter m last o).1) none

lemma sameDatabases_iff {a b : Finset Text} : sameDatabases a b = true ↔ a=b := by
  rw [sameDatabases,Bool.and_eq_true,beq_iff_eq,decide_eq_true_iff]
  constructor
  · rintro ⟨hcard,hsub⟩
    exact Finset.eq_of_subset_of_card_le hsub hcard.ge
  · rintro rfl
    exact ⟨rfl,fun _ h => h⟩

lemma nextGate_unchanged {last read : TargetGate} {readOK : Bool}
    (h : (nextGate (some last) read readOK).2=false) :
    (nextGate (some last) read readOK).1.databases = last.databases := by
  cases readOK with
  | false => rfl
  | true =>
    have hsame := (Bool.or_eq_false_iff.mp h).2
    rw [Bool.not_eq_false'] at hsame
    exact sameDatabases_iff.mp hsame

lemma readGate_databases_congr (sorter : SliceSort DbRow) (m : Manager) {last' : Option TargetGate}
    (h : last.map TargetGate.databases=last'.map TargetGate.databases) (o : Observation) :
    (readGate sorter m last o).1.databases = (readGate sorter m last' o).1.databases := by
  cases last with
  | none =>
    cases last' with
    | none => rfl
    | some last' => cases h
  | some last =>
    cases last' with
    | none => cases h
    | some last' =>
      have hdb : last.databases=last'.databases := Option.some.inj h
      simp only [readGate,nextGate_databases,Option.map_some,hdb]

lemma readGate_unchanged (h : (readGate sorter m last o).2=false) :
    last.map TargetGate.databases = some (readGate sorter m last o).1.databases := by
  cases last with
  | none => cases h
  | some last => exact congrArg some (nextGate_unchanged h).symm

/-- One pass of reconcile that is not cut off by stop, for one of the targets. -/
theorem reconcile_databases {managers : List Manager}
    (hnames : (managers.map Manager.database).Nodup) (hm : m∈managers) {s : ScheduleSet}
    {observe : Text → Observation} {stops : Bool}
    (hrunning : (s.reconcile sorter managers observe stops).stopped=false) :
    s.stopped = false ∧ ((s.reconcile sorter managers observe stops).gates.get m.database).map TargetGate.databases =
      some (readGate sorter m (s.gates.get m.database) (observe m.database)).1.databases := by
  unfold ScheduleSet.reconcile at hrunning ⊢
  cases hs : s.stopped with
  | true => simp [hs] at hrunning
  | false =>
    refine ⟨rfl,?_⟩
    simp only [hs,Bool.false_or,Bool.false_eq_true,if_false] at hrunning ⊢
    by_cases hnone : (readGates sorter managers observe s.gates).2.isEmpty = true
    · rw [if_pos hnone]
      have hsame : (readGate sorter m (s.gates.get m.database) (observe m.database)).2 = false := by
        by_contra hdiffers
        rw [List.isEmpty_iff] at hnone
        have hmem : m.database ∈ (readGates sorter managers observe s.gates).2 :=
          mem_map_of_mem (mem_filter.mpr ⟨hm,Bool.eq_true_of_not_eq_false hdiffers⟩)
        rw [hnone] at hmem
        cases hmem
      exact readGate_unchanged hsame
    · rw [if_neg hnone] at hrunning ⊢
      cases stops with
      | true => simp at hrunning
      | false =>
        rw [if_neg (by simp),readGates]
        dsimp only
        rw [FinMap.get_foldl_set_of_mem Manager.database
          (fun m => (readGate sorter m (s.gates.get m.database) (observe m.database)).1) hnames hm]
        rfl

/-- While the schedule set is not stopped it holds, for every target, the databases that the reads
of this target alone give, whatever the passes read of the others. -/
theorem scheduleSet_holds {sorter : SliceSort DbRow} {managers : List Manager}
    (hnames : (managers.map Manager.database).Nodup) {m : Manager} (hm : m∈managers)
    (first : Text → Observation) (passes : List ((Text → Observation) × Bool))
    (hrunning : (ScheduleSet.run sorter managers first passes).stopped=false) :
    ((ScheduleSet.run sorter managers first passes).gates.get m.database).map TargetGate.databases =
      (gateAfter sorter m (first m.database::passes.map fun p => p.1 m.database)).map TargetGate.databases := by
  induction passes using List.reverseRecOn with
  | nil =>
    rw [ScheduleSet.run,foldl_nil,ScheduleSet.start,readGates]
    dsimp only
    rw [FinMap.get_foldl_set_of_mem Manager.database
      (fun m => (readGate sorter m (FinMap.empty.get m.database) (first m.database)).1) hnames hm]
    rfl
  | append_singleton passes p ih =>
    rw [ScheduleSet.run,foldl_append,foldl_cons,foldl_nil,← ScheduleSet.run] at hrunning ⊢
    obtain ⟨hbefore,hdatabases⟩ := reconcile_databases hnames hm hrunning
    have hafter : gateAfter sorter m (first m.database::(passes++[p]).map fun p => p.1 m.database) =
        some (readGate sorter m (gateAfter sorter m (first m.database::passes.map fun p => p.1 m.database))
          (p.1 m.database)).1 := by
      simp [gateAfter]
    rw [hdatabases,hafter,readGate_databases_congr sorter m (ih hbefore)]
    rfl

section Rebuilt

def reading (rows : List DbRow) (h : (rows.map DbRow.name).Nodup) : Observation :=
  ⟨some ⟨rows,h⟩,false,16,.primary,.readOnly,fun _ => (false,false)⟩

def targetA : Manager := ⟨[97],⟨[],[],1⟩⟩

def targetB : Manager := ⟨[98],⟨[],[],2⟩⟩

def firstRead (target : Text) : Observation :=
  if target = [97] then reading [⟨[1],5⟩] (by decide) else reading [⟨[2],5⟩] (by decide)

/-- Both targets list a second database, for which only the second has a place; then the first
lists its new one alone and the second drops its old one. -/
def laterReads : List ((Text → Observation) × Bool) :=
  [(fun target => if target=[97] then reading [⟨[1],5⟩,⟨[3],9⟩] (by decide)
      else reading [⟨[2],5⟩,⟨[4],9⟩] (by decide),false),
    (fun target => if target=[97] then reading [⟨[3],9⟩] (by decide)
      else reading [⟨[4],9⟩] (by decide),false)]

theorem scheduleSet_holds_rebuilt :
    let s := ScheduleSet.run (.insertion _) [targetA,targetB] firstRead
    ((s (laterReads.take 1)).gates.get [97]).map TargetGate.databases = some {[1]} ∧
      ((s (laterReads.take 1)).gates.get [98]).map TargetGate.databases = some {[2],[4]} ∧
      ((s laterReads).gates.get [97]).map TargetGate.databases = some {[3]} ∧
      ((s laterReads).gates.get [98]).map TargetGate.databases = some {[4]} := by
  have hnames : ([targetA,targetB].map Manager.database).Nodup := by decide
  have hrunning : ∀ n≤2, (ScheduleSet.run (.insertion _) [targetA,targetB] firstRead
      (laterReads.take n)).stopped = false := by decide +kernel
  have holds : ∀ m ∈ [targetA,targetB], ∀ n≤2, ((ScheduleSet.run (.insertion _) [targetA,targetB] firstRead
      (laterReads.take n)).gates.get m.database).map TargetGate.databases = (gateAfter (.insertion _) m
        (firstRead m.database::(laterReads.take n).map fun p => p.1 m.database)).map TargetGate.databases :=
    fun m hm n hn => scheduleSet_holds hnames hm firstRead (laterReads.take n) (hrunning n hn)
  refine ⟨(holds targetA (by simp) 1 (by decide)).trans ?_,(holds targetB (by simp) 1 (by decide)).trans ?_,
    (holds targetA (by simp) 2 (by decide)).trans ?_,(holds targetB (by simp) 2 (by decide)).trans ?_⟩
  all_goals decide +kernel

end Rebuilt

end Pglens.Agent
