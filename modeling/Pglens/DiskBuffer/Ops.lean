import Pglens.DiskBuffer.Disk
import Mathlib.Data.Finset.Sort
import Mathlib.Logic.Function.Basic

/-! Open, Append, Next with its acks, Rewind and Close of internal/agent/buffer, with both retention
policies. Errors are told apart only as far as the code does: a call fails or not. What fails, the
modification times of the files and the clock readings are arguments. Removing a segment file does
not fail, and the two timestamps and the full flag of Stats are left out: nothing reads them. -/
namespace Pglens.DiskBuffer
open Pglens.Lib

structure Options where
  maxSize : ℤ
  maxAge : ℤ
  deriving DecidableEq, Repr

/-- A zero option stands for its default: 512 MiB and six hours. -/
def Options.withDefaults (o : Options) : Options where
  maxSize := if o.maxSize=0 then 512*1024*1024 else o.maxSize
  maxAge := if o.maxAge=0 then 6*Duration.hour else o.maxAge

structure Stats where
  bytesUsed : ℤ
  samplesDropped : Reason → ℕ
  corruptRecords : ℕ
  cutBytes : ℕ

structure Buffer where
  opts : Options
  segments : List Segment
  nextSegID : ℕ
  nextReadSeg : ℕ
  nextReadOff : ℕ
  ackedSegID : ℕ
  ackedOff : ℕ
  stats : Stats

/-- What the AckFunc of a record closes over. -/
structure Handle where
  segID : ℕ
  nextOff : ℕ
  deriving DecidableEq, Repr

def defaultSegmentSize : ℤ := 8*1024*1024

def segmentSize (maxSize : ℤ) : ℤ :=
  if 0 < maxSize ∧ maxSize<defaultSegmentSize then maxSize else defaultSegmentSize

def Segment.wouldRoll (s : Segment) (size : ℕ) : Bool :=
  decide ((if s.maxSize≤0 then defaultSegmentSize else s.maxSize)<s.fileSize+(size+8))

/-- The twelve bytes of a segment id and an offset that saveAckedPosition writes. -/
def ackedBytes (segID off : ℕ) : List UInt8 := putLE 4 segID++putLE 8 off

/-- loadAckedPosition: `none` without a checkpoint of at least twelve bytes. -/
def Disk.checkpoint (d : Disk) : Option (ℕ × ℕ) :=
  d.acked.bind fun data =>
    if data.length<12 then none
    else some (getLE (data.take 4),getLE ((data.drop 4).take 8))

/-- The statistics after a segment is removed; only a retention policy counts its records. -/
def Stats.afterRemove (st : Stats) (s : Segment) (reason : Option Reason) (dropped : ℕ) : Stats :=
  { st with
    bytesUsed := st.bytesUsed-s.fileSize
    samplesDropped := match reason with
      | none => st.samplesDropped
      | some r => Function.update st.samplesDropped r (st.samplesDropped r+dropped) }

namespace Buffer

def saveAckedPosition (b : Buffer) (fails : Bool) : Prog device Unit :=
  Prog.performIf (!fails) (.saveAcked (ackedBytes b.ackedSegID b.ackedOff))

/-- The segment rolls once its first record is a quarter of MaxAge old. -/
def segmentAgedOut (b : Buffer) (s : Segment) (now : Time) : Bool :=
  decide (0<s.recordCount) && decide (b.opts.maxAge.tdiv 4 ≤ now.sub s.createdAt)

/-- The records of a segment that were never acknowledged. -/
def unackedRecords (b : Buffer) (d : Disk) (s : Segment) : ℕ :=
  if s.id<b.ackedSegID then 0
  else if b.ackedSegID<s.id then s.recordCount
  else recordsFrom (d.content s.id) s.fileSize b.ackedOff

/-- The buffer once its oldest segment is removed. A cursor in that segment moves to the
start of the next one. -/
def removed (b : Buffer) (d : Disk) (reason : Option Reason) : Buffer :=
  match b.segments with
  | [] => b
  | oldest::rest => { b with
      segments := rest
      stats := b.stats.afterRemove oldest reason (b.unackedRecords d oldest)
      nextReadSeg := b.nextReadSeg-1
      nextReadOff := if 0<b.nextReadSeg then b.nextReadOff else 0 }

def removeOldestSegment (b : Buffer) (reason : Option Reason) : Prog device Buffer :=
  match b.segments with
  | [] => return b
  | oldest::_ => do
    let d ← Prog.read
    Prog.perform (.remove oldest.id reason)
    return b.removed d reason

/-- Removes the oldest segment while a policy says so. -/
def removeWhile (policy : Buffer → Disk → Bool) (reason : Option Reason) :
    ℕ → Buffer → Prog device Buffer
  | 0,b => return b
  | n+1,b => do
    let d ← Prog.read
    if policy b d then
      let b ← b.removeOldestSegment reason
      removeWhile policy reason n b
    else return b

def enforceMaxSize (b : Buffer) : Prog device Buffer :=
  removeWhile (fun b _ => decide (b.opts.maxSize<b.stats.bytesUsed) && !b.segments.isEmpty)
    (some .sizeLimit) b.segments.length b

def enforceMaxAge (b : Buffer) (now : Time) : Prog device Buffer :=
  removeWhile (fun b _ => match b.segments with
    | [] => false
    | s::_ => decide (b.opts.maxAge<now.sub s.lastWrite))
    (some .ageLimit) b.segments.length b

/-- The active segment is kept, it still receives appends. -/
def dropAckedSegments (b : Buffer) : Prog device Buffer :=
  removeWhile (fun b d => match b.segments with
    | s::_::_ => b.unackedRecords d s == 0
    | _ => false)
    none b.segments.length b

def withSegment (b : Buffer) (id : ℕ) (now : Time) : Buffer :=
  { b with segments := b.segments++[⟨id,now,now,segmentSize b.opts.maxSize,0,0⟩] }

abbrev created (b : Buffer) (now : Time) : Buffer :=
  { b with nextSegID := b.nextSegID+1 }.withSegment b.nextSegID now

/-- newSegment, added to the segments. The id is used up even when the file cannot be
created. -/
def addSegment (b : Buffer) (fails : Bool) (now : Time) : Prog device (Bool × Buffer) := do
  let id := b.nextSegID
  let b := { b with nextSegID := (b.nextSegID+1)%2^32 }
  if fails then return (false,b)
  Prog.perform (.create id)
  return (true,b.withSegment id now)

/-- A buffer without segments gets one. -/
def firstSegment (b : Buffer) (fails : Bool) (now : Time) : Prog device (Bool × Buffer) :=
  if b.segments.isEmpty then b.addSegment fails now else return (true,b)

structure AppendFaults where
  create : Bool := false
  sync : Bool := false
  roll : Bool := false
  write : WriteFaults := {}

/-- The clock readings of one Append, in the order it takes them. -/
structure Readings where
  created : Time
  agedOut : Time
  rolled : Time
  touched : Time
  age : Time

/-- The part of Append that makes sure of an active segment with room for the record. -/
def activeSegment (b : Buffer) (size : ℕ) (faults : AppendFaults) (clock : Readings) :
    Prog device (Bool × Buffer) := do
  let (ok,b) ← b.firstSegment faults.create clock.created
  if !ok then return (false,b)
  match b.segments.getLast? with
  | none => return (false,b)
  | some last =>
    if last.wouldRoll size || b.segmentAgedOut last clock.agedOut then
      if faults.sync then return (false,b)
      b.addSegment faults.roll clock.rolled
    else return (true,b)

/-- The buffer once its active segment has taken a record. -/
def appended (b : Buffer) (s : Segment) (size : ℕ) (now : Time) : Buffer :=
  { b with
    segments := b.segments.dropLast++[{ s with lastWrite := now }]
    stats := { b.stats with bytesUsed := b.stats.bytesUsed+(size+8) } }

/-- Buffer.Append, with whether it returned nil. -/
def append (b : Buffer) (data : List UInt8) (faults : AppendFaults) (clock : Readings) :
    Prog device (Bool × Buffer) := do
  if data.isEmpty then return (false,b)
  let (ok,b) ← b.activeSegment data.length faults clock
  if !ok then return (false,b)
  match b.segments.getLast? with
  | none => return (false,b)
  | some last =>
    match ← last.append data faults.write with
    | none => return (false,b)
    | some s =>
      let b ← (b.appended s data.length clock.touched).enforceMaxSize
      let b ← b.enforceMaxAge clock.age
      return (true,b)

/-- The scan of Next. Every turn moves to the next record or the next segment. -/
def nextLoop (d : Disk) : ℕ → Buffer → Option (List UInt8 × Handle) × Buffer
  | 0,b => (none,b)
  | fuel+1,b =>
    match b.segments[b.nextReadSeg]? with
    | none => (none,b)
    | some s =>
      let r := readAt (d.content s.id) s.fileSize b.nextReadOff
      if b.nextReadOff<r.next then
        match r.data with
        | some env => (some (env,⟨s.id,r.next⟩),{ b with nextReadOff := r.next })
        | none => nextLoop d fuel { b with
            nextReadOff := r.next
            stats := { b.stats with corruptRecords := b.stats.corruptRecords+1 } }
      -- only a segment that a later one follows is known to be closed
      else if b.nextReadSeg+1 < b.segments.length then
        nextLoop d fuel { b with nextReadSeg := b.nextReadSeg+1, nextReadOff := 0 }
      else (none,b)

/-- Buffer.Next, `none` for io.EOF. -/
def next (b : Buffer) (d : Disk) : Option (List UInt8 × Handle) × Buffer :=
  nextLoop d ((b.segments.map fun s => (d.content s.id).length).sum+b.segments.length+1) b

/-- The AckFunc of a record. The checkpoint moves in memory even when it is not saved. -/
def ack (b : Buffer) (h : Handle) (saveFails : Bool) : Prog device Buffer := do
  let b ← { b with ackedSegID := h.segID, ackedOff := h.nextOff }.dropAckedSegments
  b.saveAckedPosition saveFails
  return b

def findSegmentAfterAcked (b : Buffer) : Buffer :=
  match b.segments.findIdx? fun s => decide (b.ackedSegID ≤ s.id) with
  | none => b
  | some i => { b with
      nextReadSeg := i
      nextReadOff := if (b.segments[i]?).map Segment.id=some b.ackedSegID then b.ackedOff else 0 }

def rewind (b : Buffer) : Buffer :=
  { b with nextReadSeg := 0, nextReadOff := 0 }.findSegmentAfterAcked

/-- Where the walk of a segment starts: only the segment that holds the checkpoint is walked
from it. -/
def keep (b : Buffer) (id : ℕ) : ℕ := if id=b.ackedSegID then b.ackedOff else 0

/-- The loop of Open over the segment files. -/
def openSegments (modTime : ℕ → Time) : List ℕ → Buffer → Prog device Buffer
  | [],b => return b
  | id::ids,b => do
    let d ← Prog.read
    let file := d.content id
    let o := openSegment file (b.keep id)
    Prog.performIf (decide (0<o.cut file)) (.truncate id o.fileSize)
    openSegments modTime ids { b with
      segments := b.segments ++
        [⟨id,modTime id,modTime id,segmentSize b.opts.maxSize,o.recordCount,o.fileSize⟩]
      nextSegID := if b.nextSegID ≤ id then (id+1)%2^32 else b.nextSegID
      stats := { b.stats with
        corruptRecords := b.stats.corruptRecords+(if 0<o.cut file then 1 else 0)
        cutBytes := b.stats.cutBytes+o.cut file } }

def recalculateStats (b : Buffer) : Buffer :=
  { b with stats := { b.stats with bytesUsed := (b.segments.map fun s => (s.fileSize : ℤ)).sum } }

/-- New segments are numbered above the checkpoint too. -/
def numberAboveCheckpoint (b : Buffer) (haveCheckpoint : Bool) : Buffer :=
  if haveCheckpoint && decide (b.nextSegID≤b.ackedSegID) then
    { b with nextSegID := (b.ackedSegID+1)%2^32 }
  else b

/-- A checkpoint past every segment restarts at the first segment there is. -/
def restartCheckpoint (b : Buffer) : Buffer :=
  match b.segments.getLast? with
  | none => { b with ackedSegID := 0, ackedOff := 0 }
  | some last => if last.id<b.ackedSegID then
      { b with ackedSegID := (b.segments.head?.map Segment.id).getD 0, ackedOff := 0 }
    else b

/-- A checkpoint past the end of its segment moves to that end. -/
def clampCheckpoint (b : Buffer) : Buffer :=
  match b.segments.find? fun s => decide (s.id=b.ackedSegID) with
  | none => b
  | some s => if s.fileSize<b.ackedOff then { b with ackedOff := s.fileSize } else b

def correctCheckpoint (b : Buffer) : Buffer := b.restartCheckpoint.clampCheckpoint

/-- A corrected checkpoint is saved, or else the stale one removed; `false` when Open
fails because neither could be done. -/
def settleCheckpoint (b : Buffer) (loaded : ℕ × ℕ) (saveFails removeFails : Bool) :
    Prog device Bool :=
  if (b.ackedSegID,b.ackedOff) = loaded then return true
  else if !saveFails then do
    b.saveAckedPosition false
    return true
  else if removeFails then return false
  else do
    Prog.perform .removeAcked
    return true

def initial (opts : Options) (checkpoint : Option (ℕ × ℕ)) : Buffer :=
  let acked := checkpoint.getD (0,0)
  ⟨opts,[],0,0,0,acked.1,acked.2,⟨0,fun _ => 0,0,0⟩⟩

structure OpenArgs where
  opts : Options
  modTime : ℕ → Time
  now : Time
  saveFails : Bool
  removeFails : Bool

/-- Open, `none` when it fails. -/
def openDir (args : OpenArgs) : Prog device (Option Buffer) := do
  let d ← Prog.read
  let start := initial args.opts.withDefaults d.checkpoint
  let b ← openSegments args.modTime (d.files.keys.sort (· ≤ ·)) start
  let b := (b.recalculateStats.numberAboveCheckpoint d.checkpoint.isSome).correctCheckpoint
  let ok ← b.settleCheckpoint (start.ackedSegID,start.ackedOff) args.saveFails args.removeFails
  if !ok then return none
  let b ← b.dropAckedSegments
  let b ← b.enforceMaxAge args.now
  let b ← b.enforceMaxSize
  return some b.rewind

end Buffer

end Pglens.DiskBuffer
