import Pglens.Time
import Pglens.Lib.FinMap
import Pglens.Lib.Crash
import Pglens.DiskBuffer.Segment

/-! The directory holds the segment files, by the id in their name, and the checkpoint file .acked.
Code that writes to it is a program of effects, so that a process exit can cut it between any two of
them and a write after any byte. The temporary file of the checkpoint is left out: nothing reads it,
and the rename is one effect. -/
namespace Pglens.DiskBuffer
open Pglens.Lib

/-- The retention policy that removes a segment. -/
inductive Reason
  | sizeLimit
  | ageLimit
  deriving DecidableEq, Repr

structure Disk where
  files : FinMap ℕ (List UInt8)
  acked : Option (List UInt8)

def Disk.content (d : Disk) (id : ℕ) : List UInt8 := (d.files.get id).getD []

/-- `remove` carries the reason removeOldestSegment was called with, `none` for a segment
the checkpoint has passed. -/
inductive Effect
  | create (id : ℕ)
  | write (id : ℕ) (bytes : List UInt8)
  | truncate (id size : ℕ)
  | remove (id : ℕ) (reason : Option Reason)
  | saveAcked (bytes : List UInt8)
  | removeAcked
  deriving DecidableEq, Repr

/-- Segment files are opened with O_APPEND, so a write goes to the end of the file. -/
def Disk.apply (d : Disk) : Effect → Disk
  | .create id => { d with files := d.files.set id [] }
  | .write id bytes => { d with files := d.files.set id (d.content id++bytes) }
  | .truncate id size => { d with files := d.files.set id (truncateFile (d.content id) size) }
  | .remove id _ => { d with files := d.files.erase id }
  | .saveAcked bytes => { d with acked := some bytes }
  | .removeAcked => { d with acked := none }

/-- A write may stop after any byte. The other effects happen or do not. -/
def Effect.Torn (e e' : Effect) : Prop :=
  ∃ id bytes n, e = .write id bytes ∧ e' = .write id (bytes.take n)

def device : Device Disk Effect := ⟨Disk.apply,Effect.Torn⟩

/-- A segment as the process holds it. -/
structure Segment where
  id : ℕ
  createdAt : Time
  lastWrite : Time
  maxSize : ℤ
  recordCount : ℕ
  fileSize : ℕ
  deriving DecidableEq, Repr

def Segment.grown (s : Segment) (data : List UInt8) : Segment :=
  { s with recordCount := s.recordCount+1, fileSize := s.fileSize+(frame data).length }

/-- What fails in one Segment.Append. The write fails after some bytes went out, and the
cut that cleans up after it may fail too. -/
structure WriteFaults where
  stat : Bool := false
  truncate : Bool := false
  write : Option ℕ := none
  cleanup : Bool := false
  deriving DecidableEq, Repr

/-- Segment.Append, `none` when it returns an error. -/
def Segment.append (s : Segment) (data : List UInt8) (faults : WriteFaults) :
    Prog device (Option Segment) := do
  if faults.stat then return none
  let d ← Prog.read
  -- bytes past fileSize are left by a write that failed part-way
  let stale := (d.content s.id).length != s.fileSize
  if stale && faults.truncate then return none
  Prog.performIf stale (.truncate s.id s.fileSize)
  match faults.write with
  | some n => do
    Prog.perform (.write s.id ((frame data).take n))
    Prog.performIf (!faults.cleanup) (.truncate s.id s.fileSize)
    return none
  | none => do
    Prog.perform (.write s.id (frame data))
    return some (s.grown data)

@[simp] lemma grown_id (s : Segment) (data : List UInt8) : (s.grown data).id = s.id := rfl

lemma append_clean {s : Segment} {d : Disk} (h : (d.content s.id).length=s.fileSize)
    (data : List UInt8) :
    s.append data {} d = (some (s.grown data),[.write s.id (frame data)]) := by
  simp [Segment.append,Prog.run_bind,Prog.read,Prog.performIf,Prog.perform,Prog.run_pure,
    Device.run,h]

@[simp] lemma content_create (d : Disk) (id j : ℕ) :
    (d.apply (.create id)).content j = if j=id then [] else d.content j := by
  by_cases h : j = id <;> simp [Disk.apply,Disk.content,FinMap.set,h]

@[simp] lemma content_write (d : Disk) (id j : ℕ) (bytes : List UInt8) :
    (d.apply (.write id bytes)).content j = if j=id then d.content id++bytes else d.content j := by
  by_cases h : j = id <;> simp [Disk.apply,Disk.content,FinMap.set,h]

@[simp] lemma content_truncate (d : Disk) (id j size : ℕ) :
    (d.apply (.truncate id size)).content j =
      if j=id then truncateFile (d.content id) size else d.content j := by
  by_cases h : j = id <;> simp [Disk.apply,Disk.content,FinMap.set,h]

@[simp] lemma content_remove (d : Disk) (id j : ℕ) (reason : Option Reason) :
    (d.apply (.remove id reason)).content j = if j=id then [] else d.content j := by
  by_cases h : j = id <;> simp [Disk.apply,Disk.content,FinMap.erase,h]

end Pglens.DiskBuffer
