import Pglens.DiskBuffer.Recovery
import Pglens.DiskBuffer.Ops

/-! openSegment counts the records with a payload, recordsFrom every complete header. They differ by
the zero-length headers that lie before the last record, which recovery leaves for the reader to
skip. -/
namespace Pglens.DiskBuffer
open Pglens.Lib List

/-- What recovery keeps of a file from the checkpoint on, frame by frame. -/
def keptFrames (file : List UInt8) (keep : ℕ) : List (List UInt8) :=
  (records.split (reopened file keep).length ((reopened file keep).drop keep)).1

variable {file : List UInt8} {keep : ℕ}

lemma reopened_keptFrames (hkeep : keep≤file.length) :
    reopened file keep = file.take keep++(keptFrames file keep).flatten ∧
      (∀ f ∈ keptFrames file keep, records.Complete f) ∧
      openSegment file keep =
        ⟨keep+(keptFrames file keep).flatten.length,(keptFrames file keep).countP hasPayload⟩ := by
  obtain ⟨ts,tail,hfile,hall,hopen⟩ := openSegment_split file keep
  rw [Nat.min_eq_left hkeep] at hfile hopen
  have hpre : (file.take keep).length = keep := length_take_of_le hkeep
  have hcut : reopened file keep = file.take keep++ts.flatten := by
    rw [reopened,hopen]
    conv_lhs => rw [hfile,← append_assoc]
    conv_lhs =>
      arg 2
      rw [← hpre]
    rw [← length_append,truncateFile_left]
  have hkept : keptFrames file keep = ts := by
    have hlen := Framing.length_le_flatten hall
    have hdrop : (reopened file keep).drop keep = ts.flatten++[] := by
      rw [hcut,append_nil]
      exact drop_left' hpre
    rw [keptFrames,hdrop,Framing.split_frames hall Framing.stuck_nil]
    rw [hcut,length_append]
    omega
  rw [hkept]
  exact ⟨hcut,hall,hopen⟩

lemma recordsFrom_reopened (hkeep : keep≤file.length) :
    recordsFrom (reopened file keep) (openSegment file keep).fileSize keep =
      (openSegment file keep).recordCount+(keptFrames file keep).countP fun f => !hasPayload f := by
  obtain ⟨hcut,hall,hopen⟩ := reopened_keptFrames hkeep
  have hcount := recordsFrom_frames hall (file.take keep) []
  rw [append_nil,length_take_of_le hkeep] at hcount
  rw [hcut,hopen,hcount]
  dsimp only
  rw [length_eq_countP_add_countP hasPayload]
  congr 2
  funext f
  cases hasPayload f <;> rfl

lemma recordsFrom_eq_iff (hkeep : keep≤file.length) :
    recordsFrom (reopened file keep) (openSegment file keep).fileSize keep = (openSegment file keep).recordCount ↔
      ∀ f ∈ keptFrames file keep, hasPayload f = true := by
  rw [recordsFrom_reopened hkeep,Nat.add_eq_left,countP_eq_zero]
  simp

/-- A segment as openSegment loads it. -/
structure Loaded (file : List UInt8) (keep : ℕ) (d : Disk) (s : Segment) : Prop where
  content : d.content s.id = reopened file keep
  fileSize : s.fileSize = (openSegment file keep).fileSize
  recordCount : s.recordCount = (openSegment file keep).recordCount

/-- The two counters of a recovered segment agree exactly when no zero-length header lies between
the checkpoint and the last record. Each then counts the records with a payload, and retention adds
that number to the samples dropped. -/
theorem counters_agree {file : List UInt8} {keep : ℕ} (hkeep : keep≤file.length) :
    (recordsFrom (reopened file keep) (openSegment file keep).fileSize keep=(openSegment file keep).recordCount ↔
      ∀ f ∈ keptFrames file keep, hasPayload f=true) ∧
    ((∀ f ∈ keptFrames file keep, hasPayload f=true) →
      (openSegment file keep).recordCount=(keptFrames file keep).length ∧
      ∀ (b : Buffer) (d : Disk) (s : Segment) (rest : List Segment) (reason : Reason), b.segments=s::rest →
        Loaded file keep d s → b.ackedSegID=s.id ∧ b.ackedOff=keep ∨ b.ackedSegID<s.id →
        (b.removed d (some reason)).stats.samplesDropped reason =
          b.stats.samplesDropped reason+(openSegment file keep).recordCount) := by
  refine ⟨recordsFrom_eq_iff hkeep,fun hrecords => ⟨?_,?_⟩⟩
  · rw [(reopened_keptFrames hkeep).2.2]
    exact countP_eq_length.mpr hrecords
  · intro b d s rest reason hsegs hs hwhere
    have hunacked : b.unackedRecords d s = (openSegment file keep).recordCount := by
      unfold Buffer.unackedRecords
      obtain ⟨hid,hoff⟩ | hlater := hwhere
      · rw [if_neg (by omega),if_neg (by omega),hs.content,hs.fileSize,hoff]
        exact (recordsFrom_eq_iff hkeep).mpr hrecords
      · rw [if_neg (by omega),if_pos hlater,hs.recordCount]
    simp [Buffer.removed,hsegs,Stats.afterRemove,hunacked]

/-- One record behind a record that is acknowledged. -/
theorem counters_agree_one :
    let file := frame [7]++frame [8]
    recordsFrom (reopened file 9) (openSegment file 9).fileSize 9 = (openSegment file 9).recordCount ∧
      (openSegment file 9).recordCount = (keptFrames file 9).length := by
  intro file
  have hkeep : 9≤file.length := by decide +kernel
  have hrecords : ∀ f ∈ keptFrames file 9, hasPayload f = true := by decide +kernel
  obtain ⟨hiff,hcount⟩ := counters_agree hkeep
  exact ⟨hiff.mpr hrecords,(hcount hrecords).1⟩

/-- Eight zero bytes in front of a record. Its segment counts one record, and recordsFrom counts two: the
zeros add a dropped sample when it is the checkpoint's segment. -/
theorem counters_differ :
    let file := List.replicate 8 0++frame [7]
    let s : Segment := ⟨1,.zero,.zero,8,(openSegment file 0).recordCount,(openSegment file 0).fileSize⟩
    let d : Disk := ⟨FinMap.empty.set 1 (reopened file 0),none⟩
    (openSegment file 0).recordCount = 1 ∧
      recordsFrom (reopened file 0) (openSegment file 0).fileSize 0 = 2 ∧
      (Buffer.initial ⟨0,0⟩ (some (1,0))).unackedRecords d s = 2 ∧
      (Buffer.initial ⟨0,0⟩ (some (0,0))).unackedRecords d s = 1 := by
  decide +kernel

end Pglens.DiskBuffer
