import Pglens.Lib.Bytes
import Pglens.Lib.Framing
import Mathlib.Data.Int.Order.Basic
import Mathlib.Tactic.SplitIfs

/-! A record is a four byte length, a four byte CRC32C and the payload. The writer, the recovery
walk of openSegment, the count of recordsFrom and the reader ReadAt each go through these bytes on
their own. Offsets are numbers: an int64 or uint64 offset of a file that exists is far from the
range's end. The reader's `8+length` is a uint32 and wraps. -/
namespace Pglens.DiskBuffer
open Pglens.Lib List

/-- One bit of the reflected Castagnoli polynomial division. -/
def crcBit (c : BitVec 32) : BitVec 32 :=
  if c.getLsbD 0 then (c >>> 1) ^^^ 0x82F63B78#32 else c >>> 1

def crcByte (c : BitVec 32) (b : UInt8) : BitVec 32 :=
  Nat.repeat crcBit 8 (c ^^^ BitVec.ofNat 32 b.toNat)

def computeCRC32C (data : List UInt8) : ℕ :=
  (~~~(data.foldl crcByte (BitVec.allOnes 32))).toNat

-- The check value of CRC-32C: the digits 1 to 9.
example : computeCRC32C [49,50,51,52,53,54,55,56,57] = 0xE3069283 := by decide +kernel

/-- The bytes Segment.Append writes for a record. -/
def frame (data : List UInt8) : List UInt8 :=
  putLE 4 data.length++putLE 4 (computeCRC32C data)++data

/-- The length header in front of a stream of at least eight bytes. -/
def headerLength (s : List UInt8) : ℕ := getLE (s.take 4)

def headerCRC (s : List UInt8) : ℕ := getLE ((s.drop 4).take 4)

/-- File.Truncate: the front of the file, filled with zeros when it is shorter. -/
def truncateFile (file : List UInt8) (size : ℕ) : List UInt8 :=
  file.take size++List.replicate (size-file.length) 0

/-- What ReadAt returns: the record, the next offset, and whether the error is io.EOF. -/
structure ReadResult where
  data : Option (List UInt8)
  next : ℕ
  eof : Bool
  deriving DecidableEq, Repr

def readAt (file : List UInt8) (fileSize offset : ℕ) : ReadResult :=
  let s := file.drop offset
  if s.length<8 then ⟨none,offset,true⟩
  else
    let length := headerLength s
    -- no record is empty: a zero length is what a zero-filled region reads as
    if length=0 then ⟨none,offset+8,false⟩
    else if 0<fileSize ∧ (fileSize : ℤ)-offset-8 < length then ⟨none,offset,true⟩
    else if s.length-8 < length then ⟨none,offset,true⟩
    else
      let data := (s.drop 8).take length
      let next := offset+(8+length)%2^32
      if headerCRC s ≠ computeCRC32C data then ⟨none,next,false⟩ else ⟨some data,next,false⟩

/-- The walk of openSegment from `offset`: the end of the last record with a payload, and
how many of them there are. Each turn moves at least eight bytes on. -/
def openLoop (file : List UInt8) : ℕ → ℕ → ℕ → ℕ → ℕ × ℕ
  | 0,_,last,recordCount => (last,recordCount)
  | fuel+1,offset,last,recordCount =>
    if offset+8 ≤ file.length then
      let length := headerLength (file.drop offset)
      let next := offset+8+length
      if file.length<next then (last,recordCount)
      else if 0<length then openLoop file fuel next next (recordCount+1)
      else openLoop file fuel next last recordCount
    else (last,recordCount)

/-- What openSegment finds: where the file is cut, and the records it counts. -/
structure Opened where
  fileSize : ℕ
  recordCount : ℕ
  deriving DecidableEq, Repr

/-- openSegment's walk of a file from the checkpoint offset `keep`. -/
def openSegment (file : List UInt8) (keep : ℕ) : Opened :=
  let start := min keep file.length
  let r := openLoop file (file.length+1) start start 0
  ⟨r.1,r.2⟩

/-- The bytes openSegment cuts from the end. -/
def Opened.cut (o : Opened) (file : List UInt8) : ℕ := file.length-o.fileSize

def recordsLoop (file : List UInt8) (fileSize : ℕ) : ℕ → ℕ → ℕ → ℕ
  | 0,_,n => n
  | fuel+1,offset,n =>
    if offset+8 ≤ fileSize then
      if (file.drop offset).length < 8 then n
      else
        let next := offset+8+headerLength (file.drop offset)
        if fileSize<next then n else recordsLoop file fileSize fuel next (n+1)
    else n

def recordsFrom (file : List UInt8) (fileSize offset : ℕ) : ℕ :=
  recordsLoop file fileSize (fileSize+1) offset 0

/-- The reader's iteration from an offset, up to its first io.EOF. -/
def readAll (file : List UInt8) (fileSize : ℕ) : ℕ → ℕ → List (ℕ × ReadResult)
  | 0,_ => []
  | fuel+1,offset =>
    let r := readAt file fileSize offset
    (offset,r)::if r.eof then [] else readAll file fileSize fuel r.next

def recordLen (s : List UInt8) : Option ℕ :=
  if 8 ≤ s.length ∧ 8+headerLength s ≤ s.length then some (8+headerLength s) else none

variable {s f data r : List UInt8} {n : ℕ} {fs : List (List UInt8)}

lemma recordLen_eq_some :
    recordLen s = some n ↔ 8 ≤ s.length ∧ n ≤ s.length ∧ n = 8+headerLength s := by
  unfold recordLen
  split_ifs with h
  · simp only [Option.some.injEq]
    omega
  · simp only [false_iff]
    omega

lemma headerLength_append (h : 4 ≤ s.length) (t : List UInt8) :
    headerLength (s++t) = headerLength s := by
  rw [headerLength,take_append_of_le_length h,headerLength]

lemma headerLength_take (h : 4≤n) : headerLength (s.take n) = headerLength s := by
  rw [headerLength,take_take,Nat.min_eq_left h,headerLength]

/-- The framing of a segment file. A header with length zero is a frame of its own. -/
def records : Framing UInt8 where
  len := recordLen
  pos h := by
    obtain ⟨-,-,rfl⟩ := recordLen_eq_some.mp h
    omega
  le h := (recordLen_eq_some.mp h).2.1
  ext t h := by
    obtain ⟨h8,hn,rfl⟩ := recordLen_eq_some.mp h
    rw [recordLen_eq_some,headerLength_append (by omega),length_append]
    omega
  take h := by
    obtain ⟨h8,hn,rfl⟩ := recordLen_eq_some.mp h
    rw [recordLen_eq_some,headerLength_take (by omega),length_take]
    omega

lemma complete_iff : records.Complete f ↔ 8≤f.length ∧ f.length = 8+headerLength f := by
  change recordLen f = some f.length ↔ _
  rw [recordLen_eq_some]
  omega

lemma stuck_iff : records.Stuck s ↔ ¬(8 ≤ s.length ∧ 8+headerLength s ≤ s.length) := by
  change recordLen s = none ↔ _
  simp [recordLen]

/-- What a record in a file can be at most for the reader to step over it. -/
def maxRecord : ℕ := 2^32-8

lemma maxRecord_lt : maxRecord < 2^32 := by decide

@[simp] lemma length_frame (data : List UInt8) : (frame data).length = 8+data.length := by
  simp [frame]
  omega

lemma headerLength_frame (h : data.length<2^32) (t : List UInt8) :
    headerLength (frame data++t) = data.length := by
  have hlt : data.length < 256^4 := by omega
  rw [headerLength,frame,append_assoc,append_assoc,
    take_append_of_le_length (by simp),take_of_length_le (by simp),getLE_putLE_of_lt hlt]

lemma frame_complete (h : data.length<2^32) : records.Complete (frame data) := by
  have hl := headerLength_frame h []
  rw [append_nil] at hl
  rw [complete_iff,hl,length_frame]
  omega

/-- The payload the reader returns for a frame: none for a zero header or a bad CRC. -/
def payload (f : List UInt8) : Option (List UInt8) :=
  if 8<f.length ∧ headerCRC f = computeCRC32C (f.drop 8) then some (f.drop 8) else none

lemma drop_pre (pre s : List UInt8) : (pre++s).drop pre.length = s := drop_left

lemma headerCRC_append (h : 8 ≤ s.length) (t : List UInt8) : headerCRC (s++t) = headerCRC s := by
  rw [headerCRC,drop_append_of_le_length (by omega),
    take_append_of_le_length (by rw [length_drop]; omega),headerCRC]

lemma readAt_frame (hf : records.Complete f) (hlt : f.length<2^32) (pre s : List UInt8)
    (fileSize : ℕ) (hsize : pre.length+f.length ≤ fileSize) :
    readAt (pre++(f++s)) fileSize pre.length = ⟨payload f,pre.length+f.length,false⟩ := by
  obtain ⟨h8,hlen⟩ := complete_iff.mp hf
  have hh : headerLength (f++s) = headerLength f := headerLength_append (by omega) s
  have hcrc : headerCRC (f++s) = headerCRC f := headerCRC_append h8 s
  unfold readAt
  simp only [drop_pre,hh,hcrc]
  rw [if_neg (by rw [length_append]; omega)]
  by_cases hz : headerLength f = 0
  · rw [if_pos hz,payload,if_neg (by omega)]
    congr 1
    omega
  · rw [if_neg hz,if_neg (by omega),if_neg (by rw [length_append]; omega)]
    have hdata : ((f++s).drop 8).take (headerLength f) = f.drop 8 := by
      rw [drop_append_of_le_length h8,take_left' (by rw [length_drop]; omega)]
    have hnext : (8+headerLength f)%2^32 = f.length := by
      rw [← hlen]
      exact Nat.mod_eq_of_lt hlt
    simp only [hdata,hnext,payload]
    by_cases hc : headerCRC f = computeCRC32C (f.drop 8)
    · rw [if_neg (by simpa using hc),if_pos ⟨by omega,hc⟩]
    · rw [if_pos hc,if_neg fun h => hc h.2]

lemma readAt_stuck (hr : records.Stuck r) (pre : List UInt8) (fileSize : ℕ) :
    readAt (pre++r) fileSize pre.length = ⟨none,pre.length,true⟩ := by
  have hn := stuck_iff.mp hr
  unfold readAt
  simp only [drop_pre]
  split_ifs with h1 h2 h3 h4 <;> first | rfl | omega

lemma drop_frame (data : List UInt8) : (frame data).drop 8 = data := by
  rw [frame,drop_left' (by simp)]

lemma frame_injective : Function.Injective frame := fun a b h => by
  rw [← drop_frame a,h,drop_frame]

lemma payload_frame (hpos : 0<data.length) : payload (frame data) = some data := by
  have hd := drop_frame data
  have hc : headerCRC (frame data) = computeCRC32C data := by
    have hlt : computeCRC32C data < 256^4 := (BitVec.isLt _).trans_eq (by norm_num)
    rw [headerCRC,frame,append_assoc,drop_left' (by simp),
      take_append_of_le_length (by simp),take_of_length_le (by simp),
      getLE_putLE_of_lt hlt]
  rw [payload,hd,hc,if_pos ⟨by rw [length_frame]; omega,rfl⟩]

lemma headerLength_at (hf : records.Complete f) (pre rest : List UInt8) :
    headerLength ((pre++(f++rest)).drop pre.length) = headerLength f := by
  have h8 := (complete_iff.mp hf).1
  rw [drop_pre,headerLength_append (by omega)]

def hasPayload (f : List UInt8) : Bool := decide (8<f.length)

/-- The end of the last frame with a payload, `last` when there is none. -/
def payloadEnd : ℕ → ℕ → List (List UInt8) → ℕ
  | _,last,[] => last
  | offset,last,f::fs =>
    payloadEnd (offset+f.length) (if hasPayload f then offset+f.length else last) fs

lemma frame_at {f : List UInt8} (hf : records.Complete f) (pre r : List UInt8) (fs : List (List UInt8)) :
    8≤f.length ∧ pre++((f::fs).flatten++r) = (pre++f)++(fs.flatten++r) ∧
    headerLength ((pre++((f::fs).flatten++r)).drop pre.length) = headerLength f ∧
    pre.length+8+headerLength f = (pre++f).length := by
  obtain ⟨h8,hlen⟩ := complete_iff.mp hf
  refine ⟨h8,by simp [append_assoc],?_,by rw [length_append]; omega⟩
  rw [flatten_cons,append_assoc,headerLength_at hf]

lemma openLoop_frames (hall : ∀ f∈fs, records.Complete f) (hr : records.Stuck r)
    (pre : List UInt8) (fuel : ℕ) (hfuel : fs.length<fuel) (last recordCount : ℕ) :
    openLoop (pre++(fs.flatten++r)) fuel pre.length last recordCount =
      (payloadEnd pre.length last fs,recordCount+fs.countP hasPayload) := by
  obtain ⟨fuel,rfl⟩ := Nat.exists_eq_add_of_lt hfuel
  clear hfuel
  induction fs generalizing pre last recordCount with
  | nil =>
    have hn := stuck_iff.mp hr
    simp only [openLoop,flatten_nil,nil_append,drop_pre,length_append,
      payloadEnd,countP_nil,Nat.add_zero]
    split_ifs <;> first | rfl | omega
  | cons f fs ih =>
    obtain ⟨h8,hfile,hh,hnext⟩ := frame_at (hall f (by simp)) pre r fs
    have hrest := ih (fun g hg => hall g (by simp [hg])) (pre++f)
    have hpre : pre.length+f.length = (pre++f).length := by simp
    rw [length_cons,Nat.add_right_comm _ 1,Nat.add_right_comm _ 1,openLoop,if_pos (by simp; omega)]
    simp only [hh,hnext]
    rw [if_neg (by simp),hfile,payloadEnd,hpre]
    by_cases hp : 0 < headerLength f
    · have hhp : hasPayload f = true := by simp [hasPayload]; omega
      rw [if_pos hp,hrest,if_pos hhp,countP_cons_of_pos hhp]
      congr 1
      omega
    · have hhp : ¬hasPayload f = true := by simp [hasPayload]; omega
      rw [if_neg hp,hrest,if_neg hhp,countP_cons_of_neg hhp]

lemma recordsLoop_frames (hall : ∀ f∈fs, records.Complete f)
    (pre r : List UInt8) (fuel : ℕ) (hfuel : fs.length<fuel) (n : ℕ) :
    recordsLoop (pre++(fs.flatten++r)) (pre.length+fs.flatten.length) fuel pre.length n =
      n+fs.length := by
  obtain ⟨fuel,rfl⟩ := Nat.exists_eq_add_of_lt hfuel
  clear hfuel
  induction fs generalizing pre n with
  | nil =>
    rw [recordsLoop,if_neg (by simp)]
    rfl
  | cons f fs ih =>
    obtain ⟨h8,hfile,hh,hnext⟩ := frame_at (hall f (by simp)) pre r fs
    have hrest := ih (fun g hg => hall g (by simp [hg])) (pre++f) (n+1)
    have hdrop : ¬((pre++((f::fs).flatten++r)).drop pre.length).length < 8 := by
      rw [drop_pre]
      simp only [flatten_cons,length_append]
      omega
    have hsize : pre.length+(f::fs).flatten.length = (pre++f).length+fs.flatten.length := by
      simp [Nat.add_assoc]
    rw [length_cons,Nat.add_right_comm _ 1,Nat.add_right_comm _ 1,recordsLoop,
      if_pos (by simp; omega),if_neg hdrop]
    simp only [hh,hnext]
    rw [hsize,if_neg (by omega),hfile,hrest]
    omega

lemma recordsFrom_frames (hall : ∀ f∈fs, records.Complete f) (pre r : List UInt8) :
    recordsFrom (pre++(fs.flatten++r)) (pre.length+fs.flatten.length) pre.length = fs.length := by
  have hlen := Framing.length_le_flatten hall
  rw [recordsFrom,recordsLoop_frames hall pre r _ (by omega),Nat.zero_add]

end Pglens.DiskBuffer
