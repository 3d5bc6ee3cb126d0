import Pglens.DiskBuffer.Disk

/-! The writer, the recovery walk and the reader agree on what a file holds: a file the writer left,
cut anywhere, comes back as the records before the cut, and after the walk of any file the reader
goes from the walk's start to exactly the end the walk chose. -/
namespace Pglens.DiskBuffer
open Pglens.Lib List

lemma payloadEnd_split (fs : List (List UInt8)) (offset last : ℕ) :
    ∃ ts zs, fs = ts++zs ∧ (∀ f∈zs, hasPayload f=false) ∧
      payloadEnd offset last fs = if ts=[] then last else offset+ts.flatten.length := by
  induction fs generalizing offset last with
  | nil => exact ⟨[],[],rfl,by simp,rfl⟩
  | cons f fs ih =>
    obtain ⟨ts,zs,rfl,hz,hend⟩ := ih (offset+f.length)
      (if hasPayload f then offset+f.length else last)
    by_cases hts : ts=[]
    · subst hts
      rw [if_pos rfl] at hend
      cases hp : hasPayload f with
      | true => exact ⟨[f],zs,rfl,hz,by simpa [payloadEnd,hp] using hend⟩
      | false =>
        refine ⟨[],f::zs,rfl,by simpa [hp] using hz,?_⟩
        rw [payloadEnd,hend,hp]
        rfl
    · rw [if_neg hts] at hend
      refine ⟨f::ts,zs,rfl,hz,?_⟩
      rw [payloadEnd,hend,if_neg (by simp),flatten_cons,length_append]
      omega

lemma openSegment_split (file : List UInt8) (keep : ℕ) :
    ∃ (ts : List (List UInt8)) (tail : List UInt8),
      file = file.take (min keep file.length)++(ts.flatten++tail) ∧
      (∀ f∈ts, records.Complete f) ∧
      openSegment file keep =
        ⟨min keep file.length+ts.flatten.length,ts.countP hasPayload⟩ := by
  obtain ⟨fs,r,hdrop,hall,hr⟩ := records.exists_split (file.drop (min keep file.length))
  obtain ⟨ts,zs,rfl,hz,hend⟩ :=
    payloadEnd_split fs (min keep file.length) (min keep file.length)
  have hpre : (file.take (min keep file.length)).length = min keep file.length := by
    rw [length_take]
    omega
  have hfile : file.take (min keep file.length)++((ts++zs).flatten++r) = file := by
    rw [← hdrop,take_append_drop]
  have hfuel : (ts++zs).length < file.length+1 := by
    have h1 := Framing.length_le_flatten hall
    have h2 : (ts++zs).flatten.length ≤ file.length := by
      rw [← congrArg List.length hfile]
      simp only [length_append]
      omega
    omega
  refine ⟨ts,zs.flatten++r,?_,fun f hf => hall f (by simp [hf]),?_⟩
  · rw [← append_assoc ts.flatten,← flatten_append,hfile]
  · have hwalk := openLoop_frames hall hr (file.take (min keep file.length)) (file.length+1) hfuel
      (min keep file.length) 0
    rw [hfile,hpre] at hwalk
    have hzs : zs.countP hasPayload = 0 := by
      rw [countP_eq_zero]
      intro f hf
      simp [hz f hf]
    rw [openSegment]
    simp only [hwalk,hend,countP_append,hzs]
    split_ifs with hts
    · subst hts
      simp
    · simp

def readSteps : ℕ → List (List UInt8) → List (ℕ × ReadResult)
  | _,[] => []
  | offset,f::fs => (offset,⟨payload f,offset+f.length,false⟩)::readSteps (offset+f.length) fs

variable {fs rs : List (List UInt8)} {r : List UInt8}

lemma readAll_frames (hall : ∀ f∈fs, records.Complete f) (hlt : ∀ f∈fs, f.length<2^32)
    (hr : records.Stuck r) (pre : List UInt8) (fileSize : ℕ)
    (hsize : pre.length+fs.flatten.length ≤ fileSize) (fuel : ℕ) (hfuel : fs.length<fuel) :
    readAll (pre++(fs.flatten++r)) fileSize fuel pre.length =
      readSteps pre.length fs++[(pre.length+fs.flatten.length,
        ⟨none,pre.length+fs.flatten.length,true⟩)] := by
  induction fs generalizing pre fuel with
  | nil =>
    obtain ⟨fuel,rfl⟩ : ∃ k, fuel = k+1 := ⟨fuel-1,by simp at hfuel; omega⟩
    simp [readAll,readSteps,readAt_stuck hr]
  | cons f fs ih =>
    obtain ⟨fuel,rfl⟩ : ∃ k, fuel = k+1 := ⟨fuel-1,by simp at hfuel; omega⟩
    have hlen : (f::fs).flatten.length = f.length+fs.flatten.length := by simp
    have hread := readAt_frame (hall f (by simp)) (hlt f (by simp)) pre (fs.flatten++r)
      fileSize (by omega)
    have hrest := ih (fun g hg => hall g (by simp [hg])) (fun g hg => hlt g (by simp [hg]))
      (pre++f) (by rw [length_append]; omega) fuel (by simp at hfuel; omega)
    rw [length_append,append_assoc] at hrest
    rw [flatten_cons,append_assoc,readAll,hread]
    simp only [Bool.false_eq_true,if_false,hrest,readSteps,cons_append,length_append,Nat.add_assoc]

lemma readSteps_data (offset : ℕ) :
    (readSteps offset fs).filterMap (fun s => s.2.data) = fs.filterMap payload := by
  induction fs generalizing offset with
  | nil => rfl
  | cons f fs ih =>
    rw [readSteps,filterMap_cons,filterMap_cons,ih]

/-- One step of the reader: it moves on by the header's length, within the file, and what
it returns is the payload there, with the header's CRC. -/
structure ReadStep (file : List UInt8) (fileSize : ℕ) (s : ℕ × ReadResult) : Prop where
  eof : s.2.eof=false
  next : s.2.next = s.1+8+headerLength (file.drop s.1)
  inside : s.2.next≤fileSize
  data : ∀ d∈s.2.data, d = (file.drop (s.1+8)).take (headerLength (file.drop s.1)) ∧
    computeCRC32C d = headerCRC (file.drop s.1)

lemma payload_eq_some {f d : List UInt8} (h : payload f=some d) :
    d = f.drop 8 ∧ computeCRC32C d = headerCRC f := by
  unfold payload at h
  split_ifs at h with hp
  cases h
  exact ⟨rfl,hp.2.symm⟩

lemma readSteps_spec (hall : ∀ f∈fs, records.Complete f) (pre r : List UInt8) :
    ∀ s ∈ readSteps pre.length fs,
      ReadStep (pre++(fs.flatten++r)) (pre.length+fs.flatten.length) s := by
  induction fs generalizing pre with
  | nil => simp [readSteps]
  | cons f fs ih =>
    obtain ⟨h8,hlen⟩ := complete_iff.mp (hall f (by simp))
    have hflat : (f::fs).flatten.length = f.length+fs.flatten.length := by simp
    intro s hs
    rcases mem_cons.mp hs with rfl | hs
    · have hdrop : (pre++((f::fs).flatten++r)).drop pre.length = f++(fs.flatten++r) := by
        rw [drop_pre,flatten_cons,append_assoc]
      have hh : headerLength (f++(fs.flatten++r)) = headerLength f :=
        headerLength_append (by omega) _
      have hcrc : headerCRC (f++(fs.flatten++r)) = headerCRC f := headerCRC_append h8 _
      refine ⟨rfl,?_,?_,fun d hd => ?_⟩
      · simp only [hdrop,hh]
        omega
      · simp only [hflat]
        omega
      · obtain ⟨rfl,hc⟩ := payload_eq_some hd
        rw [← drop_drop,hdrop,hh,hcrc]
        refine ⟨?_,hc⟩
        rw [drop_append_of_le_length h8,take_left' (by rw [length_drop]; omega)]
    · have := ih (fun g hg => hall g (by simp [hg])) (pre++f) s (by rw [length_append]; exact hs)
      rw [append_assoc,length_append,Nat.add_assoc] at this
      rwa [flatten_cons,append_assoc,length_append]

lemma readSteps_count (offset : ℕ) (fs : List (List UInt8)) :
    (readSteps offset fs).countP (fun s => decide (s.1+8<s.2.next)) = fs.countP hasPayload := by
  induction fs generalizing offset with
  | nil => rfl
  | cons f fs ih =>
    have hp : decide (offset+8<offset+f.length) = hasPayload f := by
      simp [hasPayload]
    rw [readSteps,countP_cons,countP_cons,ih]
    simp only [hp]

def Segment.appendAll (s : Segment) : List (List UInt8) → Prog device Segment
  | [] => return s
  | data::rest => do
    match ← s.append data {} with
    | some s => s.appendAll rest
    | none => return s

lemma appendAll_content (rs : List (List UInt8)) {s : Segment} {d : Disk}
    (h : (d.content s.id).length=s.fileSize) :
    (device.run d (s.appendAll rs d).2).content s.id = d.content s.id++(rs.map frame).flatten := by
  induction rs generalizing s d with
  | nil => simp [Segment.appendAll,Prog.run_pure,Device.run]
  | cons data rs ih =>
    have hd : device.run d [.write s.id (frame data)] = d.apply (.write s.id (frame data)) := rfl
    have hrest := ih (s := s.grown data) (d := d.apply (.write s.id (frame data))) (by
        change (Disk.content _ s.id).length=s.fileSize+_
        rw [content_write,if_pos rfl,length_append,h])
    rw [Segment.appendAll,Prog.run_bind,append_clean h,Device.run_append,hd]
    rw [grown_id] at hrest
    simp only [hrest,content_write,if_true,map_cons,flatten_cons,append_assoc]

lemma truncateFile_left (s t : List UInt8) : truncateFile (s++t) s.length = s := by
  simp [truncateFile]

def reopened (file : List UInt8) (keep : ℕ) : List UInt8 :=
  truncateFile file (openSegment file keep).fileSize

lemma openSegment_frames (hall : ∀ f∈fs, records.Complete f)
    (hpay : ∀ f∈fs, hasPayload f=true) (hr : records.Stuck r) (pre : List UInt8) (keep : ℕ)
    (hkeep : min keep (pre++(fs.flatten++r)).length=pre.length) :
    openSegment (pre++(fs.flatten++r)) keep = ⟨pre.length+fs.flatten.length,fs.length⟩ := by
  have hfuel : fs.length < (pre++(fs.flatten++r)).length+1 := by
    have := Framing.length_le_flatten hall
    simp only [length_append]
    omega
  have hcount : fs.countP hasPayload = fs.length := countP_eq_length.mpr hpay
  obtain ⟨ts,zs,rfl,hz,hend⟩ := payloadEnd_split fs pre.length pre.length
  obtain rfl : zs=[] := by
    cases zs with
    | nil => rfl
    | cons z zs =>
      have h1 := hpay z (by simp)
      rw [hz z (by simp)] at h1
      cases h1
  rw [openSegment,hkeep,openLoop_frames hall hr pre _ hfuel,hend,hcount]
  split_ifs with hts
  · subst hts
    simp
  · simp

lemma map_frame_complete (h : ∀ r∈rs, 0<r.length ∧ r.length < maxRecord) :
    ∀ f ∈ rs.map frame, records.Complete f ∧ hasPayload f = true ∧ f.length < 2^32 := by
  intro f hf
  obtain ⟨r,hr,rfl⟩ := mem_map.mp hf
  obtain ⟨hpos,hlt⟩ := h r hr
  refine ⟨frame_complete (hlt.trans maxRecord_lt),?_,?_⟩
  · simp only [hasPayload,length_frame,decide_eq_true_eq]
    omega
  · simp only [maxRecord] at hlt
    rw [length_frame]
    omega

lemma filterMap_payload_frame (h : ∀ r∈rs, 0<r.length) : (rs.map frame).filterMap payload = rs := by
  induction rs with
  | nil => rfl
  | cons r rs ih =>
    rw [map_cons,filterMap_cons,payload_frame (h r (by simp)),ih fun r' h' => h r' (by simp [h'])]

lemma cut_file_recovers (hrs : ∀ r∈rs, 0<r.length ∧ r.length < maxRecord) (n : ℕ) :
    ∃ k, k≤rs.length ∧
      (∀ j, j≤rs.length → (((rs.take j).map frame).flatten.length ≤ n ↔ j≤k)) ∧
      reopened ((rs.map frame).flatten.take n) 0 = ((rs.take k).map frame).flatten ∧
      ∀ fuel, ((rs.map frame).flatten.take n).length < fuel →
        ∃ steps fileSize, fileSize = (openSegment ((rs.map frame).flatten.take n) 0).fileSize ∧
          readAll (reopened ((rs.map frame).flatten.take n) 0) fileSize fuel 0 =
            steps++[(fileSize,⟨none,fileSize,true⟩)] ∧
          steps.filterMap (fun s => s.2.data) = rs.take k := by
  have hframes := map_frame_complete hrs
  obtain ⟨k,r,hk,htake,hr,hiff⟩ := Framing.exists_cut (fun f hf => (hframes f hf).1) n
  rw [length_map] at hk hiff
  have hfs : ∀ f ∈ (rs.map frame).take k, f ∈ rs.map frame := fun f hf => mem_of_mem_take hf
  have hopen : openSegment ((rs.map frame).flatten.take n) 0 =
      ⟨((rs.map frame).take k).flatten.length,((rs.map frame).take k).length⟩ := by
    have := openSegment_frames (fun f hf => (hframes f (hfs f hf)).1)
      (fun f hf => (hframes f (hfs f hf)).2.1) hr [] 0 (by simp)
    rw [htake]
    simpa using this
  have hfile : reopened ((rs.map frame).flatten.take n) 0 = ((rs.map frame).take k).flatten := by
    rw [reopened,hopen,htake,truncateFile_left]
  refine ⟨k,hk,fun j hj => ?_,by rw [hfile,map_take],fun fuel hfuel => ?_⟩
  · rw [map_take]
    exact hiff j hj
  · have hfuel' : ((rs.map frame).take k).length < fuel := by
      have h1 := Framing.length_le_flatten (F := records) (fun f hf => (hframes f (hfs f hf)).1)
      rw [htake,length_append] at hfuel
      omega
    have hread := readAll_frames (fun f hf => (hframes f (hfs f hf)).1)
      (fun f hf => (hframes f (hfs f hf)).2.2) Framing.stuck_nil [] _ le_rfl fuel hfuel'
    refine ⟨readSteps 0 ((rs.map frame).take k),_,rfl,?_,?_⟩
    · rw [hfile,hopen]
      simpa using hread
    · rw [readSteps_data,← map_take,
        filterMap_payload_frame fun r hr => (hrs r (mem_of_mem_take hr)).1]

lemma reader_follows_walk {file : List UInt8} (hlt : file.length<2^32) (keep fuel : ℕ)
    (hfuel : file.length<fuel) :
    ∃ steps fileSize, fileSize = (openSegment file keep).fileSize ∧
      readAll (reopened file keep) fileSize fuel (min keep file.length) =
        steps++[(fileSize,⟨none,fileSize,true⟩)] ∧
      (∀ s∈steps, s.1<s.2.next ∧ ReadStep (reopened file keep) fileSize s) ∧
      steps.countP (fun s => decide (s.1+8<s.2.next)) = (openSegment file keep).recordCount := by
  obtain ⟨ts,tail,hfile,hall,hopen⟩ := openSegment_split file keep
  set pre := file.take (min keep file.length) with hpredef
  have hpre : pre.length = min keep file.length := by
    rw [hpredef,length_take]
    omega
  have hcut : reopened file keep = pre++(ts.flatten++[]) := by
    rw [reopened,hopen,← hpre,append_nil]
    conv_lhs => rw [hfile,← append_assoc]
    rw [← length_append,truncateFile_left]
  have hsize : pre.length+ts.flatten.length ≤ file.length := by
    rw [congrArg List.length hfile]
    simp only [length_append]
    omega
  have hts : ∀ f∈ts, f.length < 2^32 := by
    intro f hf
    have := List.Sublist.length_le (sublist_flatten_of_mem hf)
    omega
  have hlen := Framing.length_le_flatten hall
  have hread := readAll_frames hall hts Framing.stuck_nil pre _ le_rfl fuel (by omega)
  refine ⟨readSteps pre.length ts,pre.length+ts.flatten.length,by rw [hopen,hpre],?_,?_,?_⟩
  · rw [hcut,← hpre,hread]
  · intro s hs
    have := readSteps_spec hall pre [] s hs
    rw [hcut]
    exact ⟨by rw [this.next]; omega,this⟩
  · rw [readSteps_count,hopen]

/-- What the writer left of some records, cut at any byte, is reopened as exactly the records that
end before the cut. Whatever a file of less than 2^32 bytes holds and wherever its walk starts, the
reader makes progress with every step, returns only payloads with a matching CRC, ends at the file
size with io.EOF, and steps over as many records as the walk counted. -/
theorem segment_codec_recovers :
    (∀ (s : Segment) (d : Disk) (rs : List (List UInt8)) (n : ℕ),
      s.fileSize=0 → d.content s.id=[] → (∀ r∈rs, 0<r.length ∧ r.length < maxRecord) →
      let file := ((device.run d (s.appendAll rs d).2).content s.id).take n
      ∃ k, k≤rs.length ∧
        (∀ j, j≤rs.length → (((rs.take j).map frame).flatten.length ≤ n ↔ j≤k)) ∧
        reopened file 0=((rs.take k).map frame).flatten ∧
        ∀ fuel, file.length<fuel →
          ∃ steps fileSize, fileSize=(openSegment file 0).fileSize ∧
            readAll (reopened file 0) fileSize fuel 0 =
              steps++[(fileSize,⟨none,fileSize,true⟩)] ∧
            steps.filterMap (fun s => s.2.data)=rs.take k) ∧
    (∀ (file : List UInt8) (keep fuel : ℕ), file.length<2^32 → file.length<fuel →
      ∃ steps fileSize, fileSize=(openSegment file keep).fileSize ∧
        readAll (reopened file keep) fileSize fuel (min keep file.length) =
          steps++[(fileSize,⟨none,fileSize,true⟩)] ∧
        (∀ s∈steps, s.1<s.2.next ∧ ReadStep (reopened file keep) fileSize s) ∧
        steps.countP (fun s => decide (s.1+8<s.2.next)) =
          (openSegment file keep).recordCount) := by
  constructor
  · intro s d rs n hsize hempty hrs file
    have hfile : file = (rs.map frame).flatten.take n := by
      change List.take n (Disk.content _ s.id) = _
      rw [appendAll_content rs (by rw [hempty,hsize]; rfl),hempty,nil_append]
    rw [hfile]
    exact cut_file_recovers hrs n
  · intro file keep fuel hlt hfuel
    exact reader_follows_walk hlt keep fuel hfuel

/-- Two records, the second cut inside its payload, and a file of a zero header alone. -/
theorem segment_codec_recovers_cut :
    let s : Segment := ⟨0,.zero,.zero,8,0,0⟩
    let d : Disk := ⟨FinMap.empty.set 0 [],none⟩
    let file := ((device.run d (s.appendAll [[7],[8,9]] d).2).content 0).take 18
    (reopened file 0=frame [7] ∧ ∃ steps fileSize, fileSize=(openSegment file 0).fileSize ∧
      readAll (reopened file 0) fileSize 19 0=steps++[(fileSize,⟨none,fileSize,true⟩)] ∧
        steps.filterMap (fun s => s.2.data)=[[7]]) ∧
    ∃ steps fileSize, fileSize = (openSegment [0,0,0,0,0,0,0,0] 0).fileSize ∧
      readAll (reopened [0,0,0,0,0,0,0,0] 0) fileSize 9 0 =
        steps++[(fileSize,⟨none,fileSize,true⟩)] := by
  intro s d file
  obtain ⟨k,hle,hk,hfile,hread⟩ := segment_codec_recovers.1 s d [[7],[8,9]] 18 rfl rfl
    (by simp [maxRecord])
  obtain rfl : k=1 := by
    have hone := (hk 1 (by decide)).mp (by simp [length_frame])
    have htwo := (hk 2 (by decide)).not.mp (by simp [length_frame])
    omega
  obtain ⟨steps,fileSize,hsize,hsteps,-⟩ := segment_codec_recovers.2 [0,0,0,0,0,0,0,0] 0 9
    (by decide) (by decide)
  refine ⟨⟨by simpa using hfile,hread 19 ?_⟩,steps,fileSize,hsize,hsteps⟩
  exact Nat.lt_succ_of_le (length_take_le 18 _)

end Pglens.DiskBuffer
