import Pglens.DiskBuffer.Accounting
import Pglens.Lib.Runs

/-! Bytes past a segment's size are left by writes that failed. A reader does not take them for a
record, and the next append cuts them off. -/
namespace Pglens.DiskBuffer
open Pglens.Lib List

def readable (file : List UInt8) (fileSize fuel offset : ℕ) : List (List UInt8) :=
  (readAll file fileSize fuel offset).filterMap fun s => s.2.data

lemma readable_succ (file : List UInt8) (fileSize fuel offset : ℕ) :
    readable file fileSize (fuel+1) offset = (readAt file fileSize offset).data.toList ++
      if (readAt file fileSize offset).eof then []
      else readable file fileSize fuel (readAt file fileSize offset).next := by
  simp only [readable,readAll,filterMap_cons]
  cases (readAt file fileSize offset).data <;> cases (readAt file fileSize offset).eof <;> rfl

variable {fileSize offset : ℕ} {file data base : List UInt8} {s : Segment} {d : Disk}
  {faults : WriteFaults} {rs : List (List UInt8)} {b : Buffer}

lemma readAt_past (hpos : 0<fileSize) (h : fileSize<offset+8) (file : List UInt8) :
    (readAt file fileSize offset).data = none ∧ offset ≤ (readAt file fileSize offset).next := by
  unfold readAt
  dsimp only
  by_cases hshort : (file.drop offset).length < 8
  · rw [if_pos hshort]
    exact ⟨rfl,le_rfl⟩
  · rw [if_neg hshort]
    by_cases hzero : headerLength (file.drop offset) = 0
    · rw [if_pos hzero]
      exact ⟨rfl,Nat.le_add_right _ _⟩
    · rw [if_neg hzero,if_pos ⟨hpos,by omega⟩]
      exact ⟨rfl,le_rfl⟩

lemma readable_past (hpos : 0<fileSize) (h : fileSize<offset+8) (file : List UInt8) (fuel : ℕ) :
    readable file fileSize fuel offset = [] := by
  induction fuel generalizing offset with
  | zero => rfl
  | succ fuel ih =>
    obtain ⟨hdata,hnext⟩ := readAt_past hpos h file
    rw [readable_succ,hdata,ih (by omega)]
    split_ifs <;> rfl

lemma readAt_take (hlong : fileSize≤file.length) (hin : offset+8 ≤ fileSize) :
    readAt (file.take fileSize) fileSize offset = readAt file fileSize offset := by
  have hdrop : (file.take fileSize).drop offset = (file.drop offset).take (fileSize-offset) := drop_take
  have hheader : headerLength ((file.drop offset).take (fileSize-offset)) = headerLength (file.drop offset) :=
    headerLength_take (by omega)
  have hcrc : headerCRC ((file.drop offset).take (fileSize-offset)) = headerCRC (file.drop offset) := by
    rw [headerCRC,drop_take,take_take,Nat.min_eq_left (by omega),headerCRC]
  unfold readAt
  simp only [hdrop,hheader,hcrc,length_take,length_drop]
  have hheaders : ¬min (fileSize-offset) (file.length-offset) < 8 ∧ ¬file.length-offset < 8 := by omega
  rw [if_neg hheaders.1,if_neg hheaders.2]
  by_cases hzero : headerLength (file.drop offset) = 0
  · rw [if_pos hzero,if_pos hzero]
  · rw [if_neg hzero,if_neg hzero]
    by_cases hsize : 0<fileSize ∧ (fileSize : ℤ)-offset-8 < headerLength (file.drop offset)
    · rw [if_pos hsize,if_pos hsize]
    · have hdata : (((file.drop offset).take (fileSize-offset)).drop 8).take (headerLength (file.drop offset)) =
          ((file.drop offset).drop 8).take (headerLength (file.drop offset)) := by
        rw [drop_take,take_take,Nat.min_eq_left (by omega)]
      have hbytes : ¬min (fileSize-offset) (file.length-offset)-8 < headerLength (file.drop offset) ∧
          ¬file.length-offset-8 < headerLength (file.drop offset) := by omega
      rw [if_neg hsize,if_neg hsize,if_neg hbytes.1,if_neg hbytes.2,hdata]

lemma readable_take (hpos : 0<fileSize) (hlong : fileSize≤file.length) (fuel offset : ℕ) :
    readable (file.take fileSize) fileSize fuel offset = readable file fileSize fuel offset := by
  induction fuel generalizing offset with
  | zero => rfl
  | succ fuel ih =>
    by_cases hin : offset+8 ≤ fileSize
    · rw [readable_succ,readable_succ,readAt_take hlong hin,ih]
    · rw [readable_past hpos (by omega),readable_past hpos (by omega)]

/-- What is past the size cannot be read: a segment with a size hides it by the size, and an empty one by
the record it is a part of. -/
structure Unread (fileSize : ℕ) (file : List UInt8) : Prop where
  long : fileSize≤file.length
  stuck : fileSize=0 → records.Stuck file

lemma Unread.readable_eq {file' : List UInt8} (h : Unread fileSize file)
    (h' : Unread fileSize file') (htake : file'.take fileSize=file.take fileSize) (fuel : ℕ)
    (hoffset : offset≤fileSize) :
    readable file' fileSize fuel offset = readable file fileSize fuel offset := by
  rcases Nat.eq_zero_or_pos fileSize with rfl | hpos
  · obtain rfl := Nat.le_zero.mp hoffset
    have hnone : ∀ f, records.Stuck f → readable f 0 fuel 0 = [] := by
      intro f hf
      cases fuel with
      | zero => rfl
      | succ fuel =>
        have hread := readAt_stuck hf [] 0
        rw [nil_append,length_nil] at hread
        rw [readable_succ,hread]
        rfl
    rw [hnone file' (h'.stuck rfl),hnone file (h.stuck rfl)]
  · rw [← readable_take hpos h'.long,htake,readable_take hpos h.long]

lemma truncateFile_of_le {size : ℕ} (h : size≤file.length) :
    truncateFile file size = file.take size := by
  simp [truncateFile,Nat.sub_eq_zero_of_le h]

lemma content_cutEffects (hlong : s.fileSize ≤ (d.content s.id).length) :
    (device.run d (s.cutEffects d)).content s.id = (d.content s.id).take s.fileSize := by
  rw [Segment.cutEffects]
  split_ifs with hstale
  · change (d.apply (.truncate s.id s.fileSize)).content s.id = _
    rw [content_truncate,if_pos rfl,truncateFile_of_le hlong]
  · have heq : (d.content s.id).length = s.fileSize := by simpa using hstale
    change d.content s.id = _
    rw [← heq,take_length]

lemma append_failed
    (hlong : s.fileSize ≤ (d.content s.id).length) (h : (s.append data faults d).1=none) :
    let file := d.content s.id
    let file' := (device.run d (s.append data faults d).2).content s.id
    file' = file ∨ file' = file.take s.fileSize ∨
      ∃ n, faults.write = some n ∧ file' = file.take s.fileSize++(frame data).take n := by
  intro file file'
  have hfile' : file' = (device.run d (s.append data faults d).2).content s.id := rfl
  rw [append_eq] at h hfile'
  by_cases hearly : (faults.stat || ((d.content s.id).length != s.fileSize && faults.truncate)) = true
  · rw [if_pos hearly] at hfile'
    exact .inl hfile'
  · rw [if_neg hearly] at h hfile'
    cases hwrite : faults.write with
    | none =>
      rw [hwrite] at h
      cases h
    | some n =>
      simp only [hwrite,Device.run_append] at hfile'
      have hcut := content_cutEffects hlong
      generalize device.run d (s.cutEffects d) = d₁ at hfile' hcut
      cases hclean : faults.cleanup with
      | true =>
        rw [hclean] at hfile'
        refine .inr (.inr ⟨n,rfl,?_⟩)
        rw [hfile',← hcut]
        change (d₁.apply (.write s.id _)).content s.id = _
        rw [content_write,if_pos rfl]
      | false =>
        rw [hclean] at hfile'
        refine .inr (.inl ?_)
        have hlen : s.fileSize = (d₁.content s.id).length := by rw [hcut,length_take_of_le hlong]
        rw [hfile',← hcut]
        change ((d₁.apply (.write s.id _)).apply (.truncate s.id s.fileSize)).content s.id = _
        rw [content_truncate,if_pos rfl,content_write,if_pos rfl,hlen,truncateFile_left]

lemma append_succeeded {s' : Segment}
    (hlong : s.fileSize ≤ (d.content s.id).length) (h : (s.append data faults d).1=some s') :
    s' = s.grown data ∧ (device.run d (s.append data faults d).2).content s.id =
      (d.content s.id).take s.fileSize++frame data := by
  obtain ⟨rfl,heffects⟩ := append_some h
  have hcut := content_cutEffects hlong
  rw [heffects,Device.run_append,← hcut]
  generalize device.run d (s.cutEffects d) = d₁
  refine ⟨rfl,?_⟩
  change (d₁.apply (.write s.id _)).content s.id = _
  rw [content_write,if_pos rfl]

/-- A segment of a running buffer with its directory: what its file held when it was loaded or created,
and the records it took since. -/
inductive Reached : Segment → Disk → List UInt8 → List (List UInt8) → Prop
  | created (d : Disk) (id : ℕ) (now : Time) (maxSize : ℤ) :
      Reached ⟨id,now,now,maxSize,0,0⟩ (d.apply (.create id)) [] []
  | opened (d : Disk) (id keep : ℕ) (modTime : Time) (maxSize : ℤ) :
      Reached ⟨id,modTime,modTime,maxSize,(openSegment (d.content id) keep).recordCount,
          (openSegment (d.content id) keep).fileSize⟩
        (device.run d (if 0<(openSegment (d.content id) keep).cut (d.content id) then
          [.truncate id (openSegment (d.content id) keep).fileSize] else []))
        (reopened (d.content id) keep) []
  | appended {s s' : Segment} {d : Disk} {base : List UInt8} {rs : List (List UInt8)} (h : Reached s d base rs)
      {data : List UInt8} {faults : WriteFaults} (hs : (s.append data faults d).1=some s') :
      Reached s' (device.run d (s.append data faults d).2) base (rs++[data])
  | failed {s : Segment} {d : Disk} {base : List UInt8} {rs : List (List UInt8)} (h : Reached s d base rs)
      {data : List UInt8} {faults : WriteFaults} (hshort : FailsShort s data faults)
      (hs : (s.append data faults d).1=none) : Reached s (device.run d (s.append data faults d).2) base rs
  | touched {s : Segment} {d : Disk} {base : List UInt8} {rs : List (List UInt8)} (h : Reached s d base rs)
      (now : Time) : Reached { s with lastWrite := now } d base rs
  /-- Anything that leaves the segment's file alone. -/
  | other {s : Segment} {d d' : Disk} {base : List UInt8} {rs : List (List UInt8)} (h : Reached s d base rs)
      (hsame : d'.content s.id=d.content s.id) : Reached s d' base rs

/-- The file up to the segment's size is what it held and the records it took. -/
structure Holding (s : Segment) (file base : List UInt8) (rs : List (List UInt8)) : Prop where
  kept : Unread s.fileSize file
  records : file.take s.fileSize = base++(rs.map frame).flatten

lemma Holding.failed (h : Holding s (d.content s.id) base rs) (hshort : FailsShort s data faults)
    (hs : (s.append data faults d).1=none) :
    Holding s ((device.run d (s.append data faults d).2).content s.id) base rs := by
  have hlen : ((d.content s.id).take s.fileSize).length = s.fileSize := length_take_of_le h.kept.long
  obtain hfile | hfile | ⟨n,hn,hfile⟩ := append_failed h.kept.long hs
  · rw [hfile]
    exact h
  · rw [hfile]
    refine ⟨⟨hlen.ge,fun hzero => ?_⟩,?_⟩
    · rw [hzero,take_zero]
      exact Framing.stuck_nil
    · rw [take_take,Nat.min_self]
      exact h.records
  · rw [hfile]
    obtain ⟨hpart,hsize⟩ := hshort n hn
    refine ⟨⟨?_,fun hzero => ?_⟩,?_⟩
    · rw [length_append,hlen]
      exact Nat.le_add_right _ _
    · rw [hzero,take_zero,nil_append]
      exact (frame_complete (hsize.resolve_left (by omega))).stuck_take hpart
    · rw [take_left' hlen]
      exact h.records

lemma Reached.holding (h : Reached s d base rs) : Holding s (d.content s.id) base rs := by
  induction h with
  | created d id now maxSize =>
    rw [content_create,if_pos rfl]
    exact ⟨⟨le_rfl,fun _ => Framing.stuck_nil⟩,rfl⟩
  | opened d id keep modTime maxSize =>
    have hle : (openSegment (d.content id) keep).fileSize ≤ (d.content id).length := by
      obtain ⟨ts,tail,hfile,_,hopen⟩ := openSegment_split (d.content id) keep
      have hlen := congrArg List.length hfile
      simp only [length_append,length_take] at hlen
      rw [hopen]
      dsimp only
      omega
    rw [reopened,truncateFile_of_le hle]
    generalize openSegment (d.content id) keep = o at hle
    have hcontent : (device.run d (if 0<o.cut (d.content id) then [.truncate id o.fileSize] else [])).content id =
        (d.content id).take o.fileSize := by
      split_ifs with hcut
      · change (d.apply (.truncate id o.fileSize)).content id = _
        rw [content_truncate,if_pos rfl,truncateFile_of_le hle]
      · have heq : o.fileSize = (d.content id).length := by
          rw [Opened.cut] at hcut
          omega
        change d.content id = _
        rw [heq,take_length]
    dsimp only
    rw [hcontent]
    refine ⟨⟨(length_take_of_le hle).ge,fun hzero => ?_⟩,?_⟩
    · dsimp only at hzero
      rw [hzero,take_zero]
      exact Framing.stuck_nil
    · rw [take_take,Nat.min_self,map_nil,flatten_nil,append_nil]
  | appended _ hs ih =>
    obtain ⟨rfl,hcontent⟩ := append_succeeded ih.kept.long hs
    rw [grown_id,hcontent,ih.records]
    have hlen := congrArg List.length ih.records
    rw [length_take_of_le ih.kept.long] at hlen
    refine ⟨⟨?_,fun hzero => ?_⟩,?_⟩
    · simp only [Segment.grown,length_append,hlen]
      omega
    · simp [Segment.grown] at hzero
    · simp only [Segment.grown,hlen]
      rw [← length_append,take_length]
      simp
  | failed _ hshort hs ih => exact ih.failed hshort hs
  | touched _ now ih => exact ⟨ih.kept,ih.records⟩
  | other _ hsame ih =>
    rw [hsame]
    exact ih

/-- The segments have ids of their own, and each is reached. -/
structure AllReached (b : Buffer) (d : Disk) : Prop where
  ids : (b.segments.map Segment.id).Nodup
  reached : ∀ s∈b.segments, ∃ base rs, Reached s d base rs

lemma append_content_of_ne {j : ℕ} (hj : j≠s.id) (d : Disk) (data : List UInt8)
    (faults : WriteFaults) : (device.run d (s.append data faults d).2).content j = d.content j := by
  have hcut : (device.run d (s.cutEffects d)).content j = d.content j := by
    rw [Segment.cutEffects]
    split_ifs
    · exact (content_truncate _ _ _ _).trans (if_neg hj)
    · rfl
  rw [append_eq]
  split_ifs
  · rfl
  all_goals
    cases faults.write <;> dsimp only <;> rw [Device.run_append,← hcut] <;>
      generalize device.run d (s.cutEffects d) = d₁ <;> simp [Device.run,device,hj]

lemma AllReached.others {d' : Disk} (h : AllReached b d) (hs : s∈b.segments)
    (hsame : d'.content s.id=d.content s.id) : ∃ base rs, Reached s d' base rs := by
  obtain ⟨base,rs,hreached⟩ := h.reached s hs
  exact ⟨base,rs,hreached.other hsame⟩

lemma AllReached.last (h : AllReached b d) (hlast : b.segments.getLast?=some s) :
    ∃ ss, b.segments = ss++[s] ∧ (∀ t∈ss, t.id≠s.id) ∧ ∃ base rs, Reached s d base rs := by
  obtain ⟨ss,hss⟩ := getLast?_eq_some_iff.mp hlast
  have hids := h.ids
  rw [hss,map_append,nodup_append] at hids
  exact ⟨ss,hss,fun t ht => hids.2.2 t.id (mem_map_of_mem ht) s.id (by simp),h.reached s (by simp [hss])⟩

lemma carried_reached : Carried True AllReached where
  same h _ hsegs _ hfiles := by
    refine ⟨hsegs ▸ h.ids,fun s hs => h.others (hsegs ▸ hs) ?_⟩
    rw [Disk.content,hfiles,Disk.content]
  created {b d id} now h hfresh := by
    refine ⟨?_,fun s hs => ?_⟩
    · rw [Buffer.withSegment,map_append,nodup_append]
      exact ⟨h.ids,by simp,by simpa using hfresh trivial⟩
    · obtain hs | hs := mem_append.mp hs
      · exact h.others hs (by simp [hfresh trivial s hs])
      · obtain rfl := mem_singleton.mp hs
        exact ⟨[],[],.created d id now _⟩
  removed {b d s ss} reason h hss := by
    have hsegs : (b.removed d reason).segments = ss := by simp [Buffer.removed,hss]
    have hids := h.ids
    rw [hss,map_cons,nodup_cons] at hids
    refine ⟨hsegs ▸ hids.2,fun t ht => ?_⟩
    rw [hsegs] at ht
    have hne : t.id≠s.id := fun heq => hids.1 (heq ▸ mem_map_of_mem ht)
    exact h.others (by simp [hss,ht]) (by simp [hne])
  failed {b d s data faults} h hlast hshort hnone := by
    obtain ⟨ss,hss,hne,base,rs,hreached⟩ := h.last hlast
    refine ⟨h.ids,fun t ht => ?_⟩
    rw [hss] at ht
    obtain ht | ht := mem_append.mp ht
    · exact h.others (by simp [hss,ht]) (append_content_of_ne (hne t ht) d data faults)
    · obtain rfl := mem_singleton.mp ht
      exact ⟨base,rs,hreached.failed (hshort trivial) hnone⟩
  appended {b d s s' data faults} now h hlast hsome := by
    obtain ⟨ss,hss,hne,base,rs,hreached⟩ := h.last hlast
    have hid : s'.id=s.id := by rw [(append_some hsome).1,grown_id]
    have hsegs : (b.appended s' data.length now).segments = ss++[{ s' with lastWrite := now }] := by
      simp [Buffer.appended,hss]
    refine ⟨?_,fun t ht => ?_⟩
    · have hids := h.ids
      rw [hss] at hids
      rw [hsegs]
      simpa [hid] using hids
    · rw [hsegs] at ht
      obtain ht | ht := mem_append.mp ht
      · exact h.others (by simp [hss,ht]) (append_content_of_ne (hne t ht) d data faults)
      · obtain rfl := mem_singleton.mp ht
        exact ⟨base,rs++[data],(hreached.appended hsome).touched now⟩

lemma openSegments_reached (modTime : ℕ → Time) {ids : List ℕ} (h : AllReached b d)
    (hids : (b.segments.map Segment.id++ids).Nodup) :
    let r := Buffer.openSegments modTime ids b d
    AllReached r.1 (device.run d r.2) := by
  induction ids generalizing b d with
  | nil => exact h
  | cons id ids ih =>
    have hnew := nodup_append.mp hids
    have hfresh : ∀ s∈b.segments, s.id≠id := fun s hs =>
      hnew.2.2 s.id (mem_map_of_mem hs) id (by simp)
    rw [Buffer.openSegments,Prog.run_read_bind]
    generalize hkeep : b.keep id = keep
    dsimp only
    rw [Prog.run_bind,Device.run_append]
    refine ih ⟨?_,fun s hs => ?_⟩ ?_
    · simpa [nodup_append] using ⟨h.ids,hfresh⟩
    · obtain hs | hs := mem_append.mp hs
      · refine h.others hs ?_
        unfold Prog.performIf
        dsimp only
        split_ifs
        · exact (content_truncate _ _ _ _).trans (if_neg (hfresh s hs))
        · rfl
      · obtain rfl := mem_singleton.mp hs
        exact ⟨_,[],by simpa [Prog.performIf] using .opened d id keep (modTime id) (segmentSize b.opts.maxSize)⟩
    · simpa using hids

lemma load_reached (opts : Options) (modTime : ℕ → Time) (d : Disk) :
    AllReached (d.load opts modTime).1.recalculateStats (device.run d (d.load opts modTime).2) := by
  have hload : AllReached (d.load opts modTime).1 (device.run d (d.load opts modTime).2) :=
    openSegments_reached modTime ⟨nodup_nil,by simp [Buffer.initial]⟩ (by simp [Buffer.initial,Finset.sort_nodup])
  exact ⟨hload.ids,hload.reached⟩

/-- The segments of a run are reached, when its Appends find the next id free and their failing writes are
short. -/
theorem run_reached (opts : Options) {calls : List Call} {st : Store}
    (h : Run (fun st c st' => c.Orderly st ∧ st'=c.run opts st) (none,d) calls st) :
    ∀ b∈st.1, AllReached b st.2 :=
  h.invariant (P := fun st => ∀ b∈st.1, AllReached b st.2)
    (fun _ c _ hst ⟨hc,heq⟩ => heq ▸ fun b hb =>
        (carried_reached.run opts (load_reached _) hst c (fun _ => hc) b hb).1)
    (by simp)

/-- Over every run, the bytes in use are the sizes of the segments, and within MaxSize after an Open
and after an Append that returned nil. The segments of an orderly run are reached; a failed
Segment.Append on one that is leaves what can be read from it as it was, and the next successful one
writes its record right behind the ones before: for records whose length fits the header, and for
all records once the segment is not empty. -/
theorem buffer_accounting (opts : Options) (d : Disk) (calls : List Call) (c : Call) {s : Segment} {e : Disk}
    {base : List UInt8} {rs : List (List UInt8)} (hreached : Reached s e base rs)
    (data : List UInt8) (faults : WriteFaults)
    (hshort : FailsShort s data faults) :
    (let st := calls.foldl (Call.run opts) (none,d)
      ∀ b ∈ (c.run opts st).1, b.stats.bytesUsed=(b.segments.map fun s => (s.fileSize : ℤ)).sum ∧
        (c.retains st=true → b.stats.bytesUsed ≤ max opts.withDefaults.maxSize 0)) ∧
    (∀ st, Run (fun st c st' => c.Orderly st ∧ st'=c.run opts st) (none,d) calls st →
      ∀ b∈st.1, ∀ s∈b.segments, ∃ base rs, Reached s st.2 base rs) ∧
    (let file := e.content s.id
      let file' := (device.run e (s.append data faults e).2).content s.id
      ((s.append data faults e).1=none → ∀ fuel offset, offset ≤ s.fileSize →
        readable file' s.fileSize fuel offset=readable file s.fileSize fuel offset) ∧
      ∀ s' ∈ (s.append data faults e).1,
        file'=base++(rs.map frame).flatten++frame data ∧ s'.fileSize=file'.length) := by
  refine ⟨fun b hb => ?_,fun st hrun b hb => (run_reached opts hrun b hb).reached,?_⟩
  · obtain ⟨haccurate,hbounded⟩ := c.run_accurate opts (run_accurate opts d calls) b hb
    exact ⟨haccurate.bytes,fun hc => haccurate.bound (hbounded hc)⟩
  · intro file file'
    have hold := hreached.holding
    constructor
    · intro hs fuel offset hoffset
      have hold' := hold.failed hshort hs
      exact hold.kept.readable_eq hold'.kept (hold'.records.trans hold.records.symm) fuel hoffset
    · intro s' hs
      obtain ⟨rfl,hcontent⟩ := append_succeeded hold.kept.long hs
      have hlen : s.fileSize = (base++(rs.map frame).flatten).length := by
        rw [← hold.records,length_take_of_le hold.kept.long]
      have hfile : file' = base++(rs.map frame).flatten++frame data := by
        rw [← hold.records]
        exact hcontent
      refine ⟨hfile,?_⟩
      rw [hfile,length_append,← hlen]
      rfl

/-- Five bytes of a second record stay in the file, and the reader gets the first record as before. -/
theorem buffer_accounting_torn : ∃ (s : Segment) (d : Disk), Reached s d [] [[7]] ∧
    let faults : WriteFaults := { write := some 5, cleanup := true }
    let file' := (device.run d (s.append [8] faults d).2).content s.id
    (s.append [8] faults d).1 = none ∧ file'.length = s.fileSize+5 ∧
      readable file' s.fileSize 3 0 = readable (d.content s.id) s.fileSize 3 0 := by
  have hreached := (Reached.created ⟨.empty,none⟩ 0 .zero 8).appended
    (show (Segment.append ⟨0,.zero,.zero,8,0,0⟩ [7] {} _).1=some _ from rfl)
  have hshort : ∀ s, FailsShort s [8] { write := some 5, cleanup := true } := by
    rintro s n ⟨⟩
    exact ⟨by decide,.inr (by decide)⟩
  exact ⟨_,_,hreached,rfl,by decide +kernel,
    (buffer_accounting ⟨0,0⟩ ⟨.empty,none⟩ [] .rewind hreached [8] _ (hshort _)).2.2.1 rfl 3 0
        (Nat.zero_le _)⟩

lemma crc_zeros (n : ℕ) : (List.replicate n 0).foldl crcByte 0#32 = 0#32 := by
  induction n with
  | zero => rfl
  | succ n ih =>
    have hstep : crcByte 0#32 0 = 0#32 := by decide
    rw [replicate_succ,foldl_cons,hstep,ih]

/-- Four bytes FF and then zeros, 2^32 of them: the record's header reads as four bytes, and its CRC is the
one of the first four. -/
def wrappedRecord : List UInt8 := [255,255,255,255]++List.replicate (2^32) 0

lemma take_frame_wrappedRecord : (frame wrappedRecord).take 12 = frame [255,255,255,255] := by
  have hregister : [255,255,255,255].foldl crcByte (BitVec.allOnes 32) = 0#32 := by decide +kernel
  have hcrc : computeCRC32C wrappedRecord = computeCRC32C [255,255,255,255] := by
    rw [computeCRC32C,computeCRC32C,wrappedRecord,foldl_append,hregister,crc_zeros]
  have hlength : putLE 4 wrappedRecord.length = putLE 4 4 := by
    rw [wrappedRecord,length_append,length_replicate]
    decide
  rw [frame,hlength,hcrc,wrappedRecord,← append_assoc]
  exact take_left' (by simp)

/-- A record of 2^32+4 bytes fails after twelve bytes on an empty segment, and they cannot be cut off. The
reader, which found no record before, now gets one of four bytes. -/
theorem torn_oversized_record_is_read :
    let s : Segment := ⟨0,.zero,.zero,8,0,0⟩
    let d := (⟨.empty,none⟩ : Disk).apply (.create 0)
    let faults : WriteFaults := { write := some 12, cleanup := true }
    let file' := (device.run d (s.append wrappedRecord faults d).2).content s.id
    Reached s d [] [] ∧ (s.append wrappedRecord faults d).1 = none ∧ 12 < (frame wrappedRecord).length ∧
      readable (d.content s.id) s.fileSize 1 0 = [] ∧ readable file' s.fileSize 1 0 = [[255,255,255,255]] := by
  intro s d faults file'
  have hfile : file' = frame [255,255,255,255] := by
    rw [← take_frame_wrappedRecord]
    rfl
  refine ⟨.created _ 0 _ _,rfl,?_,rfl,?_⟩
  · rw [length_frame,wrappedRecord,length_append,length_replicate]
    decide
  · rw [hfile]
    decide +kernel

end Pglens.DiskBuffer
