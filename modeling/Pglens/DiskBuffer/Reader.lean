import Pglens.DiskBuffer.Process

/-! The cursor, the checkpoint and the acks of records handed out are positions that the segment
list shifts under. In the numbers of the log they do not move: Next hands out the frames behind the
cursor one by one, and what it handed out and saw no ack of is pending. -/
namespace Pglens.DiskBuffer
open Pglens.Lib List Option

def Buffer.readPos (b : Buffer) : Option (ℕ × ℕ) :=
  (b.segments[b.nextReadSeg]?).map fun s => (s.id,b.nextReadOff)

def Ghost.cursor (g : Ghost) (b : Buffer) : ℕ := (b.readPos.map g.number).getD g.first

/-- An ack that is still to come: its handle and the number of its record. -/
structure Handed (b : Buffer) (g : Ghost) (q : Handle × ℕ) : Prop where
  place : Place g (q.1.segID,q.1.nextOff)
  number : g.number (q.1.segID,q.1.nextOff) = max (q.2+1) g.first
  below : q.1.segID<b.nextSegID ∧ q.1.nextOff < 2^64
  acked : b.ackedSegID≤q.1.segID
  reached : ∀ c∈b.readPos, q.1.segID≤c.1
  behind : q.2 < g.cursor b
  ahead : g.number b.mark ≤ max q.2 g.first

/-- The cursor is where it should be, and every record between the checkpoint and the
cursor is pending. -/
structure Reads (k : ℕ) (pending : List (Handle × ℕ)) (b : Buffer) (g : Ghost) : Prop where
  index : b.nextReadSeg<b.segments.length ∨
    b.segments = [] ∧ b.nextReadSeg=0 ∧ b.nextReadOff=0
  place : ∀ c∈b.readPos, Place g c
  acked : ∀ c∈b.readPos, b.ackedSegID≤c.1
  handed : ∀ q∈pending, Handed b g q
  ids : (pending.map fun q => q.1.segID).Pairwise (· ≤ ·)
  numbers : (pending.map Prod.snd).Pairwise (· < ·)
  mark : g.number b.mark ≤ g.cursor b
  covered : ∀ n, g.number b.mark ≤ n → n < g.cursor b → n<k ∨ n ∈ pending.map Prod.snd

lemma Ghost.first_le_cursor (g : Ghost) (b : Buffer) : g.first ≤ g.cursor b := by
  unfold Ghost.cursor
  cases b.readPos with
  | none => exact Nat.le_refl _
  | some c => exact g.first_le_number c

lemma Ghost.cursor_le (g : Ghost) (b : Buffer) : g.cursor b ≤ g.history.length := by
  unfold Ghost.cursor
  cases b.readPos with
  | none => simp [length_history]
  | some c => exact g.number_le c

section Effects
variable {k : ℕ} {b : Buffer} {d : Disk} {g : Ghost} {pending : List (Handle × ℕ)} {c : ℕ × ℕ}
  {ss : List Segment} {s : Segment} {l : Layout} {ls : List Layout} {data : List UInt8}

lemma Agree.cursor_seg (h : Agree k b d g) (hc : c∈b.readPos) : ∃ l∈g.segs, l.id=c.1 := by
  obtain ⟨s,hs,rfl⟩ := map_eq_some_iff.mp hc
  obtain ⟨hi,hget⟩ := List.getElem?_eq_some_iff.mp hs
  obtain ⟨hlen,hfits⟩ := forall₂_iff_get.mp h.fits
  have hfit := hfits b.nextReadSeg hi (hlen ▸ hi)
  refine ⟨_,List.get_mem _ ⟨_,hlen ▸ hi⟩,?_⟩
  rw [← hfit.id]
  simp [hget]

lemma readPos_withSegment (hi : b.nextReadSeg<b.segments.length) (id : ℕ) (now : Time) :
    (b.withSegment id now).readPos = b.readPos := by
  unfold Buffer.readPos Buffer.withSegment
  simp only
  rw [getElem?_append_left hi]

lemma readPos_appended (hss : b.segments=ss++[s]) (data : List UInt8) (now : Time) :
    (b.appended (s.grown data) data.length now).readPos = b.readPos := by
  unfold Buffer.readPos Buffer.appended
  simp only [hss,dropLast_concat]
  rcases Nat.lt_trichotomy b.nextReadSeg ss.length with hi | hi | hi
  · rw [getElem?_append_left hi,getElem?_append_left hi]
  · rw [hi]
    simp
  · rw [getElem?_eq_none (by simp; omega),getElem?_eq_none (by simp; omega)]

lemma readPos_removed (hss : b.segments=s::ss)
    (reason : Option Reason) : (b.removed d reason).readPos =
      if 0<b.nextReadSeg then b.readPos else ss.head?.map fun s => (s.id,0) := by
  unfold Buffer.readPos Buffer.removed
  simp only [hss]
  cases hn : b.nextReadSeg with
  | zero => simp [head?_eq_getElem?]
  | succ n => simp

lemma cursor_removed (h : Agree k b d g) (hss : b.segments=s::ss) (reason : Option Reason) :
    (g.apply (.remove s.id reason)).cursor (b.removed d reason) =
      max (g.cursor b) (g.apply (.remove s.id reason)).first := by
  obtain ⟨l,ls,hsegs,hfit,hfits⟩ := h.oldest hss
  have hs := h.disk.stored.sorted
  rw [hfit.id,Ghost.cursor,Ghost.cursor,readPos_removed hss]
  split_ifs with hpos
  · cases hc : b.readPos with
    | none =>
      have := first_remove hsegs reason
      simp only [map_none,getD_none]
      omega
    | some c => exact number_remove hs hsegs reason c
  · have hread : b.readPos = some (l.id,b.nextReadOff) := by
      rw [Buffer.readPos,hss,show b.nextReadSeg=0 by omega,← hfit.id]
      rfl
    have hold := number_head hs hsegs b.nextReadOff
    have hle := startsBefore_le b.nextReadOff l.base l.frames
    have hfirst := first_remove hsegs reason
    have hnew : ((ss.head?.map fun s => (s.id,0)).map
        (g.apply (.remove l.id reason)).number).getD (g.apply (.remove l.id reason)).first =
        (g.apply (.remove l.id reason)).first := by
      cases hfits with
      | nil => rfl
      | cons hfit' _ =>
        have hs' := (h.disk.stored.remove hsegs reason).sorted
        have := number_head hs' (segs_remove hsegs reason) 0
        rw [startsBefore_zero] at this
        simpa [hfit'.id] using this
    rw [hnew,hread]
    simp only [map_some,getD_some] at hold ⊢
    omega

section Reading
variable (hr : Reads k pending b g)
include hr

lemma Reads.readPos_of_segments (hne : b.segments≠[]) :
    ∃ c, c∈b.readPos := by
  rcases hr.index with hi | ⟨hss,-,-⟩
  · exact ⟨_,by rw [Buffer.readPos,getElem?_eq_getElem hi]; rfl⟩
  · exact absurd hss hne

variable (h : Agree k b d g)
include h

lemma Reads.base_zero
    (hc : c∈b.readPos) (hl : l∈g.segs) (hlt : c.1<l.id) : l.base=0 := by
  by_contra hbase
  have h1 := h.based l hl hbase
  have h2 := hr.acked c hc
  omega

lemma readPos_removed_spec
    (hss : b.segments=s::ss) (reason : Option Reason) (hc : c ∈ (b.removed d reason).readPos) :
    Place (g.apply (.remove s.id reason)) c ∧ ∃ c'∈b.readPos, c'.1≤c.1 := by
  obtain ⟨l,ls,hsegs,hfit,hfits⟩ := h.oldest hss
  rw [readPos_removed hss] at hc
  rw [hfit.id]
  split_ifs at hc with hpos
  · exact ⟨(hr.place c hc).remove hsegs reason,c,hc,le_rfl⟩
  · have hread : (l.id,b.nextReadOff) ∈ b.readPos := by
      rw [Buffer.readPos,hss,show b.nextReadSeg=0 by omega,← hfit.id]
      rfl
    cases hfits with
    | nil => cases hc
    | @cons s' l' ss' ls' hfit' hrest =>
      obtain rfl : (s'.id,0) = c := by simpa using hc
      have hs := h.disk.stored.sorted
      have hlt : l.id<l'.id := by
        rw [Ghost.Sorted,hsegs,map_cons,pairwise_cons] at hs
        exact hs.1 l'.id (by simp)
      rw [hfit'.id]
      refine ⟨Place.start (h.disk.stored.remove hsegs reason).sorted ?_
        (hr.base_zero h hread (by simp [hsegs]) hlt),_,hread,hlt.le⟩
      rw [segs_remove hsegs]
      simp

lemma Reads.removed (hss : b.segments=s::ss)
    (reason : Option Reason) :
    Reads k pending (b.removed d reason) (g.apply (.remove s.id reason)) := by
  obtain ⟨l,ls,hsegs,hfit,hfits⟩ := h.oldest hss
  have hs := h.disk.stored.sorted
  have hcursor := cursor_removed h hss reason
  have hpos := fun {c} (hc : c ∈ (b.removed d reason).readPos) =>
    readPos_removed_spec hr h hss reason hc
  have hb : (b.removed d reason).nextSegID = b.nextSegID ∧ (b.removed d reason).mark = b.mark ∧
      (b.removed d reason).ackedSegID = b.ackedSegID ∧ (b.removed d reason).segments = ss ∧
      (b.removed d reason).nextReadSeg = b.nextReadSeg-1 ∧
      (b.removed d reason).nextReadOff = if 0<b.nextReadSeg then b.nextReadOff else 0 := by
    simp [Buffer.removed,hss,Buffer.mark]
  rw [hfit.id] at hcursor hpos ⊢
  obtain ⟨hb1,hb2,hb3,hb4,hb5,hb6⟩ := hb
  have hnum := number_remove hs hsegs reason
  have hfirst := first_remove hsegs reason
  refine ⟨?_,fun c hc => (hpos hc).1,fun c hc => ?_,fun q hq => ?_,hr.ids,hr.numbers,?_,
    fun n h1 h2 => ?_⟩
  · have := hr.index
    rw [hss] at this
    rw [hb4,hb5,hb6]
    cases ss with
    | nil => simp at this ⊢; omega
    | cons _ _ => simp at this ⊢; omega
  · obtain ⟨c',hc',hle⟩ := (hpos hc).2
    rw [hb3]
    exact (hr.acked c' hc').trans hle
  · have hq' := hr.handed q hq
    refine ⟨hq'.place.remove hsegs reason,?_,hb1 ▸ hq'.below,hb3 ▸ hq'.acked,fun c hc => ?_,?_,?_⟩
    · rw [hnum,hq'.number]
      omega
    · obtain ⟨c',hc',hle⟩ := (hpos hc).2
      exact (hq'.reached c' hc').trans hle
    · have := hq'.behind
      omega
    · have := hq'.ahead
      rw [hb2,hnum]
      omega
  · have := hr.mark
    rw [hb2,hnum,hcursor]
    omega
  · rw [hb2,hnum] at h1
    exact hr.covered n (by omega) (by omega)

lemma readPos_created (now : Time) :
    (b.created now).readPos = b.readPos ∨
    (b.created now).readPos =
      some (b.nextSegID,0) ∧ b.readPos=none ∧ g.segs=[] := by
  rcases hr.index with hi | ⟨hss,hi,hoff⟩
  · exact .inl (readPos_withSegment (b := { b with nextSegID := b.nextSegID+1 }) hi _ now)
  · refine .inr ⟨?_,?_,h.segs_nil hss⟩
    · simp [Buffer.readPos,Buffer.withSegment,hss,hi,hoff]
    · simp [Buffer.readPos,hss]

lemma Reads.cursor_created (now : Time) :
    (g.apply (.create b.nextSegID)).cursor
      (b.created now) = g.cursor b := by
  have hnum := number_create g b.nextSegID
  unfold Ghost.cursor
  rcases readPos_created hr h now with hsame | ⟨hnew,hnone,hsegs⟩
  · rw [hsame,funext hnum,first_create]
  · rw [hnew,hnone,map_some,getD_some,hnum,Ghost.number,hsegs]
    simp

lemma Reads.created (now : Time) :
    Reads k pending (b.created now)
      (g.apply (.create b.nextSegID)) := by
  have hcursor := hr.cursor_created h now
  have hpos := readPos_created hr h now
  set b' := b.created now with hb'
  have hbelow : b.ackedSegID≤b.nextSegID := by
    have := h.below
    unfold Below Buffer.mark at this
    omega
  have hnum := number_create g b.nextSegID
  have hreached : ∀ i, i≤b.nextSegID → (∀ c∈b.readPos, i≤c.1) → ∀ c∈b'.readPos, i≤c.1 := by
    intro i hi hold c hc
    rcases hpos with hsame | ⟨hnew,-,-⟩
    · exact hold c (hsame ▸ hc)
    · rw [hnew] at hc
      cases hc
      exact hi
  refine ⟨.inl ?_,fun c hc => ?_,hreached _ hbelow hr.acked,fun q hq => ?_,hr.ids,hr.numbers,?_,
    fun n h1 h2 => ?_⟩
  · have := hr.index
    simp only [hb',Buffer.withSegment,length_append,length_singleton]
    rcases this with hi | ⟨-,hi,-⟩ <;> omega
  · rcases hpos with hsame | ⟨hnew,-,-⟩
    · rw [hsame] at hc
      obtain ⟨l,hl,hid⟩ := h.cursor_seg hc
      exact (hr.place c hc).create (.inl (hid ▸ h.ids l hl))
    · rw [hnew] at hc
      cases hc
      exact Place.start (l := ⟨b.nextSegID,0,[]⟩) (h.disk.stored.sorted.create h.ids) (by simp) rfl
  · have hq' := hr.handed q hq
    refine ⟨hq'.place.create (.inl hq'.below.1),(hnum _).trans hq'.number,
      ⟨hq'.below.1.trans (Nat.lt_succ_self _),hq'.below.2⟩,hq'.acked,
      hreached _ hq'.below.1.le hq'.reached,hcursor ▸ hq'.behind,?_⟩
    exact (hnum _).trans_le hq'.ahead
  · rw [hcursor]
    exact (hnum _).trans_le hr.mark
  · rw [hcursor] at h2
    exact hr.covered n (hnum b.mark ▸ h1) h2

lemma Reads.cursor_appended
    (hss : b.segments=ss++[s]) (hsegs : g.segs=ls++[l]) (hlt : data.length < maxRecord)
    (now : Time) :
    (g.apply (.write l.id (frame data))).cursor (b.appended (s.grown data) data.length now) =
      g.cursor b := by
  have hs := h.disk.stored.sorted
  have hf := frame_complete (hlt.trans maxRecord_lt)
  have hpos := readPos_appended hss data now
  cases hc : b.readPos with
  | none =>
    simp only [Ghost.cursor,hpos,hc,map_none,getD_none,first_write hs hsegs hf]
  | some c =>
    simp only [Ghost.cursor,hpos,hc,map_some,getD_some,(hr.place c hc).number_write hs hsegs hf]

lemma Reads.appended (hss : b.segments=ss++[s])
    (hsegs : g.segs=ls++[l]) (hlt : data.length < maxRecord) (now : Time) :
    Reads k pending (b.appended (s.grown data) data.length now)
      (g.apply (.write l.id (frame data))) := by
  have hs := h.disk.stored.sorted
  have hf := frame_complete (hlt.trans maxRecord_lt)
  have hpos := readPos_appended hss data now
  have hfirst := first_write hs hsegs hf
  have hnum : ∀ {c}, Place g c → (g.apply (.write l.id (frame data))).number c = g.number c :=
    fun hc => hc.number_write hs hsegs hf
  have hmark := hnum h.mark.toPlace
  have hcursor := hr.cursor_appended h hss hsegs hlt now
  refine ⟨?_,fun c hc => ?_,fun c hc => hr.acked c (hpos ▸ hc),fun q hq => ?_,hr.ids,hr.numbers,?_,
    fun n h1 h2 => ?_⟩
  · have := hr.index
    simp only [Buffer.appended,hss,dropLast_concat,length_append,length_singleton] at this ⊢
    simpa using this
  · rw [hpos] at hc
    exact (hr.place c hc).write hs hsegs hf
  · have hq' := hr.handed q hq
    refine ⟨hq'.place.write hs hsegs hf,?_,hq'.below,hq'.acked,fun c hc => ?_,?_,?_⟩
    · rw [hnum hq'.place,hfirst]
      exact hq'.number
    · exact hq'.reached c (hpos ▸ hc)
    · rw [hcursor]
      exact hq'.behind
    · rw [hfirst]
      exact hmark.trans_le hq'.ahead
  · rw [hcursor]
    exact hmark.trans_le hr.mark
  · rw [hcursor] at h2
    exact hr.covered n (hmark ▸ h1) h2

end Reading

lemma Reads.rides (k : ℕ) (pending : List (Handle × ℕ)) : Rides k (Reads k pending) where
  used h hr := by
    refine ⟨hr.index,hr.place,hr.acked,fun q hq => ?_,hr.ids,hr.numbers,hr.mark,hr.covered⟩
    have hq' := hr.handed q hq
    exact ⟨hq'.place,hq'.number,⟨hq'.below.1.trans (Nat.lt_succ_self _),hq'.below.2⟩,hq'.acked,
      hq'.reached,hq'.behind,hq'.ahead⟩
  created now h hr := hr.created h now
  removed reason h hr hss _ := hr.removed h hss reason

end Effects

end Pglens.DiskBuffer
