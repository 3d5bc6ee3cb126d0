import Pglens.DiskBuffer.Marks

/-! The buffer in memory agrees with the directory and its log. Every operation that writes keeps
the agreement, and anything that rides along with its steps, wherever a crash cuts it. -/
namespace Pglens.DiskBuffer
open Pglens.Lib List Prog Nat

def Buffer.mark (b : Buffer) : ℕ × ℕ := (b.ackedSegID,b.ackedOff)

/-- A segment in memory describes its file. -/
structure Fits (s : Segment) (l : Layout) : Prop where
  id : s.id=l.id
  size : s.fileSize=l.size
  maxSize : s.maxSize≤defaultSegmentSize

/-- The buffer in memory and the directory agree. -/
structure Agree (k : ℕ) (b : Buffer) (d : Disk) (g : Ghost) : Prop where
  disk : OnDisk k d g
  fits : List.Forall₂ Fits b.segments g.segs
  ids : ∀ l∈g.segs, l.id<b.nextSegID
  counter : b.nextSegID < 2^32
  below : Below b.nextSegID b.mark
  mark : Mark k g b.mark
  saved : ∀ c∈d.checkpoint, Below b.nextSegID c
  based : ∀ l∈g.segs, l.base≠0 → l.id≤b.ackedSegID

lemma Agree.segs_nil {k : ℕ} {b : Buffer} {d : Disk} {g : Ghost} (h : Agree k b d g)
    (hnil : b.segments=[]) : g.segs=[] := by
  have hfits := h.fits
  rw [hnil] at hfits
  exact forall₂_nil_left_iff.mp hfits

lemma forall₂_split {α β : Type} {R : α → β → Prop} {as bs : List α} {cs : List β}
    (h : List.Forall₂ R (as++bs) cs) :
    ∃ as' bs', cs = as'++bs' ∧ List.Forall₂ R as as' ∧ List.Forall₂ R bs bs' := by
  refine ⟨cs.take as.length,cs.drop as.length,(take_append_drop _ _).symm,?_,?_⟩
  · simpa using forall₂_take as.length h
  · simpa using forall₂_drop as.length h

lemma forall₂_exists_left {α β : Type} {R : α → β → Prop} {as : List α} {bs : List β}
    (h : List.Forall₂ R as bs) {b : β} (hb : b∈bs) : ∃ a∈as, R a b := by
  induction h with
  | nil => cases hb
  | cons hab _ ih =>
    rcases mem_cons.mp hb with rfl | hb
    · exact ⟨_,by simp,hab⟩
    · obtain ⟨a,ha,hr⟩ := ih hb
      exact ⟨a,by simp [ha],hr⟩

lemma forall₂_exists_right {α β : Type} {R : α → β → Prop} {as : List α} {bs : List β}
    (h : List.Forall₂ R as bs) {a : α} (ha : a∈as) : ∃ b∈bs, R a b := by
  obtain ⟨b,hb,hr⟩ := forall₂_exists_left h.flip ha
  exact ⟨b,hb,hr⟩

lemma segmentSize_le (maxSize : ℤ) : segmentSize maxSize ≤ defaultSegmentSize := by
  unfold segmentSize
  split_ifs with h
  · exact h.2.le
  · exact le_rfl

namespace Agree
variable {k : ℕ} {b : Buffer} {d : Disk} {g : Ghost}

lemma used (h : Agree k b d g) (hlt : b.nextSegID+1<2^32) :
    Agree k { b with nextSegID := b.nextSegID+1 } d g :=
  { h with
    ids := fun l hl => (h.ids l hl).trans (lt_succ_self _)
    counter := hlt
    below := h.below.mono (le_succ _)
    saved := fun c hc => (h.saved c hc).mono (le_succ _) }

lemma created (h : Agree k b d g) (hlt : b.nextSegID+1<2^32) (now : Time) :
    Agree k (b.created now)
      (d.apply (.create b.nextSegID)) (g.apply (.create b.nextSegID)) where
  disk := h.disk.create h.ids hlt h.saved
  fits := rel_append h.fits (.cons ⟨rfl,rfl,segmentSize_le _⟩ .nil)
  ids l hl := by
    change l.id < b.nextSegID+1
    rcases mem_append.mp hl with hl | hl
    · exact (h.ids l hl).trans (lt_succ_self _)
    · obtain rfl := mem_singleton.mp hl
      exact lt_succ_self _
  counter := hlt
  below := h.below.mono (le_succ _)
  mark := h.mark.create h.below
  saved c hc := (h.saved c hc).mono (le_succ _)
  based l hl hbase := by
    rcases mem_append.mp hl with hl | hl
    · exact h.based l hl hbase
    · obtain rfl := mem_singleton.mp hl
      exact absurd rfl hbase

lemma tails (h : Agree k b d g) {d' : Disk} (hd : OnDisk k d' g) (hacked : d'.acked=d.acked) :
    Agree k b d' g :=
  { h with
    disk := hd
    saved := fun c hc => h.saved c (by rwa [Disk.checkpoint,hacked] at hc) }

lemma saveAcked (h : Agree k b d g) :
    Agree k b (d.apply (.saveAcked (ackedBytes b.ackedSegID b.ackedOff))) g := by
  refine { h with disk := h.disk.saveAcked h.below h.counter h.mark, saved := fun c hc => ?_ }
  have hb := h.below
  have hlt := h.counter
  unfold Below Buffer.mark at hb
  rw [checkpoint_saveAcked d (by omega) (by omega)] at hc
  cases hc
  exact h.below

variable {ss : List Segment} {s : Segment}

lemma last (h : Agree k b d g) (hss : b.segments=ss++[s]) :
    ∃ ls l, g.segs = ls++[l] ∧ List.Forall₂ Fits ss ls ∧ Fits s l := by
  have hfits := h.fits
  rw [hss] at hfits
  obtain ⟨ls,rest,hsegs,hls,hrest⟩ := forall₂_split hfits
  cases hrest with
  | cons hl hnil =>
    cases hnil
    exact ⟨ls,_,hsegs,hls,hl⟩

lemma oldest (h : Agree k b d g) (hss : b.segments=s::ss) :
    ∃ l ls, g.segs = l::ls ∧ Fits s l ∧ List.Forall₂ Fits ss ls := by
  have hfits := h.fits
  rw [hss] at hfits
  generalize hsegs : g.segs = segs at hfits
  cases hfits with
  | cons hl hls => exact ⟨_,_,rfl,hl,hls⟩

lemma history_removed (h : Agree k b d g) (hss : b.segments=s::ss) (reason : Option Reason) :
    (g.apply (.remove s.id reason)).history = g.history := by
  obtain ⟨l,ls,hsegs,hfit,-⟩ := h.oldest hss
  rw [hfit.id,history_remove hsegs reason]

lemma acked_removed (h : Agree k b d g) (hss : b.segments=s::ss) (reason : Option Reason) :
    (g.apply (.remove s.id reason)).acked = g.acked := by
  obtain ⟨l,ls,hsegs,hfit,-⟩ := h.oldest hss
  rw [hfit.id,apply_remove hsegs]

lemma appended (h : Agree k b d g) (hss : b.segments=ss++[s]) {ls : List Layout} {l : Layout}
    (hsegs : g.segs=ls++[l]) (hend : Held (· = []) d l) {data : List UInt8} (hpos : 0<data.length)
    (hlt : data.length < maxRecord) (hsize : l.size+(8+data.length)<2^64) (now : Time) :
    Agree k (b.appended (s.grown data) data.length now) (d.apply (.write l.id (frame data)))
      (g.apply (.write l.id (frame data))) := by
  have hf := frame_complete (hlt.trans maxRecord_lt)
  obtain ⟨ls',l',hsegs',hfits,hfit⟩ := h.last hss
  obtain ⟨rfl,hl⟩ := append_inj' (hsegs.symm.trans hsegs') rfl
  cases hl
  have hmem : ∀ l' ∈ (g.apply (.write l.id (frame data))).segs, ∃ l''∈g.segs,
      l''.id = l'.id ∧ l''.base=l'.base := by
    rw [apply_write h.disk.stored.sorted hsegs hf,hsegs]
    intro l' hl'
    rcases mem_append.mp hl' with hl' | hl'
    · exact ⟨l',by simp [hl'],rfl,rfl⟩
    · obtain rfl := mem_singleton.mp hl'
      exact ⟨l,by simp,rfl,rfl⟩
  refine ⟨h.disk.write hsegs hend ⟨data,hpos,hlt,rfl⟩ (by rwa [length_frame]),?_,fun l' hl' => ?_,
    h.counter,h.below,h.mark.write h.disk.stored.sorted hsegs hf,h.saved,fun l' hl' hbase => ?_⟩
  · rw [apply_write h.disk.stored.sorted hsegs hf,Buffer.appended,hss,dropLast_concat]
    refine rel_append hfits (.cons ⟨hfit.id,?_,hfit.maxSize⟩ .nil)
    simp [Segment.grown,Layout.size,hfit.size,add_assoc]
  · obtain ⟨l'',hl'',hid,-⟩ := hmem l' hl'
    exact hid ▸ h.ids l'' hl''
  · obtain ⟨l'',hl'',hid,hbase'⟩ := hmem l' hl'
    exact hid ▸ h.based l'' hl'' (hbase' ▸ hbase)

lemma removed (h : Agree k b d g) (hss : b.segments=s::ss) (reason : Option Reason) :
    Agree k (b.removed d reason) (d.apply (.remove s.id reason))
      (g.apply (.remove s.id reason)) := by
  obtain ⟨l,ls,hsegs,hfit,hfits⟩ := h.oldest hss
  have hmem : ∀ l' ∈ (g.apply (.remove l.id reason)).segs, l'∈g.segs := by
    rw [apply_remove hsegs,hsegs]
    exact fun l' hl' => mem_cons_of_mem l hl'
  have hb : (b.removed d reason).segments = ss ∧ (b.removed d reason).nextSegID = b.nextSegID ∧
      (b.removed d reason).mark = b.mark ∧ (b.removed d reason).ackedSegID = b.ackedSegID := by
    simp [Buffer.removed,hss,Buffer.mark]
  rw [hfit.id]
  obtain ⟨hb1,hb2,hb3,hb4⟩ := hb
  refine ⟨h.disk.remove hsegs reason,?_,fun l' hl' => ?_,?_,?_,?_,fun c hc => ?_,
    fun l' hl' hbase => ?_⟩
  · rw [hb1,apply_remove hsegs]
    exact hfits
  · exact hb2 ▸ h.ids l' (hmem l' hl')
  · exact hb2 ▸ h.counter
  · rw [hb2,hb3]
    exact h.below
  · rw [hb3]
    exact h.mark.remove h.disk.stored.sorted hsegs reason
  · exact hb2 ▸ h.saved c hc
  · exact hb4 ▸ h.based l' (hmem l' hl') hbase

end Agree

/-- A condition on the buffer and the log that keeps when segments come and go. A segment
removed for no policy has no unacknowledged record and is not the last. -/
structure Rides (k : ℕ) (X : Buffer → Ghost → Prop) : Prop where
  used : ∀ {b d g}, Agree k b d g → X b g → X { b with nextSegID := b.nextSegID+1 } g
  created : ∀ {b d g} (now : Time), Agree k b d g → X b g →
    X (b.created now)
      (g.apply (.create b.nextSegID))
  removed : ∀ {b d g s ss} (reason : Option Reason), Agree k b d g → X b g → b.segments = s::ss →
    (reason=none → ss≠[] ∧ b.unackedRecords d s=0) →
    X (b.removed d reason) (g.apply (.remove s.id reason))

def Holds (k : ℕ) (X : Buffer → Ghost → Prop) (b : Buffer) (d : Disk) (g : Ghost) : Prop :=
  Agree k b d g ∧ X b g

lemma removeWhile_succ (policy : Buffer → Disk → Bool) (reason : Option Reason) (n : ℕ)
    (b : Buffer) (d : Disk) : Buffer.removeWhile policy reason (n+1) b d =
      if policy b d then
        match b.segments with
        | [] => Buffer.removeWhile policy reason n b d
        | s::_ =>
          let r := Buffer.removeWhile policy reason n (b.removed d reason)
            (d.apply (.remove s.id reason))
          (r.1,.remove s.id reason::r.2)
      else (b,[]) := by
  rw [Buffer.removeWhile,run_read_bind]
  by_cases hp : policy b d = true
  · rw [if_pos hp,if_pos hp,run_bind,Buffer.removeOldestSegment]
    cases b.segments <;> rfl
  · rw [if_neg hp,if_neg hp]
    rfl

section Triples
variable {k : ℕ} {X Y : Buffer → Ghost → Prop} {C : Disk → Ghost → Prop} {b : Buffer} {s : Segment}
  {d : Disk} {ss : List Segment} {g : Ghost} {data : List UInt8}

def Room (s : Segment) (size : ℕ) : Prop :=
  (s.fileSize : ℤ)+(size+8) ≤ defaultSegmentSize ∨ s.fileSize=0

lemma room_of_wouldRoll {size : ℕ} (h : s.wouldRoll size=false)
    (hmax : s.maxSize≤defaultSegmentSize) : Room s size := by
  left
  simp only [Segment.wouldRoll,decide_eq_false_iff_not,not_lt] at h
  split_ifs at h <;> omega

section Riding
variable (hX : Rides k X) (hC : ∀ b d g, Holds k X b d g → C d g)
include hX hC

lemma addSegment_triple (hlt : b.nextSegID+1<2^32) (fails : Bool) (now : Time) :
    Triple Ghost.apply (Holds k X b) (b.addSegment fails now) C (fun r d g =>
      Holds k X r.2 d g ∧ r.2.nextSegID=b.nextSegID+1 ∧
        (r.1=true → ∃ ss s, r.2.segments=ss++[s] ∧ s.fileSize=0)) := by
  unfold Buffer.addSegment
  rw [mod_eq_of_lt hlt]
  cases fails with
  | true =>
    refine Triple.pure fun d g h => ⟨hC b d g h,⟨h.1.used hlt,hX.used h.1 h.2⟩,rfl,?_⟩
    simp
  | false =>
    have hnew : ∀ d g, Holds k X b d g →
        Holds k X (b.created now)
          (d.apply (.create b.nextSegID)) (g.apply (.create b.nextSegID)) :=
      fun d g h => ⟨h.1.created hlt now,hX.created now h.1 h.2⟩
    refine Triple.bind (Q := fun _ => Holds k X
      (b.created now))
      (Triple.perform fun d g h => ?_)
      fun _ => Triple.pure fun d g h => ⟨hC _ d g h,h,rfl,fun _ => ⟨_,_,rfl,rfl⟩⟩
    refine ⟨hC b d g h,fun e' ht => ?_,hC _ _ _ (hnew d g h),hnew d g h⟩
    obtain ⟨id,bytes,n,he,-⟩ := ht
    cases he

lemma removeWhile_triple {policy : Buffer → Disk → Bool} {reason : Option Reason}
    (hpolicy : ∀ b d, policy b d=true → ∃ s ss, b.segments=s::ss ∧
      (reason=none → ss≠[] ∧ b.unackedRecords d s=0)) (n : ℕ) (b : Buffer) :
    Triple Ghost.apply (Holds k X b) (Buffer.removeWhile policy reason n b) C (Holds k X) := by
  induction n generalizing b with
  | zero => exact Triple.pure fun d g h => ⟨hC b d g h,h⟩
  | succ n ih =>
    refine Triple.read_bind fun d => ?_
    by_cases hp : policy b d = true
    · obtain ⟨s,ss,hss,hnone⟩ := hpolicy b d hp
      rw [if_pos hp]
      refine Triple.bind (Q := Holds k X) ?_ fun b' => ih b'
      unfold Buffer.removeOldestSegment
      rw [hss]
      refine Triple.read_bind fun d' => ?_
      have hstep : ∀ g, Holds k X b d g → Holds k X (b.removed d reason)
          (d.apply (.remove s.id reason)) (g.apply (.remove s.id reason)) :=
        fun g h => ⟨h.1.removed hss reason,hX.removed reason h.1 h.2 hss hnone⟩
      refine Triple.bind (Q := fun _ => fun d'' g => d'=d ∧
        Holds k X (b.removed d reason) d'' g) (Triple.perform fun d'' g h => ?_)
        fun _ => Triple.pure fun d'' g h => ⟨hC _ _ _ h.2,h.1 ▸ h.2⟩
      obtain ⟨rfl,rfl,h⟩ := h
      refine ⟨hC _ _ _ h,fun e' ht => ?_,hC _ _ _ (hstep g h),rfl,hstep g h⟩
      obtain ⟨id,bytes,n,he,-⟩ := ht
      cases he
    · rw [if_neg hp]
      refine Triple.pure fun d' g h => ?_
      obtain ⟨rfl,h⟩ := h
      exact ⟨hC _ _ _ h,h⟩

lemma enforceMaxSize_triple (b : Buffer) :
    Triple Ghost.apply (Holds k X b) b.enforceMaxSize C (Holds k X) := by
  refine removeWhile_triple hX hC (fun b d hp => ?_) _ b
  cases hss : b.segments with
  | nil => simp [hss] at hp
  | cons s ss => exact ⟨s,ss,rfl,by simp⟩

lemma enforceMaxAge_triple (b : Buffer) (now : Time) :
    Triple Ghost.apply (Holds k X b) (b.enforceMaxAge now) C (Holds k X) := by
  refine removeWhile_triple hX hC (fun b d hp => ?_) _ b
  cases hss : b.segments with
  | nil => simp [hss] at hp
  | cons s ss => exact ⟨s,ss,rfl,by simp⟩

lemma dropAckedSegments_triple (b : Buffer) :
    Triple Ghost.apply (Holds k X b) b.dropAckedSegments C (Holds k X) := by
  refine removeWhile_triple hX hC (fun b d hp => ?_) _ b
  match hss : b.segments with
  | [] => simp [hss] at hp
  | [_] => simp [hss] at hp
  | s::s'::ss =>
    simp only [hss,beq_iff_eq] at hp
    exact ⟨s,s'::ss,rfl,fun _ => ⟨by simp,hp⟩⟩

omit hX in
lemma saveAckedPosition_triple (b : Buffer) (fails : Bool) :
    Triple Ghost.apply (Holds k X b) (b.saveAckedPosition fails) C (fun _ => Holds k X b) := by
  refine Triple.performIf (fun _ => Triple.perform fun d g h => ?_) fun _ d g h => ⟨hC b d g h,h⟩
  have hsaved : Holds k X b (d.apply (.saveAcked (ackedBytes b.ackedSegID b.ackedOff))) g :=
    ⟨h.1.saveAcked,h.2⟩
  refine ⟨hC b d g h,fun e' ht => ?_,hC b _ _ hsaved,hsaved⟩
  obtain ⟨id,bytes,n,he,-⟩ := ht
  cases he

lemma activeSegment_triple (hlt : b.nextSegID+2<2^32) (size : ℕ) (faults : Buffer.AppendFaults)
    (clock : Buffer.Readings) :
    Triple Ghost.apply (Holds k X b) (b.activeSegment size faults clock) C (fun r d g =>
      Holds k X r.2 d g ∧
        (r.1=true → ∃ ss s, r.2.segments=ss++[s] ∧ Room s size)) := by
  unfold Buffer.activeSegment
  refine Triple.bind
    (Q := fun (r : Bool × Buffer) d g => Holds k X r.2 d g ∧ r.2.nextSegID+1<2^32) ?_ ?_
  · unfold Buffer.firstSegment
    split_ifs with hempty
    · refine (addSegment_triple hX hC (by omega) _ _).post fun r d g h => ⟨h.1,?_⟩
      rw [h.2.1]
      omega
    · exact Triple.pure fun d g h => ⟨hC b d g h,h,by simp only; omega⟩
  · rintro ⟨ok,b'⟩
    cases ok with
    | false => exact Triple.pure fun d g h => ⟨hC b' d g h.1,h.1,by simp⟩
    | true =>
      simp only [Bool.not_true,Bool.false_eq_true,if_false]
      cases hlast : b'.segments.getLast? with
      | none => exact Triple.pure fun d g h => ⟨hC b' d g h.1,h.1,by simp⟩
      | some s =>
        obtain ⟨ss,hss⟩ := getLast?_eq_some_iff.mp hlast
        simp only
        split_ifs with hroll hsync
        · exact Triple.pure fun d g h => ⟨hC b' d g h.1,h.1,by simp⟩
        · refine Triple.assume fun hlt =>
            (addSegment_triple hX hC hlt _ _).post fun r d g h => ⟨h.1,fun hr => ?_⟩
          obtain ⟨ss,s,hss,hsize⟩ := h.2.2 hr
          exact ⟨ss,s,hss,.inr hsize⟩
        · refine Triple.pure fun d g h => ⟨hC b' d g h.1,h.1,fun _ => ⟨ss,s,hss,?_⟩⟩
          obtain ⟨ls,l,-,-,hfit⟩ := h.1.1.last hss
          simp only [Bool.or_eq_true,not_or,Bool.not_eq_true] at hroll
          exact room_of_wouldRoll hroll.1 hfit.maxSize

end Riding

def Extends (k : ℕ) (data : List UInt8) (X Y : Buffer → Ghost → Prop) : Prop :=
  ∀ {b d g ss s ls l} (now : Time), Agree k b d g → X b g → b.segments = ss++[s] →
    g.segs = ls++[l] →
    Y (b.appended (s.grown data) data.length now) (g.apply (.write l.id (frame data)))

def Trimmed (s : Segment) (d : Disk) (g : Ghost) : Prop :=
  ∀ l∈g.segs, l.id=s.id → Held (· = []) d l

lemma Held.nil {T : List UInt8 → Prop} {l : Layout} (h : Held T d l)
    (hlen : (d.content l.id).length=l.size) : Held (· = []) d l := by
  obtain ⟨pre,tail,hpre,hfile,-⟩ := h
  refine ⟨pre,tail,hpre,hfile,?_⟩
  rw [hfile,Layout.size] at hlen
  simp only [length_append] at hlen
  exact eq_nil_of_length_eq_zero (by omega)

lemma trim_triple (hC : ∀ b d g, Holds k X b d g → C d g) (hss : b.segments=ss++[s]) (d : Disk) :
    Triple Ghost.apply (fun d' g => d'=d ∧ Holds k X b d' g)
      (Prog.performIf ((d.content s.id).length != s.fileSize) (.truncate s.id s.fileSize) :
        Prog device Unit) C
      (fun _ d g => Holds k X b d g ∧ Trimmed s d g) := by
  have hone : ∀ {d g}, Holds k X b d g → ∃ l∈g.segs, l.id=s.id ∧ s.fileSize=l.size ∧
      ∀ l'∈g.segs, l'.id=s.id → l'=l := by
    intro d g h
    obtain ⟨ls,l,hsegs,-,hfit⟩ := h.1.last hss
    have hl : l∈g.segs := by simp [hsegs]
    exact ⟨l,hl,hfit.id.symm,hfit.size,fun l' hl' hid =>
      h.1.disk.stored.sorted.inj hl' hl (hid.trans hfit.id)⟩
  refine Triple.performIf (fun _ => Triple.perform fun d' g hP => ?_) fun hclean d' g hP => ?_
  · obtain ⟨rfl,h⟩ := hP
    obtain ⟨l,hl,hid,hsize,huniq⟩ := hone h
    rw [← hid,hsize]
    have hcut : Holds k X b (d'.apply (.truncate l.id l.size)) g :=
      ⟨h.1.tails (h.1.disk.truncate hl) rfl,h.2⟩
    refine ⟨hC b _ _ h,fun e' ht => ?_,hC b _ _ hcut,hcut,fun l' hl' hid' => ?_⟩
    · obtain ⟨id,bytes,n,he,-⟩ := ht
      cases he
    · obtain rfl := huniq l' hl' hid'
      exact held_truncate (h.1.disk.stored.held l' hl')
  · obtain ⟨rfl,h⟩ := hP
    refine ⟨hC b _ _ h,h,fun l' hl' hid' => ?_⟩
    obtain ⟨l,hl,hid,hsize,huniq⟩ := hone h
    obtain rfl := huniq l' hl' hid'
    simp only [bne_eq_false_iff_eq] at hclean
    exact (h.1.disk.stored.held l' hl').nil (by rw [hid',hclean,hsize])

lemma Holds.torn (h : Holds k X b d g) (hss : b.segments=ss++[s]) (htrim : Trimmed s d g)
    {r : List UInt8} (hr : records.Stuck r) :
    Holds k X b (d.apply (.write s.id r)) (g.apply (.write s.id r)) := by
  obtain ⟨ls,l,hsegs,-,hfit⟩ := h.1.last hss
  have hl : l∈g.segs := by simp [hsegs]
  rw [apply_write_stuck g s.id hr,hfit.id]
  exact ⟨h.1.tails (h.1.disk.write_stuck hl (htrim l hl hfit.id.symm) hr) rfl,h.2⟩

lemma Holds.written (h : Holds k X b d g) (hA : Extends k data X Y)
    (hss : b.segments=ss++[s]) (htrim : Trimmed s d g) (hpos : 0<data.length)
    (hlt : data.length < maxRecord) (hroom : Room s data.length) (now : Time) :
    Holds k Y (b.appended (s.grown data) data.length now)
      (d.apply (.write s.id (frame data))) (g.apply (.write s.id (frame data))) := by
  obtain ⟨ls,l,hsegs,-,hfit⟩ := h.1.last hss
  have hl : l∈g.segs := by simp [hsegs]
  have hsize : l.size+(8+data.length) < 2^64 := by
    unfold Room defaultSegmentSize at hroom
    unfold maxRecord at hlt
    have := hfit.size
    omega
  rw [hfit.id]
  exact ⟨h.1.appended hss hsegs (htrim l hl hfit.id.symm) hpos hlt hsize now,
    hA now h.1 h.2 hss hsegs⟩

lemma segment_append_triple (hCX : ∀ b d g, Holds k X b d g → C d g)
    (hCY : ∀ b d g, Holds k Y b d g → C d g) (hA : Extends k data X Y)
    (hpos : 0<data.length) (hlt : data.length < maxRecord) (hss : b.segments=ss++[s]) (hroom : Room s data.length)
    {faults : WriteFaults} (hfault : ∀ n∈faults.write, n<8+data.length) :
    Triple Ghost.apply (Holds k X b) (s.append data faults) C (fun r d g =>
      match r with
      | none => Holds k X b d g
      | some s' => ∀ now, Holds k Y (b.appended s' data.length now) d g) := by
  have hf := frame_complete (hlt.trans maxRecord_lt)
  have hlen : (frame data).length = 8+data.length := length_frame data
  unfold Segment.append
  split_ifs with hstat
  · exact Triple.pure fun d g h => ⟨hCX b d g h,h⟩
  refine Triple.read_bind fun d => ?_
  simp only
  split_ifs with hstale
  · exact Triple.pure fun d' g h => ⟨hCX b d' g h.2,h.2⟩
  refine Triple.bind (trim_triple hCX hss d) fun _ => ?_
  cases hw : faults.write with
  | some n =>
    have hn := hfault n hw
    have hstuck : ∀ m, records.Stuck (((frame data).take n).take m) := by
      intro m
      rw [take_take]
      exact hf.stuck_take (by omega)
    refine Triple.bind (Q := fun _ => Holds k X b) (Triple.perform fun d g h => ?_) fun _ => ?_
    · have hall := h.1.torn hss h.2 (hf.stuck_take (n := n) (by omega))
      refine ⟨hCX b d g h.1,fun e' ht => ?_,hCX b _ _ hall,hall⟩
      obtain ⟨id,bytes,m,he,rfl⟩ := ht
      cases he
      exact hCX b _ _ (h.1.torn hss h.2 (hstuck m))
    · refine Triple.bind (Q := fun _ => Holds k X b)
        (Triple.performIf (fun _ => Triple.perform fun d g h => ?_) fun _ d g h => ⟨hCX b d g h,h⟩)
        fun _ => Triple.pure fun d g h => ⟨hCX b d g h,h⟩
      obtain ⟨ls,l,hsegs,-,hfit⟩ := h.1.last hss
      rw [hfit.id,hfit.size]
      have hcut : Holds k X b (d.apply (.truncate l.id l.size)) g :=
        ⟨h.1.tails (h.1.disk.truncate (by simp [hsegs])) rfl,h.2⟩
      refine ⟨hCX b d g h,fun e' ht => ?_,hCX b _ _ hcut,hcut⟩
      obtain ⟨id,bytes,m,he,-⟩ := ht
      cases he
  | none =>
    refine Triple.bind
      (Q := fun _ d g => ∀ now, Holds k Y (b.appended (s.grown data) data.length now) d g)
      (Triple.perform fun d g h => ?_)
      fun _ => Triple.pure fun d g h => ⟨hCY _ d g (h .zero),h⟩
    have hall := h.1.written hA hss h.2 hpos hlt hroom
    refine ⟨hCX b d g h.1,fun e' ht => ?_,hCY _ _ _ (hall .zero),hall⟩
    obtain ⟨id,bytes,m,he,rfl⟩ := ht
    cases he
    by_cases hm : m < (frame data).length
    · exact hCX b _ _ (h.1.torn hss h.2 (hf.stuck_take hm))
    · rw [take_of_length_le (by omega)]
      exact hCY _ _ _ (hall .zero)

lemma append_triple (hX : Rides k X) (hY : Rides k Y) (hCX : ∀ b d g, Holds k X b d g → C d g)
    (hCY : ∀ b d g, Holds k Y b d g → C d g) (hA : Extends k data X Y)
    (hlt : data.length < maxRecord) (hnext : b.nextSegID+2<2^32) {faults : Buffer.AppendFaults}
    (hfault : ∀ n∈faults.write.write, n<8+data.length) (clock : Buffer.Readings) :
    Triple Ghost.apply (Holds k X b) (b.append data faults clock) C (fun r d g =>
      if r.1 then Holds k Y r.2 d g else Holds k X r.2 d g) := by
  unfold Buffer.append
  split_ifs with hempty
  · exact Triple.pure fun d g h => ⟨hCX b d g h,h⟩
  have hpos : 0<data.length := by
    cases data with
    | nil => simp at hempty
    | cons _ _ => simp
  refine Triple.bind (activeSegment_triple hX hCX hnext data.length faults clock) ?_
  rintro ⟨ok,b'⟩
  cases ok with
  | false => exact Triple.pure fun d g h => ⟨hCX b' d g h.1,h.1⟩
  | true =>
    refine Triple.assume fun hroom => ?_
    obtain ⟨ss,s,hss,hroom⟩ := hroom rfl
    have hlast : b'.segments.getLast? = some s := by simp only at hss; simp [hss]
    simp only [Bool.not_true,Bool.false_eq_true,if_false,hlast]
    refine Triple.bind (segment_append_triple hCX hCY hA hpos hlt hss hroom hfault) ?_
    rintro (_ | s')
    · exact Triple.pure fun d g h => ⟨hCX b' d g h,h⟩
    · refine Triple.bind ((enforceMaxSize_triple hY hCY _).pre fun d g h => h clock.touched)
        fun b₁ => Triple.bind (enforceMaxAge_triple hY hCY b₁ clock.age)
        fun b₂ => Triple.pure fun d g h => ⟨hCY b₂ d g h,h⟩

end Triples

end Pglens.DiskBuffer
