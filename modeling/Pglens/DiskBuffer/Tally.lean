import Pglens.DiskBuffer.Opening
import Mathlib.Order.Interval.Finset.Nat

/-! The records a process counts in SamplesDropped are those that retention removed and that it saw
no ack of. They are told by their numbers: all from the checkpoint Open started with up to the first
record still stored, but for those acknowledged in between. -/
namespace Pglens.DiskBuffer
open Pglens.Lib List

def Stats.dropped (st : Stats) : ℕ := st.samplesDropped .sizeLimit+st.samplesDropped .ageLimit

lemma afterRemove_dropped (st : Stats) (s : Segment) (reason : Option Reason) (n : ℕ) :
    (st.afterRemove s reason n).dropped = st.dropped+(if reason.isSome then n else 0) := by
  cases reason with
  | none => rfl
  | some r =>
    cases r <;> simp [Stats.afterRemove,Stats.dropped,Function.update] <;> omega

/-- The accounts of a process whose first checkpoint had the number `m` and that saw the
acks of the records `here`. -/
structure Tally (m : ℕ) (here : Finset ℕ) (b : Buffer) (g : Ghost) : Prop where
  start : m ≤ g.number b.mark
  acked : ∀ n∈here, m≤n ∧ n < g.number b.mark
  upto : ∀ n, m≤n → g.first≤n → n < g.number b.mark → n∈here
  counts : List.Forall₂ (fun s l => b.ackedSegID<l.id → s.recordCount=l.frames.length)
    b.segments g.segs
  total : b.stats.dropped = (Finset.Ico m g.first \ here).card

section Unacked
variable {k : ℕ} {b : Buffer} {d : Disk} {g : Ghost}

/-- The unacknowledged records of the oldest segment are those from the checkpoint on. -/
theorem unackedRecords_eq (h : Agree k b d g) {s : Segment} {ss : List Segment}
    (hss : b.segments=s::ss) {l : Layout} {ls : List Layout} (hsegs : g.segs=l::ls)
    (hcounts : List.Forall₂ (fun s l => b.ackedSegID<l.id → s.recordCount=l.frames.length)
      b.segments g.segs) : b.unackedRecords d s = g.first+l.frames.length-g.number b.mark := by
  obtain ⟨l',ls',hsegs',hfit,-⟩ := h.oldest hss
  cases hsegs.symm.trans hsegs'
  have hs := h.disk.stored.sorted
  have hl : l∈g.segs := by simp [hsegs]
  unfold Buffer.unackedRecords
  rw [hfit.id]
  rcases Nat.lt_trichotomy l.id b.ackedSegID with hlt | heq | hgt
  · have hbefore : l.before b.mark = l.frames.length := Layout.before_of_gt hlt
    rw [if_pos hlt,Ghost.number,hsegs,map_cons,sum_cons,hbefore]
    omega
  · -- the checkpoint is in this segment
    obtain ⟨fs,gs,hframes,hoff⟩ := h.mark.boundary l hl heq
    obtain ⟨pre,tail,hpre,hfile,-⟩ := h.disk.stored.held l hl
    have hall := (h.disk.stored.sound l hl).frames
    have hnum : g.number b.mark = g.first+fs.length := by
      have := number_head hs hsegs b.ackedOff
      rw [hframes,show b.ackedOff=l.base+fs.flatten.length from hoff,
        startsBefore_boundary fun f hf => (hall f (by simp [hframes,hf])).1.length_pos] at this
      rw [Buffer.mark,← heq,show b.ackedOff=l.base+fs.flatten.length from hoff]
      simpa using this
    have hsplit : d.content l.id = (pre++fs.flatten)++(gs.flatten++tail) := by
      rw [hfile,hframes]
      simp [append_assoc]
    have hgs : ∀ f∈gs, records.Complete f := fun f hf => (hall f (by simp [hframes,hf])).1
    have hcount := recordsFrom_frames hgs (pre++fs.flatten) tail
    have hlen : (pre++fs.flatten).length = b.ackedOff := by
      rw [length_append,hpre]
      exact hoff.symm
    rw [if_neg (by omega),if_neg (by omega),hfit.size,hsplit,Layout.size,hframes,← hlen,hnum]
    rw [length_append,hpre] at hcount ⊢
    rw [flatten_append,length_append,← Nat.add_assoc,hcount,length_append]
    omega
  · have hnum : g.number b.mark = g.first := by
      rw [Ghost.number,sum_before_of_lt]
      · rfl
      · intro l' hl'
        rw [hsegs] at hl'
        rcases mem_cons.mp hl' with rfl | hl'
        · exact hgt
        · rw [Ghost.Sorted,hsegs,map_cons,pairwise_cons] at hs
          exact hgt.trans (hs.1 l'.id (mem_map_of_mem hl'))
    rw [hss,hsegs] at hcounts
    cases hcounts with
    | cons hcount _ => rw [if_neg (by omega),if_pos hgt,hcount hgt,hnum]; omega

end Unacked

section Rides
variable {k m n : ℕ} {here : Finset ℕ} {b : Buffer} {d : Disk} {g : Ghost} {s : Segment}
  {ss : List Segment}

lemma Tally.dropped_card (ht : Tally m here b g) :
    (Finset.Ico m (g.first+n) \ here).card =
      (Finset.Ico m g.first \ here).card+(g.first+n-g.number b.mark) := by
  have hmark := g.first_le_number b.mark
  have hsplit : Finset.Ico m (g.first+n) \ here =
      (Finset.Ico m g.first \ here) ∪ Finset.Ico (g.number b.mark) (g.first+n) := by
    ext i
    simp only [Finset.mem_sdiff,Finset.mem_union,Finset.mem_Ico]
    constructor
    · rintro ⟨hi,hnot⟩
      by_cases hlt : i<g.first
      · exact .inl ⟨⟨hi.1,hlt⟩,hnot⟩
      · right
        refine ⟨?_,hi.2⟩
        by_contra hge
        exact hnot (ht.upto i hi.1 (by omega) (by omega))
    · rintro (⟨hi,hnot⟩ | hi)
      · exact ⟨⟨hi.1,by omega⟩,hnot⟩
      · refine ⟨⟨ht.start.trans hi.1,hi.2⟩,fun hmem => ?_⟩
        have := (ht.acked i hmem).2
        omega
  rw [hsplit,Finset.card_union_of_disjoint,Nat.card_Ico]
  rw [Finset.disjoint_left]
  intro i hi hi'
  simp only [Finset.mem_sdiff,Finset.mem_Ico] at hi hi'
  omega

lemma Tally.removed (ht : Tally m here b g) (h : Agree k b d g) (hss : b.segments=s::ss)
    (reason : Option Reason) (hnone : reason=none → b.unackedRecords d s=0) :
    Tally m here (b.removed d reason) (g.apply (.remove s.id reason)) := by
  obtain ⟨l,ls,hsegs,hfit,-⟩ := h.oldest hss
  have hnum := number_remove h.disk.stored.sorted hsegs reason b.mark
  have hfirst := first_remove hsegs reason
  have hunacked := unackedRecords_eq h hss hsegs ht.counts
  have hb : (b.removed d reason).mark = b.mark ∧ (b.removed d reason).segments = ss ∧
      (b.removed d reason).ackedSegID = b.ackedSegID ∧
      (b.removed d reason).stats = b.stats.afterRemove s reason (b.unackedRecords d s) := by
    simp [Buffer.removed,hss,Buffer.mark]
  obtain ⟨hb1,hb2,hb3,hb4⟩ := hb
  rw [hfit.id]
  refine ⟨?_,fun n hn => ?_,fun n h1 h2 h3 => ?_,?_,?_⟩
  · have := ht.start
    rw [hb1,hnum]
    omega
  · have := ht.acked n hn
    rw [hb1,hnum]
    omega
  · rw [hb1,hnum] at h3
    exact ht.upto n h1 (by omega) (by omega)
  · have hcounts := ht.counts
    rw [hss,hsegs] at hcounts
    rw [hb2,hb3,segs_remove hsegs]
    cases hcounts with
    | cons _ hrest => exact hrest
  · rw [hb4,afterRemove_dropped,ht.total,hfirst,ht.dropped_card,← hunacked]
    cases reason with
    | none => rw [hnone rfl]; rfl
    | some r => rfl

lemma Tally.created (ht : Tally m here b g) (now : Time) :
    Tally m here (b.created now)
      (g.apply (.create b.nextSegID)) := by
  have hnum := number_create g b.nextSegID b.mark
  exact ⟨ht.start.trans hnum.ge,fun n hn => ⟨(ht.acked n hn).1,(ht.acked n hn).2.trans_eq hnum.symm⟩,
    fun n h1 h2 h3 => ht.upto n h1 h2 (hnum ▸ h3),
    rel_append ht.counts (.cons (fun _ => rfl) .nil),ht.total⟩

lemma Tally.appended (ht : Tally m here b g) (h : Agree k b d g) (hss : b.segments=ss++[s])
    {ls : List Layout} {l : Layout} (hsegs : g.segs=ls++[l]) {data : List UInt8}
    (hlt : data.length < maxRecord) (now : Time) :
    Tally m here (b.appended (s.grown data) data.length now)
      (g.apply (.write l.id (frame data))) := by
  have hs := h.disk.stored.sorted
  have hf := frame_complete (hlt.trans maxRecord_lt)
  have hnum := h.mark.toPlace.number_write hs hsegs hf
  have hfirst := first_write hs hsegs hf
  refine ⟨ht.start.trans hnum.ge,fun n hn =>
    ⟨(ht.acked n hn).1,(ht.acked n hn).2.trans_eq hnum.symm⟩,
    fun n h1 h2 h3 => ht.upto n h1 (hfirst ▸ h2) (hnum ▸ h3),?_,?_⟩
  · have hcounts := ht.counts
    rw [hss,hsegs] at hcounts
    obtain ⟨ls',rest,heq,hls,hrest⟩ := forall₂_split hcounts
    have hlen : ls'.length=ls.length := by
      have h1 := hrest.length_eq
      have h2 := congrArg List.length heq
      simp only [length_append,length_singleton] at h1 h2
      omega
    obtain ⟨rfl,rfl⟩ := append_inj heq hlen.symm
    rw [apply_write hs hsegs hf,Buffer.appended,hss,dropLast_concat]
    refine rel_append hls (.cons (fun hlt => ?_) .nil)
    cases hrest with
    | cons hcount _ => simp [Segment.grown,hcount hlt]
  · rw [hfirst]
    exact ht.total

lemma Tally.rides (k m : ℕ) (here : Finset ℕ) : Rides k (Tally m here) where
  used _ ht := ⟨ht.start,ht.acked,ht.upto,ht.counts,ht.total⟩
  created now _ ht := ht.created now
  removed reason h ht hss hnone := ht.removed h hss reason fun hr => (hnone hr).2

lemma Tally.moved (ht : Tally m here b g) {b' : Buffer} (hm : b.Moved b') : Tally m here b' g := by
  obtain ⟨i,off,n,rfl⟩ := hm
  exact ⟨ht.start,ht.acked,ht.upto,ht.counts,ht.total⟩

lemma Tally.ack (ht : Tally m here b g) {hd : Handle} {pending : List (Handle × ℕ)}
    (hr : Reads 0 ((hd,n)::pending) b g) :
    Tally m (if g.first≤n then insert n here else here) (b.marked hd) (g.ack n) := by
  have hq := hr.handed (hd,n) (by simp)
  have hnum : (g.ack n).number (b.marked hd).mark = max (n+1) g.first := hq.number
  have hahead : g.number b.mark ≤ max n g.first := hq.ahead
  have hbehind : n < g.cursor b := hq.behind
  have hstart := ht.start
  have hmem : ∀ i, i ∈ (if g.first≤n then insert n here else here) ↔
      i ∈ here ∨ i=n ∧ g.first≤n := by
    intro i
    split_ifs with hle
    · rw [Finset.mem_insert]
      tauto
    · tauto
  refine ⟨?_,fun i hi => ?_,fun i h1 h2 h3 => ?_,?_,?_⟩
  · rw [hnum]
    omega
  · rw [hnum]
    rcases (hmem i).mp hi with hi | ⟨rfl,hle⟩
    · have := ht.acked i hi
      omega
    · omega
  · rw [hnum] at h3
    change g.first ≤ i at h2
    rw [hmem]
    rcases Nat.lt_or_ge i (g.number b.mark) with hlt | hge
    · exact .inl (ht.upto i h1 h2 hlt)
    · -- every record between the checkpoint and the cursor is pending
      have hpend := (hr.covered i hge (by omega)).resolve_left (Nat.not_lt_zero i)
      have hsorted := hr.numbers
      rw [map_cons,pairwise_cons] at hsorted
      rcases mem_cons.mp hpend with rfl | hin
      · exact .inr ⟨rfl,h2⟩
      · have := hsorted.1 i hin
        simp only at this
        omega
  · exact ht.counts.imp fun s l hcount hlt => hcount (hq.acked.trans_lt hlt)
  · change b.stats.dropped = (Finset.Ico m g.first \ _).card
    rw [ht.total]
    congr 1
    ext i
    simp only [Finset.mem_sdiff,Finset.mem_Ico,hmem]
    constructor
    · rintro ⟨hi,hnot⟩
      refine ⟨hi,fun hor => ?_⟩
      rcases hor with hin | ⟨rfl,hle⟩
      · exact hnot hin
      · omega
    · rintro ⟨hi,hnot⟩
      exact ⟨hi,fun hin => hnot (.inl hin)⟩

end Rides

end Pglens.DiskBuffer
