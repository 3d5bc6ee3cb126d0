import Pglens.DiskBuffer.Opening
import Mathlib.Data.List.DropRight

/-! Open takes any segment files and any checkpoint. What its walks find in them is a log like that
of a run, in which nothing is known to be acknowledged. -/
namespace Pglens.DiskBuffer
open Pglens.Lib List
open Buffer (removeWhile OpenArgs openDir openSegments opened)

/-- A file as openSegment reads it: from where its walk starts to its last payload. -/
def Disk.layout (d : Disk) (id : ℕ) : Layout :=
  let file := d.content id
  let start := min (d.keep id) file.length
  ⟨id,start,(records.split file.length (file.drop start)).1.rdropWhile fun f => !hasPayload f⟩

def Disk.log (d : Disk) : Ghost :=
  let segs := (d.files.keys.sort (· ≤ ·)).map d.layout
  ⟨[],segs,segs.flatMap Layout.frames,∅,∅⟩

/-- Segment ids and the checkpoint's leave the counter room, files are no longer than an
int64 can say, and the reader can step over every record in them. -/
structure Disk.Readable (d : Disk) : Prop where
  ids : ∀ id, (d.files.get id).isSome = true → id+1 < 2^32
  checkpoint : ∀ c∈d.checkpoint, c.1+1 < 2^32
  sizes : ∀ id, (d.content id).length < 2^63
  frames : ∀ id, ∀ f ∈ (d.layout id).frames, f.length < 2^32

section Found
variable {d : Disk}

lemma layout_spec (d : Disk) (id : ℕ) :
    (∀ f ∈ (d.layout id).frames, records.Complete f) ∧
    (∀ f ∈ (d.layout id).frames.getLast?, hasPayload f=true) ∧ Held Blank d (d.layout id) := by
  set file := d.content id with hfile
  set start := min (d.keep id) file.length with hstart
  have hlen : (file.drop start).length ≤ file.length := by
    rw [length_drop]
    omega
  obtain ⟨hsplit,hall,hstuck⟩ := records.split_spec hlen
  set fs := (records.split file.length (file.drop start)).1
  set r := (records.split file.length (file.drop start)).2
  have hframes : (d.layout id).frames = fs.rdropWhile fun f => !hasPayload f := rfl
  set zs := fs.rtakeWhile fun f => !hasPayload f with hzs
  have happ : (d.layout id).frames++zs = fs := rdropWhile_append_rtakeWhile
  refine ⟨fun f hf => hall f ?_,fun f hf => ?_,file.take start,zs.flatten++r,?_,?_,zs,r,rfl,
    fun z hz => ⟨hall z ?_,?_⟩,hstuck⟩
  · rw [← happ]
    exact mem_append_left _ hf
  · obtain ⟨hne,rfl⟩ := mem_getLast?_eq_getLast hf
    have hlast : ¬(!hasPayload ((d.layout id).frames.getLast hne)) = true :=
      rdropWhile_last_not (fun f => !hasPayload f) fs hne
    simpa using hlast
  · rw [length_take]
    exact Nat.min_eq_left (Nat.min_le_right _ _)
  · have hrest : (d.layout id).frames.flatten++(zs.flatten++r) = file.drop start := by
      rw [← append_assoc,← flatten_append,happ,hsplit]
    rw [hrest,take_append_drop]
    rfl
  · rw [← happ]
    exact mem_append_right _ hz
  · simpa using mem_rtakeWhile_imp hz

lemma mem_log {l : Layout} :
    l ∈ d.log.segs ↔ (d.files.get l.id).isSome = true ∧ l = d.layout l.id := by
  simp only [Disk.log,mem_map,Finset.mem_sort,d.files.mem_keys]
  constructor
  · rintro ⟨id,hid,rfl⟩
    exact ⟨hid,rfl⟩
  · rintro ⟨hid,heq⟩
    exact ⟨l.id,hid,heq.symm⟩

lemma Disk.Readable.stored (hd : d.Readable) : Stored Blank d d.log := by
  refine ⟨?_,fun id => ?_,fun l hl => ?_,fun l hl => ?_⟩
  · rw [Ghost.Sorted]
    simp only [Disk.log,map_map]
    rw [show Layout.id ∘ d.layout=id from rfl,map_id]
    exact (Finset.sortedLT_sort d.files.keys).pairwise
  · constructor
    · exact fun hid => ⟨d.layout id,mem_log.mpr ⟨hid,rfl⟩,rfl⟩
    · rintro ⟨l,hl,rfl⟩
      exact (mem_log.mp hl).1
  · obtain ⟨hid,heq⟩ := mem_log.mp hl
    obtain ⟨hall,hlast,hheld⟩ := layout_spec d l.id
    have hsize := hheld.size_le
    have hlt := hd.sizes l.id
    rw [heq]
    exact ⟨hd.ids l.id hid,fun f hf => ⟨hall f hf,hd.frames l.id f hf⟩,hlast,
      (hsize.trans_lt hlt).trans (by decide)⟩
  · rw [(mem_log.mp hl).2]
    exact (layout_spec d l.id).2.2

lemma Disk.Readable.openable (hd : d.Readable) : Openable Blank d d.log := by
  refine ⟨hd.stored,Blank.of_stuck Framing.stuck_nil,fun _ h => h,hd.checkpoint,fun l hl => ?_,
    fun l hl hbase => ?_⟩
  · rw [(mem_log.mp hl).2]
    exact ⟨[],_,rfl,rfl⟩
  · rw [(mem_log.mp hl).2] at hbase
    have hkeep : d.keep l.id ≠ 0 := by
      intro hzero
      exact hbase (by simp [Disk.layout,hzero])
    unfold Disk.keep at hkeep
    split_ifs at hkeep with hid
    · cases hc : d.checkpoint with
      | none => simp [Disk.loadedMark,hc] at hkeep
      | some c =>
        rw [hid,Disk.loadedMark,hc]
        exact ⟨c,rfl,rfl⟩
    · exact absurd rfl hkeep

end Found

section Drops
variable {b : Buffer} {d : Disk} {policy : Buffer → Disk → Bool} {reason : Option Reason} {n : ℕ}
  {e : Effect}

lemma removeWhile_reason (he : e ∈ (removeWhile policy reason n b d).2) :
    ∃ id, e = .remove id reason := by
  induction n generalizing b d with
  | zero => cases he
  | succ n ih =>
    rw [removeWhile_succ] at he
    split_ifs at he
    · split at he
      · exact ih he
      · rcases mem_cons.mp he with rfl | he
        · exact ⟨_,rfl⟩
        · exact ih he
    · cases he

lemma mem_removeWhile (hids : (b.segments.map Segment.id).Nodup)
    (he : e ∈ (removeWhile policy reason n b d).2) :
    ∃ s∈b.segments, e = .remove s.id reason ∧ ∃ b' d', policy b' d' = true ∧
      b'.segments.head? = some s ∧ b'.mark=b.mark ∧ d'.content s.id = d.content s.id := by
  induction n generalizing b d with
  | zero => cases he
  | succ n ih =>
    rw [removeWhile_succ] at he
    split_ifs at he with hp
    · cases hss : b.segments with
      | nil =>
        rw [hss] at he
        obtain ⟨s,hs,-⟩ := ih hids he
        rw [hss] at hs
        cases hs
      | cons s ss =>
        rw [hss] at he
        rcases mem_cons.mp he with rfl | he
        · exact ⟨s,by simp,rfl,b,d,hp,by simp [hss],rfl,rfl⟩
        · rw [hss,map_cons,nodup_cons] at hids
          have hrest : (b.removed d reason).segments = ss := by simp [Buffer.removed,hss]
          have hmark : (b.removed d reason).mark = b.mark := by
            simp [Buffer.removed,hss,Buffer.mark]
          obtain ⟨s',hs',rfl,b',d',h1,h2,h3,h4⟩ := ih (by rw [hrest]; exact hids.2) he
          rw [hrest] at hs'
          refine ⟨s',by simp [hs'],rfl,b',d',h1,h2,h3.trans hmark,?_⟩
          rw [h4,content_remove,if_neg]
          rintro heq
          exact hids.1 (heq ▸ mem_map_of_mem hs')
    · cases he

lemma mem_dropAckedSegments (hids : (b.segments.map Segment.id).Nodup)
    (he : e ∈ (b.dropAckedSegments d).2) :
    ∃ s∈b.segments, e = .remove s.id none ∧ b.unackedRecords d s = 0 := by
  obtain ⟨s,hs,rfl,b',d',hp,hhead,hmark,hcontent⟩ := mem_removeWhile hids he
  refine ⟨s,hs,rfl,?_⟩
  have hzero : b'.unackedRecords d' s = 0 := by
    cases hss : b'.segments with
    | nil => simp [hss] at hp
    | cons s' ss =>
      rw [hss,head?_cons,Option.some_inj] at hhead
      subst hhead
      cases ss with
      | nil => simp [hss] at hp
      | cons => simpa [hss] using hp
  obtain ⟨hid,hoff⟩ := Prod.ext_iff.mp hmark
  change b'.ackedSegID = b.ackedSegID at hid
  change b'.ackedOff = b.ackedOff at hoff
  rwa [Buffer.unackedRecords,hid,hoff,hcontent] at hzero

lemma settleCheckpoint_files (b : Buffer) (loaded : ℕ × ℕ) (saveFails removeFails : Bool)
    (d : Disk) :
    (∀ id reason, .remove id reason ∉ (b.settleCheckpoint loaded saveFails removeFails d).2) ∧
      (device.run d (b.settleCheckpoint loaded saveFails removeFails d).2).files = d.files := by
  unfold Buffer.settleCheckpoint
  split_ifs
  · exact ⟨fun _ _ => not_mem_nil,rfl⟩
  · refine ⟨fun id reason he => ?_,rfl⟩
    change .remove id reason ∈ [Effect.saveAcked _] at he
    simp at he
  · exact ⟨fun _ _ => not_mem_nil,rfl⟩
  · refine ⟨fun id reason he => ?_,rfl⟩
    change .remove id reason ∈ [Effect.removeAcked] at he
    simp at he

lemma mem_openDir {args : OpenArgs} {id : ℕ}
    (he : .remove id none ∈ (openDir args d).2) :
    ∃ d' : Disk, d'.files = (device.run d (openSegments args.modTime
        (d.files.keys.sort (· ≤ ·))
        (args.start d) d).2).files ∧
      .remove id none ∈ ((opened args d).dropAckedSegments d').2 := by
  have hcuts := (openSegments_loads args.modTime (Finset.sort_nodup d.files.keys (· ≤ ·))
    (args.start d) d).2
  unfold openDir at he
  rw [Prog.run_read_bind,Prog.mem_bind] at he
  rcases he with he | he
  · rw [hcuts] at he
    obtain ⟨j,-,hj⟩ := mem_filterMap.mp he
    unfold Buffer.cutAt at hj
    simp only at hj
    split_ifs at hj
    cases hj
  set d₁ := device.run d (openSegments args.modTime (d.files.keys.sort (· ≤ ·))
    (args.start d) d).2
  change .remove id none ∈ ((do
    let ok ← (opened args d).settleCheckpoint d.loadedMark args.saveFails args.removeFails
    if !ok then return none
    let b ← (opened args d).dropAckedSegments
    let b ← b.enforceMaxAge args.now
    let b ← b.enforceMaxSize
    return some b.rewind : Prog device (Option Buffer)) d₁).2 at he
  obtain ⟨hnone,hfiles⟩ := settleCheckpoint_files (opened args d) d.loadedMark args.saveFails
    args.removeFails d₁
  rw [Prog.mem_bind] at he
  rcases he with he | he
  · exact absurd he (hnone id none)
  split_ifs at he
  · cases he
  rw [Prog.mem_bind] at he
  rcases he with he | he
  · exact ⟨_,hfiles,he⟩
  -- the two policies give their reason
  rw [Prog.mem_bind,Prog.mem_bind] at he
  rcases he with he | he | he
  · obtain ⟨_,heq⟩ := removeWhile_reason he
    cases heq
  · obtain ⟨_,heq⟩ := removeWhile_reason he
    cases heq
  · cases he

end Drops

section Dropped
variable {d : Disk} {args : OpenArgs}

lemma Layout.Sound.nil_of_size {l : Layout} (hl : l.Sound) (h : l.size≤l.base) : l.frames = [] := by
  have hlen := Framing.length_le_flatten fun f hf => (hl.frames f hf).1
  rw [Layout.size] at h
  exact eq_nil_of_length_eq_zero (by omega)

lemma Disk.Readable.nil_of_mark (hd : d.Readable) {l : Layout} (hl : l∈d.log.segs)
    (hmark : (opened args d).mark=(l.id,l.size)) : l.frames=[] := by
  have hsound := hd.stored.sound l hl
  have hsize := (hd.stored.held l hl).size_le
  have hbase : l.base = min (d.keep l.id) (d.content l.id).length := by rw [(mem_log.mp hl).2]; rfl
  apply hsound.nil_of_size
  rcases (hd.openable.opens args).mark with h | ⟨hnil,-⟩ | ⟨⟨l',-,h⟩,-⟩ | ⟨l',hl',hid,hend,h⟩
  · rw [h] at hmark
    rw [hbase,Disk.keep,hmark,if_pos rfl]
    exact Nat.le_min.mpr ⟨le_rfl,hsize⟩
  · rw [hnil] at hl
    cases hl
  · rw [h,Prod.mk.injEq] at hmark
    omega
  · rw [h,Prod.mk.injEq] at hmark
    obtain rfl := hd.stored.sorted.inj hl' hl hmark.1
    rw [hbase,Disk.keep,if_pos hid]
    exact Nat.le_min.mpr ⟨hend.le,hsize⟩

lemma Disk.Readable.empty_of_unacked (hd : d.Readable) {d' : Disk} {s : Segment}
    (hs : s ∈ (opened args d).segments) (hheld : ∀ l∈d.log.segs, Held (· = []) d' l)
    (hle : (opened args d).ackedSegID ≤ s.id)
    (hzero : (opened args d).unackedRecords d' s=0) :
    (openSegment (d.content s.id) (d.keep s.id)).recordCount = 0 := by
  have hopens := hd.openable.opens args
  obtain ⟨l,hl,hfit⟩ := forall₂_exists_right hopens.fits hs
  rw [Buffer.unackedRecords,if_neg (by omega)] at hzero
  split_ifs at hzero with hlt
  · rw [← hopens.counts s hs]
    exact hzero
  · have hid : l.id = (opened args d).mark.1 := by
      have := hfit.id
      change l.id = (opened args d).ackedSegID
      omega
    obtain ⟨fs,gs,hframes,hoff⟩ := hopens.place.boundary l hl hid
    obtain ⟨pre,tail,hpre,hfile,rfl⟩ := hheld l hl
    have hsound := hd.stored.sound l hl
    have hgs : ∀ f∈gs, records.Complete f := fun f hf => (hsound.frames f (by simp [hframes,hf])).1
    have hcount := recordsFrom_frames hgs (pre++fs.flatten) []
    have hsplit : d'.content s.id = (pre++fs.flatten)++(gs.flatten++[]) := by
      rw [hfit.id,hfile,hframes]
      simp [append_assoc]
    have hlen : (pre++fs.flatten).length = (opened args d).ackedOff := by
      rw [length_append,hpre]
      exact hoff.symm
    have hsize : s.fileSize = (pre++fs.flatten).length+gs.flatten.length := by
      rw [hfit.size,Layout.size,hframes,length_append,hpre,flatten_append,
        length_append,Nat.add_assoc]
    rw [hsplit,hsize,← hlen,hcount] at hzero
    obtain rfl := eq_nil_of_length_eq_zero hzero
    have hnil : l.frames=[] := hd.nil_of_mark hl (by
      refine Prod.ext hid.symm ?_
      rw [append_nil] at hframes
      rw [hoff,Layout.size,hframes])
    obtain ⟨fs',gs',hframes',-,hopen⟩ := hd.openable.walk_file hl
    rw [hnil] at hframes'
    rw [hfit.id,hopen,(append_eq_nil_iff.mp hframes'.symm).2]
    rfl

lemma Disk.Readable.front (hd : d.Readable) {l : Layout} (hl : l∈d.log.segs)
    (hlt : l.id<(opened args d).ackedSegID) :
    l.id < d.loadedMark.1 ∧ ∃ l'∈d.log.segs, d.loadedMark.1≤l'.id := by
  have hopens := hd.openable.opens args
  have hid : (opened args d).ackedSegID = (opened args d).mark.1 := rfl
  rcases hopens.mark with h | ⟨hnil,-⟩ | ⟨⟨l',hl',h⟩,-⟩ | ⟨l',hl',hid',-,h⟩
  · obtain ⟨ls,last,hsegs⟩ : ∃ ls last, d.log.segs = ls++[last] := by
      rcases eq_nil_or_concat d.log.segs with hnil | ⟨ls,last,hsegs⟩
      · rw [hnil] at hl
        cases hl
      · exact ⟨ls,last,hsegs.trans (concat_eq_append)⟩
    rw [hid,h] at hlt
    refine ⟨hlt,last,by simp [hsegs],?_⟩
    rw [← h]
    exact hopens.place.last last (by simp [hsegs])
  · rw [hnil] at hl
    cases hl
  · -- the checkpoint restarted at the first segment
    exfalso
    rw [hid,h] at hlt
    have hsorted := hd.stored.sorted
    cases hsegs : d.log.segs with
    | nil => simp [hsegs] at hl'
    | cons l₀ ls =>
      obtain rfl : l₀=l' := by simpa [hsegs] using hl'
      rw [Ghost.Sorted,hsegs,map_cons,pairwise_cons] at hsorted
      rw [hsegs] at hl
      rcases mem_cons.mp hl with rfl | hmem
      · exact absurd hlt (lt_irrefl _)
      · exact absurd hlt (hsorted.1 l.id (mem_map_of_mem hmem)).le.not_gt
  · rw [hid,h] at hlt
    exact ⟨hid' ▸ hlt,l',hl',hid'.ge⟩

lemma Disk.Readable.drops (hd : d.Readable) {id : ℕ}
    (he : .remove id none ∈ (openDir args d).2) :
    (id<d.loadedMark.1 ∨ (openSegment (d.content id) (d.keep id)).recordCount=0) ∧
    ((d.checkpoint=none ∨ ∀ j, (d.files.get j).isSome=true → j<d.loadedMark.1) →
      (openSegment (d.content id) 0).recordCount=0) := by
  have hopens := hd.openable.opens args
  have hsorted := hd.stored.sorted
  obtain ⟨d',hfiles,he⟩ := mem_openDir he
  have hids : ((opened args d).segments.map Segment.id).Nodup := by
    have hmap : (opened args d).segments.map Segment.id = d.log.segs.map Layout.id :=
      forall₂_eq_eq_eq ▸ forall₂_map_left_iff.mpr
        (forall₂_map_right_iff.mpr (hopens.fits.imp fun _ _ h => h.id))
    rw [hmap]
    exact hsorted.imp fun hlt => Nat.ne_of_lt hlt
  obtain ⟨s,hs,heq,hzero⟩ := mem_dropAckedSegments hids he
  cases heq
  have hheld : ∀ l∈d.log.segs, Held (· = []) d' l := by
    have htriple := (openSegments_triple (C := fun _ _ => True) hd.openable args
      (fun _ _ _ => trivial) d d.log ⟨rfl,rfl⟩).2
    intro l hl
    refine (htriple.2.2.1.held l hl).congr ?_
    rw [Disk.content,hfiles]
    rfl
  have hempty := fun hle => hd.empty_of_unacked hs hheld hle hzero
  obtain ⟨l,hl,hfit⟩ := forall₂_exists_right hopens.fits hs
  have hfile := (mem_log.mp hl).1
  have hkeep : d.checkpoint=none ∨ (∀ j, (d.files.get j).isSome=true → j<d.loadedMark.1) →
      d.keep s.id = 0 := by
    rintro (hnone | hall)
    · simp [Disk.keep,Disk.loadedMark,hnone]
    · have := hall l.id hfile
      rw [Disk.keep,if_neg (by rw [hfit.id]; omega)]
  -- the segments in front of the checkpoint in force
  rcases Nat.lt_or_ge s.id (opened args d).ackedSegID with hlt | hge
  · rw [hfit.id] at hlt
    obtain ⟨hfront,l',hl',hle⟩ := hd.front hl hlt
    rw [← hfit.id] at hfront
    refine ⟨.inl hfront,fun hor => ?_⟩
    rcases hor with hnone | hall
    · simp [Disk.loadedMark,hnone] at hfront
    · have := hall l'.id (mem_log.mp hl').1
      omega
  · exact ⟨.inr (hempty hge),fun hor => hkeep hor ▸ hempty hge⟩

end Dropped

end Pglens.DiskBuffer
