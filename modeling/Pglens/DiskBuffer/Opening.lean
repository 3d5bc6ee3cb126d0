import Pglens.DiskBuffer.Next

/-! Open walks the segment files, cuts what it cannot read, settles the checkpoint, drops what is
acknowledged or too old, and puts the cursor at the checkpoint. Whatever the directory held, the
buffer it returns agrees with it. -/
namespace Pglens.DiskBuffer
open Pglens.Lib List Option Prog
open Buffer (openSegments OpenArgs initial openDir)

lemma payloadEnd_append (offset last : ℕ) (fs gs : List (List UInt8)) :
    payloadEnd offset last (fs++gs) =
      payloadEnd (offset+fs.flatten.length) (payloadEnd offset last fs) gs := by
  induction fs generalizing offset last with
  | nil => simp [payloadEnd]
  | cons f fs ih =>
    rw [cons_append,payloadEnd,ih,payloadEnd,flatten_cons,length_append,Nat.add_assoc]

lemma payloadEnd_blank (offset last : ℕ) {zs : List (List UInt8)}
    (hz : ∀ z∈zs, hasPayload z=false) : payloadEnd offset last zs = last := by
  induction zs generalizing offset with
  | nil => rfl
  | cons z zs ih =>
    rw [payloadEnd,hz z (by simp)]
    exact ih _ fun z' hz' => hz z' (by simp [hz'])

lemma payloadEnd_trailing (offset : ℕ) {fs : List (List UInt8)}
    (h : ∀ f∈fs.getLast?, hasPayload f=true) :
    payloadEnd offset offset fs = offset+fs.flatten.length := by
  rcases eq_nil_or_concat fs with rfl | ⟨fs,f,rfl⟩
  · simp [payloadEnd]
  · rw [concat_eq_append] at h ⊢
    have hf : hasPayload f = true := h f (by simp)
    rw [payloadEnd_append]
    simp [payloadEnd,hf,Nat.add_assoc]

lemma openSegment_held {d : Disk} {l : Layout} (hl : l.Sound) (hheld : Held Blank d l)
    {fs gs : List (List UInt8)} (hframes : l.frames=fs++gs) {keep : ℕ}
    (hkeep : min keep (d.content l.id).length=l.base+fs.flatten.length) :
    openSegment (d.content l.id) keep = ⟨l.size,gs.countP hasPayload⟩ := by
  obtain ⟨pre,tail,hpre,hfile,zs,r,rfl,hz,hr⟩ := hheld
  have hstart : (pre++fs.flatten).length = l.base+fs.flatten.length := by
    rw [length_append,hpre]
  have hsplit : d.content l.id = (pre++fs.flatten)++((gs++zs).flatten++r) := by
    rw [hfile,hframes]
    simp [append_assoc]
  have hall : ∀ f ∈ gs++zs, records.Complete f := by
    intro f hf
    rcases mem_append.mp hf with hf | hf
    · exact (hl.frames f (by simp [hframes,hf])).1
    · exact (hz f hf).1
  have hfuel : (gs++zs).length < (d.content l.id).length+1 := by
    have := Framing.length_le_flatten hall
    rw [hsplit]
    simp only [length_append] at this ⊢
    omega
  have hcount : zs.countP hasPayload = 0 := by
    rw [countP_eq_zero]
    intro z hmem
    simp [(hz z hmem).2]
  have hlast : ∀ f∈gs.getLast?, hasPayload f = true := by
    intro f hf
    apply hl.trailing f
    rw [hframes,getLast?_append,mem_def.mp hf]
    rfl
  have hwalk := openLoop_frames hall hr (pre++fs.flatten) _ hfuel (pre++fs.flatten).length 0
  rw [← hsplit,hstart,payloadEnd_append,payloadEnd_trailing _ hlast,
    payloadEnd_blank _ _ fun z hmem => (hz z hmem).2] at hwalk
  rw [openSegment,hkeep,hwalk]
  simp [hcount,Layout.size,hframes,Nat.add_assoc]

def Buffer.loaded (b : Buffer) (modTime : ℕ → Time) (d : Disk) (id : ℕ) : Segment :=
  let o := openSegment (d.content id) (b.keep id)
  ⟨id,modTime id,modTime id,segmentSize b.opts.maxSize,o.recordCount,o.fileSize⟩

def Buffer.cutAt (b : Buffer) (d : Disk) (id : ℕ) : Option Effect :=
  let o := openSegment (d.content id) (b.keep id)
  if 0 < o.cut (d.content id) then some (.truncate id o.fileSize) else none

/-- What the loop over the segment files leaves of the buffer it started with. -/
structure Loads (b b' : Buffer) (modTime : ℕ → Time) (d : Disk) (ids : List ℕ) : Prop where
  segments : b'.segments = b.segments++ids.map (b.loaded modTime d)
  nextSegID : b'.nextSegID = ids.foldl (fun n id => if n ≤ id then (id+1)%2^32 else n) b.nextSegID
  mark : b'.mark=b.mark
  cursor : b'.nextReadSeg=b.nextReadSeg ∧ b'.nextReadOff=b.nextReadOff
  opts : b'.opts=b.opts
  dropped : b'.stats.samplesDropped=b.stats.samplesDropped

lemma run_cutAt_content (b : Buffer) (d : Disk) {id j : ℕ} (hne : j≠id) :
    (device.run d (b.cutAt d id).toList).content j = d.content j := by
  unfold Buffer.cutAt
  simp only
  split_ifs
  · exact (content_truncate d id j _).trans (if_neg hne)
  · rfl

lemma openSegments_loads (modTime : ℕ → Time) {ids : List ℕ} (hids : ids.Nodup) (b : Buffer)
    (d : Disk) : Loads b (openSegments modTime ids b d).1 modTime d ids ∧
      (openSegments modTime ids b d).2 = ids.filterMap (b.cutAt d) := by
  induction ids generalizing b d with
  | nil => exact ⟨⟨by simp [openSegments,run_pure],rfl,rfl,⟨rfl,rfl⟩,rfl,rfl⟩,rfl⟩
  | cons id ids ih =>
    rw [nodup_cons] at hids
    set o := openSegment (d.content id) (b.keep id) with ho
    set b₁ : Buffer := { b with
      segments := b.segments++[b.loaded modTime d id]
      nextSegID := if b.nextSegID ≤ id then (id+1)%2^32 else b.nextSegID
      stats := { b.stats with
        corruptRecords := b.stats.corruptRecords+(if 0<o.cut (d.content id) then 1 else 0)
        cutBytes := b.stats.cutBytes+o.cut (d.content id) } } with hb₁
    set d₁ := device.run d (b.cutAt d id).toList with hd₁
    have hstep : openSegments modTime (id::ids) b d =
        ((openSegments modTime ids b₁ d₁).1,
          (b.cutAt d id).toList++(openSegments modTime ids b₁ d₁).2) := by
      have hcut : (if decide (0<o.cut (d.content id))=true then
          [Effect.truncate id o.fileSize] else []) = (b.cutAt d id).toList := by
        simp only [Buffer.cutAt,decide_eq_true_eq,← ho]
        split_ifs <;> rfl
      rw [openSegments,run_bind,run_bind]
      simp only [Prog.read,Prog.performIf,Device.run,foldl_nil,nil_append,← ho,hcut]
      rfl
    have hsame : ∀ j∈ids, d₁.content j = d.content j := fun j hj =>
      run_cutAt_content b d fun h => hids.1 (h ▸ hj)
    have hload : ids.map (b₁.loaded modTime d₁) = ids.map (b.loaded modTime d) := by
      apply map_congr_left
      intro j hj
      simp only [Buffer.loaded,hsame j hj]
      rfl
    have hcut : ids.filterMap (b₁.cutAt d₁) = ids.filterMap (b.cutAt d) := by
      apply filterMap_congr
      intro j hj
      simp only [Buffer.cutAt,hsame j hj]
      rfl
    obtain ⟨hl,heff⟩ := ih hids.2 b₁ d₁
    rw [hstep]
    refine ⟨⟨?_,?_,hl.mark,hl.cursor,hl.opts,hl.dropped⟩,?_⟩
    · rw [hl.segments,hload]
      simp [hb₁]
    · rw [hl.nextSegID]
      rfl
    · simp only [heff,hcut]
      cases hc : b.cutAt d id <;> simp [hc]

section Cuts
variable {T : List UInt8 → Prop} {d : Disk} {g : Ghost}

lemma Stored.cuts (h : Stored T d g) (hT : T []) {es : List Effect}
    (hes : ∀ e∈es, ∃ l∈g.segs, e = .truncate l.id l.size) :
    Stored T (device.run d es) g ∧ (device.run d es).acked = d.acked ∧
      es.foldl Ghost.apply g = g := by
  induction es generalizing d with
  | nil => exact ⟨h,rfl,rfl⟩
  | cons e es ih =>
    obtain ⟨l,hl,rfl⟩ := hes e (by simp)
    exact ih (h.truncate hT hl) fun e' he' => hes e' (by simp [he'])

lemma held_cuts (hs : g.Sorted) {es : List Effect}
    (hes : ∀ e∈es, ∃ l∈g.segs, e = .truncate l.id l.size) {l : Layout} (hl : l∈g.segs)
    (hheld : Held T d l) (hcut : .truncate l.id l.size ∈ es ∨ Held (· = []) d l) :
    Held (· = []) (device.run d es) l := by
  induction es generalizing d T with
  | nil => exact hcut.resolve_left (by simp)
  | cons e es ih =>
    obtain ⟨l',hl',rfl⟩ := hes _ mem_cons_self
    have hrest : ∀ e∈es, ∃ l∈g.segs, e = .truncate l.id l.size :=
      fun e he => hes e (by simp [he])
    by_cases hid : l.id=l'.id
    · obtain rfl := hs.inj hl hl' hid
      exact ih hrest (held_truncate hheld) (.inr (held_truncate hheld))
    · have hsame : (d.apply (.truncate l'.id l'.size)).content l.id = d.content l.id := by
        rw [content_truncate,if_neg hid]
      refine ih hrest (hheld.congr hsame) (hcut.imp (fun hmem => ?_) fun h => h.congr hsame)
      rcases mem_cons.mp hmem with heq | hmem
      · exact absurd (Effect.truncate.inj heq).1 hid
      · exact hmem

lemma cut_subset {es cs : List Effect} (hcut : device.Cut es cs)
    (hes : ∀ e∈es, ∀ e', ¬device.torn e e') : ∀ c∈cs, c∈es := by
  induction hcut with
  | stop es => simp
  | torn es ht => exact absurd ht (hes _ mem_cons_self _)
  | step _ ih =>
    intro c hc
    rcases mem_cons.mp hc with rfl | hc
    · exact mem_cons_self
    · exact mem_cons_of_mem _ (ih (fun e he => hes e (by simp [he])) c hc)

end Cuts

section Correct
variable {b : Buffer} {g : Ghost}

lemma clampCheckpoint_mark (hfits : List.Forall₂ Fits b.segments g.segs) (hs : g.Sorted) :
    b.clampCheckpoint.ackedSegID = b.ackedSegID ∧
      (∀ l∈g.segs, l.id=b.ackedSegID → b.clampCheckpoint.ackedOff=min b.ackedOff l.size) ∧
      ((∀ l∈g.segs, l.id≠b.ackedSegID) → b.clampCheckpoint.ackedOff=b.ackedOff) := by
  unfold Buffer.clampCheckpoint
  cases hfind : b.segments.find? fun s => decide (s.id=b.ackedSegID) with
  | none =>
    refine ⟨rfl,fun l hl hid => ?_,fun _ => rfl⟩
    obtain ⟨s,hmem,hfit⟩ := forall₂_exists_left hfits hl
    have := find?_eq_none.mp hfind s hmem
    simp [hfit.id,hid] at this
  | some s =>
    have hid : s.id=b.ackedSegID := by simpa using find?_some hfind
    obtain ⟨l,hl,hfit⟩ := forall₂_exists_right hfits (mem_of_find?_eq_some hfind)
    have hl' : l.id=b.ackedSegID := hfit.id.symm.trans hid
    simp only
    split_ifs with hlt
    · refine ⟨rfl,fun l' hl'' hid' => ?_,fun hnone => absurd hl' (hnone l hl)⟩
      obtain rfl := hs.inj hl'' hl (hid'.trans hl'.symm)
      rw [hfit.size] at hlt ⊢
      simp only
      omega
    · refine ⟨rfl,fun l' hl'' hid' => ?_,fun _ => rfl⟩
      obtain rfl := hs.inj hl'' hl (hid'.trans hl'.symm)
      rw [hfit.size] at hlt
      omega

lemma restartCheckpoint_mark (hfits : List.Forall₂ Fits b.segments g.segs) :
    (g.segs=[] → b.restartCheckpoint.mark=(0,0)) ∧
    (∀ l∈g.segs.head?, ∀ l'∈g.segs.getLast?, l'.id<b.ackedSegID →
      b.restartCheckpoint.mark=(l.id,0)) ∧
    (∀ l'∈g.segs.getLast?, b.ackedSegID≤l'.id → b.restartCheckpoint.mark=b.mark) := by
  unfold Buffer.restartCheckpoint
  rcases eq_nil_or_concat b.segments with hnil | ⟨ss,s,hss⟩
  · rw [hnil] at hfits
    have hsegs := forall₂_nil_left_iff.mp hfits
    simp [hnil,hsegs,Buffer.mark]
  · rw [concat_eq_append] at hss
    rw [hss] at hfits
    obtain ⟨ls,rest,hsegs,hls,hrest⟩ := forall₂_split hfits
    cases hrest with
    | @cons _ l _ _ hfit hnil =>
      cases hnil
      have hhead : (b.segments.head?.map Segment.id) = (g.segs.head?.map Layout.id) := by
        rw [hss,hsegs]
        cases hls with
        | nil => simp [hfit.id]
        | cons hfit' _ => simp [hfit'.id]
      have hlast : b.segments.getLast? = some s := by simp [hss]
      refine ⟨fun hnil => absurd hnil (by simp [hsegs]),fun l₀ hl₀ l' hl' hlt => ?_,
        fun l' hl' hle => ?_⟩
      · obtain rfl : l=l' := by simpa [hsegs] using hl'
        rw [← hfit.id] at hlt
        simp only [hlast,if_pos hlt,hhead,mem_def.mp hl₀]
        rfl
      · obtain rfl : l=l' := by simpa [hsegs] using hl'
        rw [← hfit.id] at hle
        simp only [hlast,if_neg (Nat.not_lt.mpr hle)]

end Correct

/-- The checkpoint Open starts with: the one it could read, or the very first position. -/
def Disk.loadedMark (d : Disk) : ℕ × ℕ := d.checkpoint.getD (0,0)

def Disk.keep (d : Disk) (id : ℕ) : ℕ := if id=d.loadedMark.1 then d.loadedMark.2 else 0

/-- A directory that Open can make sense of: its files hold a log whose segments are laid
out from where their walks start. -/
structure Openable (T : List UInt8 → Prop) (d : Disk) (g : Ghost) : Prop where
  stored : Stored T d g
  nil : T []
  blank : ∀ t, T t → Blank t
  checkpoint : ∀ c∈d.checkpoint, c.1+1 < 2^32
  walk : ∀ l∈g.segs, l.Boundary (min (d.keep l.id) (d.content l.id).length)
  based : ∀ l∈g.segs, l.base≠0 → ∃ c∈d.checkpoint, c.1=l.id

abbrev Buffer.OpenArgs.start (args : OpenArgs) (d : Disk) : Buffer :=
  initial args.opts.withDefaults d.checkpoint

def Buffer.numbered (args : OpenArgs) (d : Disk) : Buffer :=
  let start := initial args.opts.withDefaults d.checkpoint
  let b := (openSegments args.modTime (d.files.keys.sort (· ≤ ·)) start d).1
  b.recalculateStats.numberAboveCheckpoint d.checkpoint.isSome

def Buffer.opened (args : OpenArgs) (d : Disk) : Buffer :=
  (Buffer.numbered args d).correctCheckpoint

section Opened
variable {T : List UInt8 → Prop} {d : Disk} {g : Ghost}

lemma initial_keep (opts : Options) (d : Disk) (id : ℕ) :
    (initial opts d.checkpoint).keep id = d.keep id := rfl

lemma Stored.sort_keys (h : Stored T d g) : d.files.keys.sort (· ≤ ·) = g.segs.map Layout.id := by
  have hkeys : d.files.keys = (g.segs.map Layout.id).toFinset := by
    ext id
    rw [d.files.mem_keys,h.keys,List.mem_toFinset,List.mem_map]
  rw [hkeys]
  exact (toFinset_sort (· ≤ ·) (h.sorted.imp fun hlt => Nat.ne_of_lt hlt)).mpr
    (h.sorted.imp fun hlt => hlt.le)

variable {l : Layout} {b : Buffer}

lemma Openable.walk_file (h : Openable T d g) (hl : l∈g.segs) :
    ∃ fs gs, l.frames = fs++gs ∧
      min (d.keep l.id) (d.content l.id).length = l.base+fs.flatten.length ∧
      openSegment (d.content l.id) (d.keep l.id) = ⟨l.size,gs.countP hasPayload⟩ := by
  obtain ⟨fs,gs,hframes,hstart⟩ := h.walk l hl
  exact ⟨fs,gs,hframes,hstart,openSegment_held (h.stored.sound l hl)
    ((h.stored.held l hl).mono h.blank) hframes hstart⟩

lemma nextSegID_fold {ids : List ℕ} (hids : ∀ id∈ids, id+1<2^32) (n : ℕ) (hn : n<2^32) :
    let m := ids.foldl (fun n id => if n ≤ id then (id+1)%2^32 else n) n
    n ≤ m ∧ m < 2^32 ∧ ∀ id∈ids, id < m := by
  induction ids generalizing n with
  | nil => exact ⟨Nat.le_refl n,hn,by simp⟩
  | cons id ids ih =>
    have hid := hids id (by simp)
    rw [foldl_cons,Nat.mod_eq_of_lt hid]
    obtain ⟨h1,h2,h3⟩ := ih (fun j hj => hids j (by simp [hj])) (if n ≤ id then id+1 else n)
      (by split_ifs <;> omega)
    refine ⟨le_trans (by split_ifs <;> omega) h1,h2,fun j hj => ?_⟩
    rcases mem_cons.mp hj with rfl | hj
    · exact lt_of_lt_of_le (by split_ifs <;> omega) h1
    · exact h3 j hj

lemma loadedMark_lt (d : Disk) : d.loadedMark.2 < 2^64 := by
  unfold Disk.loadedMark Disk.checkpoint
  cases d.acked with
  | none => simp
  | some data =>
    simp only [bind_some]
    split_ifs with hlen
    · simp
    · have := getLE_lt ((data.drop 4).take 8)
      rw [length_take,length_drop,Nat.min_eq_left (by omega)] at this
      exact this.trans_eq (by norm_num)

/-- What Open knows of the buffer with all segments loaded. -/
structure Numbers (b : Buffer) (d : Disk) (g : Ghost) : Prop where
  fits : List.Forall₂ Fits b.segments g.segs
  ids : ∀ l∈g.segs, l.id<b.nextSegID
  counter : b.nextSegID < 2^32
  above : ∀ c∈d.checkpoint, c.1<b.nextSegID
  counts : ∀ s∈b.segments, s.recordCount = (openSegment (d.content s.id) (d.keep s.id)).recordCount
  dropped : b.stats.samplesDropped = fun _ => 0

lemma numberAboveCheckpoint_spec {c : Option (ℕ × ℕ)}
    (hacked : b.mark=c.getD (0,0)) (hc : ∀ c'∈c, c'.1+1<2^32) :
    let b' := b.numberAboveCheckpoint c.isSome
    b'.segments = b.segments ∧ b'.mark=b.mark ∧ b'.stats=b.stats ∧
      b.nextSegID ≤ b'.nextSegID ∧ (b.nextSegID<2^32 → b'.nextSegID<2^32) ∧
      ∀ c'∈c, c'.1<b'.nextSegID := by
  unfold Buffer.numberAboveCheckpoint
  cases c with
  | none => simp
  | some c =>
    have hid : b.ackedSegID=c.1 := congrArg Prod.fst hacked
    have hlt : (b.ackedSegID+1)%2^32 = b.ackedSegID+1 :=
      Nat.mod_eq_of_lt (by rw [hid]; exact hc c rfl)
    have hc' := hc c rfl
    simp only [isSome_some,Bool.true_and,decide_eq_true_eq,hlt]
    split_ifs with hle
    · refine ⟨rfl,rfl,rfl,?_,fun _ => ?_,fun c' hmem => ?_⟩
      · simp only
        omega
      · simp only
        omega
      · cases hmem
        simp only
        omega
    · refine ⟨rfl,rfl,rfl,le_rfl,id,fun c' hmem => ?_⟩
      cases hmem
      omega

lemma Openable.numbers (h : Openable T d g) (args : OpenArgs) :
    Numbers (Buffer.numbered args d) d g ∧ (Buffer.numbered args d).mark = d.loadedMark := by
  have hkeys : d.files.keys.sort (· ≤ ·) = g.segs.map Layout.id := h.stored.sort_keys
  have hload := (openSegments_loads args.modTime (Finset.sort_nodup d.files.keys (· ≤ ·))
    (args.start d) d).1
  rw [hkeys] at hload
  unfold Buffer.numbered
  rw [hkeys]
  set b := (openSegments args.modTime (g.segs.map Layout.id)
    (args.start d) d).1
  have hsegs : b.segments = (g.segs.map Layout.id).map
      ((args.start d).loaded args.modTime d) := hload.segments
  have hids : ∀ id ∈ g.segs.map Layout.id, id+1 < 2^32 := by
    intro id hid
    obtain ⟨l,hl,rfl⟩ := List.mem_map.mp hid
    exact (h.stored.sound l hl).id
  obtain ⟨-,hn1,hn2⟩ := nextSegID_fold hids 0 (by omega)
  have hnext : b.nextSegID=_ := hload.nextSegID
  obtain ⟨h1,h2,h3,h4,h5,h6⟩ :=
    numberAboveCheckpoint_spec (b := b.recalculateStats) hload.mark h.checkpoint
  refine ⟨⟨?_,fun l hl => ?_,h5 (hnext ▸ hn1),h6,fun s hmem => ?_,?_⟩,h2.trans hload.mark⟩
  · rw [h1]
    change List.Forall₂ Fits b.segments g.segs
    rw [hsegs,List.map_map,forall₂_map_left_iff,forall₂_same]
    intro l hl
    obtain ⟨fs,gs,-,-,hopen⟩ := h.walk_file hl
    refine ⟨rfl,?_,segmentSize_le _⟩
    simp only [Function.comp,Buffer.loaded,initial_keep,hopen]
  · refine lt_of_lt_of_le ?_ h4
    change l.id < b.nextSegID
    rw [hnext]
    exact hn2 l.id (List.mem_map_of_mem hl)
  · rw [h1] at hmem
    change s ∈ b.segments at hmem
    rw [hsegs] at hmem
    obtain ⟨id,-,rfl⟩ := List.mem_map.mp hmem
    rfl
  · rw [h3]
    exact hload.dropped

/-- What Open knows of the buffer before it settles the checkpoint. -/
structure Opens (b : Buffer) (d : Disk) (g : Ghost) : Prop extends Numbers b d g where
  below : Below b.nextSegID b.mark
  place : Place g b.mark
  based : ∀ l∈g.segs, l.base≠0 → l.id≤b.ackedSegID
  mark : b.mark=d.loadedMark ∨ g.segs=[] ∧ b.mark = (0,0) ∨
    (∃ l∈g.segs.head?, b.mark=(l.id,0)) ∧ (∀ l∈g.segs, l.id<d.loadedMark.1) ∨
    ∃ l∈g.segs, l.id=d.loadedMark.1 ∧ l.size<d.loadedMark.2 ∧ b.mark = (l.id,l.size)

lemma correctCheckpoint_frame (b : Buffer) :
    b.correctCheckpoint.segments = b.segments ∧ b.correctCheckpoint.nextSegID=b.nextSegID ∧
      b.correctCheckpoint.stats = b.stats := by
  unfold Buffer.correctCheckpoint Buffer.clampCheckpoint Buffer.restartCheckpoint
  repeat' split
  all_goals exact ⟨rfl,rfl,rfl⟩

lemma restartCheckpoint_segments (b : Buffer) : b.restartCheckpoint.segments=b.segments := by
  unfold Buffer.restartCheckpoint
  repeat' split
  all_goals rfl

lemma Openable.clamped (h : Openable T d g) (hl : l∈g.segs)
    (hid : l.id=d.loadedMark.1) : l.Boundary (min d.loadedMark.2 l.size) := by
  have hwalk := h.walk l hl
  rw [Disk.keep,if_pos hid] at hwalk
  have hle := hwalk.le_size
  have hsize := (h.stored.held l hl).size_le
  rcases Nat.le_total d.loadedMark.2 (d.content l.id).length with hcase | hcase
  · rw [Nat.min_eq_left hcase] at hwalk hle
    rwa [Nat.min_eq_left hle]
  · rw [Nat.min_eq_right (by omega)]
    exact ⟨l.frames,[],by simp,rfl⟩

lemma Openable.base_zero (h : Openable T d g) (hl : l∈g.segs)
    (hid : l.id≠d.loadedMark.1) : l.base=0 := by
  by_contra hbase
  obtain ⟨c,hc,hcid⟩ := h.based l hl hbase
  rw [Disk.loadedMark,mem_def.mp hc] at hid
  exact hid hcid.symm

lemma correctCheckpoint_mark (hfits : List.Forall₂ Fits b.segments g.segs) (hs : g.Sorted) :
    g.segs = [] ∧ b.correctCheckpoint.mark = (0,0) ∨
      (∃ l∈g.segs.head?, b.correctCheckpoint.mark=(l.id,0)) ∧ (∀ l∈g.segs, l.id<b.ackedSegID) ∨
      ∃ last∈g.segs.getLast?, b.ackedSegID≤last.id ∧
        ((∃ l∈g.segs, l.id=b.ackedSegID ∧ b.correctCheckpoint.mark=(b.ackedSegID,min b.ackedOff l.size)) ∨
          (∀ l∈g.segs, l.id≠b.ackedSegID) ∧ b.correctCheckpoint.mark=b.mark) := by
  have hfits' : List.Forall₂ Fits b.restartCheckpoint.segments g.segs := by
    rw [restartCheckpoint_segments]
    exact hfits
  obtain ⟨hr1,hr2,hr3⟩ := restartCheckpoint_mark hfits
  obtain ⟨hc1,hc2,hc3⟩ := clampCheckpoint_mark hfits' hs
  rcases eq_nil_or_concat g.segs with hnil | ⟨ls,last,hsegs⟩
  · have h1 := hr1 hnil
    have h2 := hc3 (by simp [hnil])
    exact .inl ⟨hnil,Prod.ext (hc1.trans (congrArg Prod.fst h1)) (h2.trans (congrArg Prod.snd h1))⟩
  · rw [concat_eq_append] at hsegs
    have hlast : last∈g.segs.getLast? := by simp [hsegs]
    rcases Nat.lt_or_ge last.id b.ackedSegID with hpast | hin
    · obtain ⟨l₀,hl₀⟩ : ∃ l₀, l₀∈g.segs.head? := by
        cases hhead : g.segs.head? with
        | none =>
          rw [head?_eq_none_iff] at hhead
          simp [hsegs] at hhead
        | some l₀ => exact ⟨l₀,rfl⟩
      have h1 := hr2 l₀ hl₀ last hlast hpast
      have h2 := hc2 l₀ (mem_of_mem_head? hl₀) (congrArg Prod.fst h1).symm
      have h3 : b.restartCheckpoint.ackedOff=0 := congrArg Prod.snd h1
      rw [h3,Nat.zero_min] at h2
      exact .inr (.inl ⟨⟨l₀,hl₀,Prod.ext (hc1.trans (congrArg Prod.fst h1)) h2⟩,
        fun l hl => (hs.le_last hl hlast).trans_lt hpast⟩)
    · have h1 := hr3 last hlast hin
      have hid : b.restartCheckpoint.ackedSegID=b.ackedSegID := congrArg Prod.fst h1
      have hoff : b.restartCheckpoint.ackedOff=b.ackedOff := congrArg Prod.snd h1
      rw [hid,hoff] at hc2 hc3
      refine .inr (.inr ⟨last,hlast,hin,?_⟩)
      by_cases hex : ∃ l∈g.segs, l.id=b.ackedSegID
      · obtain ⟨l,hl,hlid⟩ := hex
        exact .inl ⟨l,hl,hlid,Prod.ext (hc1.trans hid) (hc2 l hl hlid)⟩
      · have hnone : ∀ l∈g.segs, l.id≠b.ackedSegID := fun l hl heq => hex ⟨l,hl,heq⟩
        exact .inr ⟨hnone,Prod.ext (hc1.trans hid) (hc3 hnone)⟩

lemma Openable.opens (h : Openable T d g) (args : OpenArgs) :
    Opens (Buffer.opened args d) d g := by
  obtain ⟨hn,hloaded⟩ := h.numbers args
  have hs := h.stored.sorted
  set b := Buffer.numbered args d
  have hid : b.ackedSegID=d.loadedMark.1 := congrArg Prod.fst hloaded
  have hoff : b.ackedOff=d.loadedMark.2 := congrArg Prod.snd hloaded
  have hlt := loadedMark_lt d
  obtain ⟨hseg,hnext,hstats⟩ := correctCheckpoint_frame b
  have hnums : Numbers b.correctCheckpoint d g :=
    ⟨hseg ▸ hn.fits,hnext ▸ hn.ids,hnext ▸ hn.counter,hnext ▸ hn.above,hseg ▸ hn.counts,
      hstats ▸ hn.dropped⟩
  -- it is enough to know where the checkpoint ends up
  suffices hgoal : Below b.nextSegID b.correctCheckpoint.mark ∧ Place g b.correctCheckpoint.mark ∧
      (∀ l∈g.segs, l.id=d.loadedMark.1 → l.id≤b.correctCheckpoint.mark.1) ∧
      (b.correctCheckpoint.mark=d.loadedMark ∨ g.segs=[] ∧ b.correctCheckpoint.mark=(0,0) ∨
        (∃ l∈g.segs.head?, b.correctCheckpoint.mark=(l.id,0)) ∧
          (∀ l∈g.segs, l.id<d.loadedMark.1) ∨
        ∃ l∈g.segs, l.id=d.loadedMark.1 ∧ l.size<d.loadedMark.2 ∧
          b.correctCheckpoint.mark=(l.id,l.size)) by
    obtain ⟨h1,h2,h3,h4⟩ := hgoal
    refine ⟨hnums,hnext.symm ▸ h1,h2,fun l hl hbase => h3 l hl ?_,h4⟩
    by_contra hne
    exact hbase (h.base_zero hl hne)
  have hmark := correctCheckpoint_mark hn.fits hs
  rw [hid,hoff,hloaded] at hmark
  obtain ⟨hnil,hmark⟩ | ⟨⟨l₀,hl₀,hmark⟩,hall⟩ | ⟨last,hlast,hin,hinside⟩ := hmark
  · rw [hmark]
    exact ⟨.inr ⟨rfl,rfl⟩,⟨by simp [hnil],by simp [hnil]⟩,by simp [hnil],
      .inr (.inl ⟨hnil,rfl⟩)⟩
  · have hl₀' : l₀∈g.segs := mem_of_mem_head? hl₀
    have hplace := Place.start hs hl₀' (h.base_zero hl₀' (hall l₀ hl₀').ne)
    rw [hmark]
    exact ⟨.inl ⟨hn.ids l₀ hl₀',by simp⟩,hplace,
      fun l hl heq => absurd heq (hall l hl).ne,.inr (.inr (.inl ⟨⟨l₀,hl₀,rfl⟩,hall⟩))⟩
  · have hbelow : ∀ off, off≤d.loadedMark.2 → Below b.nextSegID (d.loadedMark.1,off) := by
      intro off hle
      have := hn.ids last (mem_of_getLast? hlast)
      exact .inl ⟨by simp only; omega,by simp only; omega⟩
    have hbound : ∀ l∈g.segs.getLast?, d.loadedMark.1≤l.id := by
      intro l hl
      obtain rfl := mem_unique hlast hl
      exact hin
    obtain ⟨l,hl,hlid,hmark⟩ | ⟨hnone,hmark⟩ := hinside
    · rw [hmark]
      refine ⟨hbelow _ (Nat.min_le_left _ _),⟨hbound,fun l' hl' hid' => ?_⟩,fun l' hl' heq => heq.le,?_⟩
      · obtain rfl := hs.inj hl' hl (hid'.trans hlid.symm)
        exact h.clamped hl' hlid
      · rcases Nat.lt_or_ge l.size d.loadedMark.2 with hend | hend
        · rw [Nat.min_eq_right hend.le,← hlid]
          exact .inr (.inr (.inr ⟨l,hl,rfl,hend,rfl⟩))
        · rw [Nat.min_eq_left hend]
          exact .inl rfl
    · rw [hmark]
      exact ⟨hbelow _ le_rfl,⟨hbound,fun l' hl' hid' => absurd hid' (hnone l' hl')⟩,
        fun l' hl' heq => heq.le,.inl rfl⟩

end Opened

section OpenDir
variable {T : List UInt8 → Prop} {k : ℕ} {d₀ : Disk} {g₀ : Ghost} {X : Buffer → Ghost → Prop}
  {C : Disk → Ghost → Prop}

lemma Opens.agree {b : Buffer} {d : Disk} (h : Opens b d₀ g₀) (hd : Stored records.Stuck d g₀)
    (hnew : g₀.history=g₀.written ∧ ∀ n f, k≤n → g₀.history[n]?=some f → IsRecord f)
    (hpassed : ∀ n, g₀.first≤n → n<g₀.number b.mark → n<k ∨ n∈g₀.acked)
    (hc : ∀ c∈d.checkpoint, c=b.mark) : Agree k b d g₀ := by
  have hmark : Mark k g₀ b.mark := ⟨h.place,hpassed⟩
  have hlt : b.mark.1+1 < 2^32 := by
    have h1 := h.below
    have h2 := h.counter
    unfold Below at h1
    omega
  refine ⟨⟨hd,hnew.1,hnew.2,fun c hmem => ?_⟩,h.fits,h.ids,h.counter,h.below,hmark,fun c hmem => ?_,h.based⟩
  · rw [hc c hmem]
    exact ⟨hlt,hmark⟩
  · rw [hc c hmem]
    exact h.below

lemma openSegments_triple (h : Openable T d₀ g₀) (args : OpenArgs)
    (hC : ∀ d, Stored T d g₀ → d.acked=d₀.acked → C d g₀) :
    Triple Ghost.apply (fun d g => d=d₀ ∧ g=g₀)
      (openSegments args.modTime (d₀.files.keys.sort (· ≤ ·))
        (initial args.opts.withDefaults d₀.checkpoint)) C
      (fun b d g => b=(openSegments args.modTime (d₀.files.keys.sort (· ≤ ·))
          (initial args.opts.withDefaults d₀.checkpoint) d₀).1 ∧
        Stored T d g₀ ∧ Stored (· = []) d g₀ ∧ d.acked=d₀.acked ∧ g=g₀) := by
  rintro d g ⟨rfl,rfl⟩
  obtain ⟨-,heff⟩ := openSegments_loads args.modTime (Finset.sort_nodup d.files.keys (· ≤ ·))
    (args.start d) d
  set b₀ := args.start d with hb₀
  have hcut : ∀ l∈g.segs, b₀.cutAt d l.id =
      if 0 < (d.content l.id).length-l.size then some (.truncate l.id l.size) else none := by
    intro l hl
    obtain ⟨fs,gs,-,-,hopen⟩ := h.walk_file hl
    simp only [Buffer.cutAt,hb₀,initial_keep,hopen,Opened.cut]
  have hes : ∀ e ∈ (d.files.keys.sort (· ≤ ·)).filterMap (b₀.cutAt d),
      ∃ l∈g.segs, e = .truncate l.id l.size := by
    intro e he
    obtain ⟨id,hid,he⟩ := mem_filterMap.mp he
    rw [h.stored.sort_keys] at hid
    obtain ⟨l,hl,rfl⟩ := List.mem_map.mp hid
    rw [hcut l hl] at he
    split_ifs at he
    cases he
    exact ⟨l,hl,rfl⟩
  rw [heff]
  refine ⟨fun cs hcs => ?_,rfl,?_⟩
  · have hsub := cut_subset hcs fun e he e' ht => by
      obtain ⟨l,-,rfl⟩ := hes e he
      obtain ⟨id,bytes,n,heq,-⟩ := ht
      cases heq
    obtain ⟨h1,h2,h3⟩ := h.stored.cuts h.nil fun e he => hes e (hsub e he)
    rw [h3]
    exact hC _ h1 h2
  · obtain ⟨h1,h2,h3⟩ := h.stored.cuts h.nil hes
    refine ⟨h1,⟨h1.sorted,h1.keys,h1.sound,fun l hl => ?_⟩,h2,h3⟩
    refine held_cuts h1.sorted hes hl (h.stored.held l hl) ?_
    by_cases hlong : 0 < (d.content l.id).length-l.size
    · left
      refine mem_filterMap.mpr ⟨l.id,?_,by rw [hcut l hl,if_pos hlong]⟩
      rw [h.stored.sort_keys]
      exact List.mem_map_of_mem hl
    · right
      have hsize := (h.stored.held l hl).size_le
      exact (h.stored.held l hl).nil (by omega)

theorem settleCheckpoint_triple {b : Buffer} (h : Opens b d₀ g₀)
    (hnew : g₀.history=g₀.written ∧ ∀ n f, k≤n → g₀.history[n]?=some f → IsRecord f)
    (hpassed : ∀ n, g₀.first≤n → n<g₀.number b.mark → n<k ∨ n∈g₀.acked) (hX : X b g₀)
    (hC₀ : ∀ d, Stored T d g₀ → d.acked=d₀.acked → C d g₀)
    (hC : ∀ b d g, Holds k X b d g → C d g) (saveFails removeFails : Bool) :
    Triple Ghost.apply
      (fun d g => Stored T d g₀ ∧ Stored (· = []) d g₀ ∧ d.acked=d₀.acked ∧ g=g₀)
      (b.settleCheckpoint d₀.loadedMark saveFails removeFails) C
      (fun ok d g => if ok then Holds k X b d g else C d g) := by
  have hagree : ∀ d, Stored (· = []) d g₀ → (∀ c∈d.checkpoint, c=b.mark) → Holds k X b d g₀ :=
    fun d hd hc => ⟨h.agree (hd.mono fun _ => stuck_of_nil) hnew hpassed hc,hX⟩
  have hsaved : ∀ d : Disk, (d.apply (.saveAcked (ackedBytes b.ackedSegID b.ackedOff))).checkpoint =
      some b.mark := by
    intro d
    have h1 := h.below
    have h2 := h.counter
    unfold Below Buffer.mark at h1
    exact checkpoint_saveAcked d (by omega) (by omega)
  unfold Buffer.settleCheckpoint
  split_ifs with hsame hsave hremove
  · refine Triple.pure fun d g hP => ?_
    obtain ⟨h1,h2,h3,rfl⟩ := hP
    refine ⟨hC₀ d h1 h3,hagree d h2 fun c hc => ?_⟩
    have : d₀.checkpoint = some c := by
      rw [Disk.checkpoint,h3] at hc
      exact hc
    rw [Buffer.mark,hsame,Disk.loadedMark,this]
    rfl
  · refine Triple.bind (Q := fun _ => Holds k X b) ?_
      fun _ => Triple.pure fun d g hP => ⟨hC b d g hP,hP⟩
    refine Triple.performIf (fun _ => Triple.perform fun d g hP => ?_) fun hfalse => by cases hfalse
    obtain ⟨h1,h2,h3,rfl⟩ := hP
    have hnow := hagree _ (h2.acked (some (ackedBytes b.ackedSegID b.ackedOff))) fun c hc =>
      mem_unique hc (hsaved d)
    refine ⟨hC₀ d h1 h3,fun e' ht => ?_,hC b _ _ hnow,hnow⟩
    obtain ⟨id,bytes,n,he,-⟩ := ht
    cases he
  · refine Triple.pure fun d g hP => ?_
    obtain ⟨h1,h2,h3,rfl⟩ := hP
    exact ⟨hC₀ d h1 h3,hC₀ d h1 h3⟩
  · refine Triple.bind (Q := fun _ => Holds k X b) (Triple.perform fun d g hP => ?_)
      fun _ => Triple.pure fun d g hP => ⟨hC b d g hP,hP⟩
    obtain ⟨h1,h2,h3,rfl⟩ := hP
    have hnow := hagree _ (h2.acked none) fun c hc => by cases hc
    refine ⟨hC₀ d h1 h3,fun e' ht => ?_,hC b _ _ hnow,hnow⟩
    obtain ⟨id,bytes,n,he,-⟩ := ht
    cases he

lemma openDir_triple (h : Openable T d₀ g₀) (args : OpenArgs)
    (hnew : g₀.history=g₀.written ∧ ∀ n f, k≤n → g₀.history[n]?=some f → IsRecord f)
    (hpassed : ∀ n, g₀.first≤n → n<g₀.number (Buffer.opened args d₀).mark →
      n<k ∨ n∈g₀.acked)
    (hX : Rides k X) (hmoved : ∀ {b b' g}, b.Moved b' → X b g → X b' g)
    (hstart : X (Buffer.opened args d₀) g₀)
    (hC₀ : ∀ d, Stored T d g₀ → d.acked=d₀.acked → C d g₀)
    (hC : ∀ b d g, Holds k X b d g → C d g) :
    Triple Ghost.apply (fun d g => d=d₀ ∧ g=g₀) (openDir args) C (fun r d g =>
      match r with
      | none => C d g
      | some b => Holds k X b d g ∧ Reads k [] b g ∧ g.cursor b=g.number b.mark) := by
  have hopens := h.opens args
  unfold openDir
  refine Triple.read_bind fun d => ?_
  refine Triple.pre (Triple.assume (P := fun d g => d=d₀ ∧ g=g₀) (φ := d=d₀)
    fun hd => ?_) fun d' g hP => ⟨hP.2,hP.1.symm.trans hP.2.1⟩
  subst hd
  refine Triple.bind (openSegments_triple h args hC₀) fun b => ?_
  refine Triple.pre (Triple.assume fun hb => ?_) fun d' g hP => ⟨hP.2,hP.1⟩
  subst hb
  refine Triple.bind (settleCheckpoint_triple hopens hnew hpassed hstart hC₀ hC _ _) fun ok => ?_
  cases ok with
  | false => exact Triple.pure fun d g h => ⟨h,h⟩
  | true =>
    refine Triple.bind (dropAckedSegments_triple hX hC _) fun b₁ =>
      Triple.bind (enforceMaxAge_triple hX hC b₁ args.now) fun b₂ =>
      Triple.bind (enforceMaxSize_triple hX hC b₂) fun b₃ =>
      Triple.pure fun d g h => ⟨hC b₃ d g h,?_⟩
    obtain ⟨h1,h2,h3,h4⟩ := h.1.rewind
    have hmark : b₃.rewind.mark=b₃.mark := by
      obtain ⟨i,off,n,hm⟩ := h4
      rw [hm]
      rfl
    exact ⟨⟨h1,hmoved h4 h.2⟩,h2,hmark ▸ h3⟩

end OpenDir

end Pglens.DiskBuffer
