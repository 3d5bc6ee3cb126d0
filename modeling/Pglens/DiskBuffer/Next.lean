import Pglens.DiskBuffer.Reader

/-! Next scans the log from the cursor for the first frame with a payload, Rewind goes back to the
checkpoint, and an ack moves the checkpoint behind the first pending record. -/
namespace Pglens.DiskBuffer
open Pglens.Lib List Option Nat

/-- The cursor stands at a frame or at an end, and beyond its segment nothing is skipped. -/
structure Stands (b : Buffer) (g : Ghost) : Prop where
  index : b.nextReadSeg<b.segments.length ∨
    b.segments = [] ∧ b.nextReadSeg=0 ∧ b.nextReadOff=0
  place : ∀ c∈b.readPos, Place g c
  base : ∀ c∈b.readPos, ∀ l∈g.segs, c.1<l.id → l.base=0

/-- A buffer that differs in its cursor and the count of corrupt records only. -/
def Buffer.Moved (b b' : Buffer) : Prop :=
  ∃ i off n, b' = { b with
    nextReadSeg := i, nextReadOff := off, stats := { b.stats with corruptRecords := n } }

section Next
variable {k : ℕ} {b b' : Buffer} {d : Disk} {g : Ghost}

lemma Buffer.Moved.refl (b : Buffer) : b.Moved b := ⟨_,_,_,rfl⟩

variable {b₁ : Buffer} {s : Segment} {l : Layout} {fs gs : List (List UInt8)} {n : ℕ}
  {ls ms : List Layout} {env : List UInt8} {hd : Handle}

lemma Buffer.Moved.trans {b₂ b₃ : Buffer} (h : b₁.Moved b₂) (h' : b₂.Moved b₃) : b₁.Moved b₃ := by
  obtain ⟨i,off,n,rfl⟩ := h
  obtain ⟨i',off',n',rfl⟩ := h'
  exact ⟨i',off',n',rfl⟩

lemma Buffer.Moved.mark (hm : b.Moved b') : b'.mark=b.mark ∧ b'.ackedSegID=b.ackedSegID := by
  obtain ⟨i,off,n,rfl⟩ := hm
  exact ⟨rfl,rfl⟩

lemma Agree.moved (h : Agree k b d g) (hm : b.Moved b') : Agree k b' d g := by
  obtain ⟨i,off,n,rfl⟩ := hm
  exact ⟨h.disk,h.fits,h.ids,h.counter,h.below,h.mark,h.saved,h.based⟩

lemma Agree.at_cursor (h : Agree k b d g) (hst : Stands b g)
    (hs : b.segments[b.nextReadSeg]?=some s) :
    ∃ ls l ms fs gs, g.segs = ls++l::ms ∧ ls.length=b.nextReadSeg ∧ Fits s l ∧
      List.Forall₂ Fits (b.segments.drop (b.nextReadSeg+1)) ms ∧ l.frames = fs++gs ∧
      b.nextReadOff = l.base+fs.flatten.length ∧
      g.cursor b = g.first+(ls.map fun l => l.frames.length).sum+fs.length := by
  obtain ⟨hi,hget⟩ := List.getElem?_eq_some_iff.mp hs
  have hfits := h.fits
  rw [← take_append_drop b.nextReadSeg b.segments,drop_eq_getElem_cons hi,hget] at hfits
  obtain ⟨ls,rest,hsegs,hls,hrest⟩ := forall₂_split hfits
  cases hrest with
  | @cons _ l _ ms hfit hms =>
    have hread : b.readPos = some (l.id,b.nextReadOff) := by
      rw [Buffer.readPos,hs,← hfit.id]
      rfl
    have hl : l∈g.segs := by simp [hsegs]
    obtain ⟨fs,gs,hframes,hoff⟩ := (hst.place _ hread).boundary l hl rfl
    refine ⟨ls,l,ms,fs,gs,hsegs,?_,hfit,hms,hframes,hoff,?_⟩
    · rw [← hls.length_eq,length_take]
      omega
    · have hpos : ∀ f∈fs, 0<f.length := fun f hf =>
        ((h.disk.stored.sound l hl).frames f (by simp [hframes,hf])).1.length_pos
      rw [Ghost.cursor,hread,map_some,getD_some,number_at h.disk.stored.sorted hsegs]
      simp only at hoff
      rw [hoff,hframes,startsBefore_boundary hpos]

lemma Agree.readAt_cursor (h : Agree k b d g) (hl : l∈g.segs) (hfit : Fits s l)
    (hframes : l.frames=fs++gs) {off : ℕ} (hoff : off=l.base+fs.flatten.length) :
    readAt (d.content s.id) s.fileSize off =
      gs.head?.elim ⟨none,off,true⟩ fun f => ⟨payload f,off+f.length,false⟩ := by
  obtain ⟨pre,tail,hpre,hfile,htail⟩ := h.disk.stored.held l hl
  have hlen : (pre++fs.flatten).length = off := by
    rw [length_append,hpre,hoff]
  rw [hfit.id,hfit.size,hfile,hframes,flatten_append,append_assoc,← append_assoc pre]
  cases gs with
  | nil =>
    have := readAt_stuck htail (pre++fs.flatten) l.size
    rw [hlen] at this
    simpa using this
  | cons f gs =>
    obtain ⟨hf,hlt⟩ := (h.disk.stored.sound l hl).frames f (by simp [hframes])
    have := readAt_frame hf hlt (pre++fs.flatten) (gs.flatten++tail) l.size (by
      rw [hlen,hoff,Layout.size,hframes]
      simp only [flatten_append,flatten_cons,length_append]
      omega)
    rw [hlen] at this
    simpa using this

/-- What a scan from the cursor finds: frames without a payload up to number `n`, and then
a record to hand out or the end of the log. -/
structure Scans (b : Buffer) (g : Ghost) (r : Option (List UInt8 × Handle) × Buffer) (n : ℕ) :
    Prop where
  moved : b.Moved r.2
  stands : Stands r.2 g
  reached : ∀ c∈b.readPos, ∀ c'∈r.2.readPos, c.1≤c'.1
  from_cursor : g.cursor b ≤ n
  skipped : ∀ m, g.cursor b ≤ m → m<n → (g.history[m]?).bind payload = none
  found : ∀ env hd, r.1 = some (env,hd) → (g.history[n]?).bind payload = some env ∧
    r.2.readPos = some (hd.segID,hd.nextOff) ∧ g.cursor r.2 = n+1
  ended : r.1=none → n=g.history.length ∧ g.cursor r.2 = n

lemma Scans.later {r : Option (List UInt8 × Handle) × Buffer}
    (h : Scans b₁ g r n) (hm : b.Moved b₁) (hle : g.cursor b ≤ g.cursor b₁)
    (hpos : ∀ c∈b.readPos, ∃ c'∈b₁.readPos, c.1≤c'.1)
    (hskip : ∀ m, g.cursor b ≤ m → m<g.cursor b₁ → (g.history[m]?).bind payload=none) :
    Scans b g r n where
  moved := hm.trans h.moved
  stands := h.stands
  reached c hc c' hc' := by
    obtain ⟨c₁,hc₁,hle₁⟩ := hpos c hc
    exact hle₁.trans (h.reached c₁ hc₁ c' hc')
  from_cursor := hle.trans h.from_cursor
  skipped m h1 h2 := by
    rcases lt_or_ge m (g.cursor b₁) with hlt | hge
    · exact hskip m h1 hlt
    · exact h.skipped m hge h2
  found := h.found
  ended := h.ended

lemma Scans.stop (hst : Stands b g) (hcursor : g.cursor b=g.history.length) :
    Scans b g (none,b) g.history.length where
  moved := .refl b
  stands := hst
  reached c hc c' hc' := (congrArg Prod.fst (mem_unique hc hc')).le
  from_cursor := hcursor.le
  skipped m h1 h2 := by omega
  found env hd hr := by cases hr
  ended _ := ⟨rfl,hcursor⟩

lemma Agree.next_segment (h : Agree k b d g) (hst : Stands b g)
    (hs : b.segments[b.nextReadSeg]?=some s) (hsegs : g.segs=ls++l::ms) (hfit : Fits s l)
    (hms : List.Forall₂ Fits (b.segments.drop (b.nextReadSeg+1)) ms)
    (hcursor : g.cursor b=g.first+(ls.map fun l => l.frames.length).sum+l.frames.length)
    (hmore : b.nextReadSeg+1<b.segments.length) :
    ∃ l' : Layout, l.id<l'.id ∧
      { b with nextReadSeg := b.nextReadSeg+1, nextReadOff := 0 }.readPos = some (l'.id,0) ∧
      Stands { b with nextReadSeg := b.nextReadSeg+1, nextReadOff := 0 } g ∧
      g.cursor { b with nextReadSeg := b.nextReadSeg+1, nextReadOff := 0 } = g.cursor b := by
  have hsorted := h.disk.stored.sorted
  rw [drop_eq_getElem_cons hmore] at hms
  cases hms with
  | @cons _ l' _ ms' hfit' _ =>
    have hsegs' : g.segs = (ls++[l])++l'::ms' := by simp [hsegs]
    have hl' : l'∈g.segs := by simp [hsegs']
    have hlt : l.id<l'.id := by
      have := hsorted
      rw [Ghost.Sorted,hsegs',map_append,pairwise_append] at this
      exact this.2.2 l.id (by simp) l'.id (by simp)
    have hread : b.readPos = some (l.id,b.nextReadOff) := by
      rw [Buffer.readPos,hs,← hfit.id]
      rfl
    have hpos : { b with nextReadSeg := b.nextReadSeg+1, nextReadOff := 0 }.readPos =
        some (l'.id,0) := by
      simp [Buffer.readPos,getElem?_eq_getElem hmore,hfit'.id]
    refine ⟨l',hlt,hpos,⟨.inl hmore,fun c hc => ?_,fun c hc l'' hl'' hlt' => ?_⟩,?_⟩
    · rw [hpos] at hc
      cases hc
      exact Place.start hsorted hl' (hst.base _ hread l' hl' hlt)
    · rw [hpos] at hc
      cases hc
      exact hst.base _ hread l'' hl'' (hlt.trans hlt')
    · rw [Ghost.cursor,hpos,map_some,getD_some,number_at hsorted hsegs',startsBefore_zero,hcursor]
      simp
      omega

lemma Agree.next_frame (h : Agree k b d g) (hst : Stands b g)
    (hs : b.segments[b.nextReadSeg]?=some s)
    (hsegs : g.segs=ls++l::ms) (hfit : Fits s l) {f : List UInt8}
    (hframes : l.frames=fs++f::gs) (hoff : b.nextReadOff=l.base+fs.flatten.length)
    (hcursor : g.cursor b=g.first+(ls.map fun l => l.frames.length).sum+fs.length)
    (stats : Stats) :
    { b with nextReadOff := b.nextReadOff+f.length, stats := stats }.readPos =
        some (s.id,b.nextReadOff+f.length) ∧
      Stands { b with nextReadOff := b.nextReadOff+f.length, stats := stats } g ∧
      g.cursor { b with nextReadOff := b.nextReadOff+f.length, stats := stats } = g.cursor b+1 := by
  have hsorted := h.disk.stored.sorted
  have hl : l∈g.segs := by simp [hsegs]
  have hread : b.readPos = some (l.id,b.nextReadOff) := by
    rw [Buffer.readPos,hs,← hfit.id]
    rfl
  have hpos : { b with nextReadOff := b.nextReadOff+f.length, stats := stats }.readPos =
      some (s.id,b.nextReadOff+f.length) := by
    simp [Buffer.readPos,hs]
  have hend : b.nextReadOff+f.length = l.base+(fs++[f]).flatten.length := by
    rw [hoff]
    simp [add_assoc]
  refine ⟨hpos,⟨hst.index.imp_right fun hempty => ?_,fun c hc => ?_,fun c hc => ?_⟩,?_⟩
  · rw [hempty.1] at hs
    cases hs
  · rw [hpos,hfit.id] at hc
    cases hc
    refine ⟨(hst.place _ hread).last,fun l' hl' hid => ?_⟩
    obtain rfl := hsorted.inj hl' hl hid
    exact ⟨fs++[f],gs,by simp [hframes],hend⟩
  · rw [hpos,hfit.id] at hc
    cases hc
    exact fun l' hl' hlt => hst.base _ hread l' hl' hlt
  · have hlen : ∀ f' ∈ fs++[f], 0<f'.length := fun f' hf' =>
      ((h.disk.stored.sound l hl).frames f' (by
        rw [hframes]
        rcases mem_append.mp hf' with hf' | hf' <;> simp_all)).1.length_pos
    rw [Ghost.cursor,hpos,map_some,getD_some,hfit.id,number_at hsorted hsegs,hend,
      show l.frames=(fs++[f])++gs by simp [hframes],startsBefore_boundary hlen,hcursor]
    simp
    omega

lemma Agree.cursor_of_none (h : Agree k b d g) (hst : Stands b g)
    (hs : b.segments[b.nextReadSeg]?=none) : g.cursor b = g.history.length := by
  have hempty : g.segs=[] := by
    rcases hst.index with hi | ⟨hss,-,-⟩
    · rw [getElem?_eq_getElem hi] at hs
      cases hs
    · exact h.segs_nil hss
  rw [Ghost.cursor,Buffer.readPos,hs,length_history,hempty]
  simp

lemma cursor_of_last (hsegs : g.segs=ls++l::ms)
    (hms : List.Forall₂ Fits (b.segments.drop (b.nextReadSeg+1)) ms)
    (hcursor : g.cursor b=g.first+(ls.map fun l => l.frames.length).sum+l.frames.length)
    (hlast : b.segments.length ≤ b.nextReadSeg+1) : g.cursor b = g.history.length := by
  have hnil : ms=[] := by
    rw [drop_eq_nil_of_le hlast] at hms
    exact forall₂_nil_left_iff.mp hms
  rw [hcursor,length_history,hsegs,hnil]
  simp
  omega

lemma nextLoop_scans (h : Agree k b d g) (hst : Stands b g) (fuel : ℕ)
    (hfuel : g.history.length-g.cursor b+(b.segments.length-b.nextReadSeg)<fuel) :
    ∃ n, Scans b g (Buffer.nextLoop d fuel b) n := by
  induction fuel generalizing b with
  | zero => omega
  | succ fuel ih =>
    cases hs : b.segments[b.nextReadSeg]? with
    | none =>
      rw [Buffer.nextLoop,hs]
      exact ⟨_,Scans.stop hst (h.cursor_of_none hst hs)⟩
    | some s =>
      obtain ⟨ls,l,ms,fs,gs,hsegs,hlen,hfit,hms,hframes,hoff,hcursor⟩ := h.at_cursor hst hs
      have hl : l∈g.segs := by simp [hsegs]
      have hread := h.readAt_cursor hl hfit hframes hoff
      have hpos : ∀ c∈b.readPos, c.1=l.id := by
        intro c hc
        rw [Buffer.readPos,hs] at hc
        cases hc
        exact hfit.id
      have hi : b.nextReadSeg<b.segments.length := (List.getElem?_eq_some_iff.mp hs).1
      rw [Buffer.nextLoop,hs]
      simp only [hread]
      cases gs with
      | nil =>
        have hall : g.cursor b = g.first+(ls.map fun l => l.frames.length).sum+l.frames.length := by
          rw [hcursor,hframes,append_nil]
        simp only [head?_nil,elim_none,lt_irrefl,if_false]
        split_ifs with hmore
        · obtain ⟨l',hlt,hpos',hst',hcursor'⟩ :=
            h.next_segment hst hs hsegs hfit hms hall hmore
          have hm : b.Moved { b with nextReadSeg := b.nextReadSeg+1, nextReadOff := 0 } :=
            ⟨_,_,_,rfl⟩
          obtain ⟨n,hn⟩ := ih (h.moved hm) hst' (by rw [hcursor']; simp only; omega)
          refine ⟨n,hn.later hm hcursor'.ge (fun c hc => ⟨_,hpos',?_⟩) fun m h1 h2 => by omega⟩
          rw [hpos c hc]
          exact hlt.le
        · exact ⟨_,Scans.stop hst (cursor_of_last hsegs hms hall (by omega))⟩
      | cons f gs =>
        have hfpos := ((h.disk.stored.sound l hl).frames f (by simp [hframes])).1.length_pos
        have hf : g.history[g.cursor b]? = some f := by
          rw [hcursor]
          exact history_at hsegs hframes
        have hnext := h.next_frame hst hs hsegs hfit hframes hoff hcursor
        have hlt : g.cursor b < g.history.length := (List.getElem?_eq_some_iff.mp hf).1
        have hadvance : b.nextReadOff < b.nextReadOff+f.length := by omega
        simp only [head?_cons,elim_some,hadvance,if_true]
        cases hp : payload f with
        | some env =>
          obtain ⟨hpos',hst',hcursor'⟩ := hnext b.stats
          refine ⟨g.cursor b,⟨_,_,_,rfl⟩,hst',fun c hc c' hc' => ?_,le_rfl,
            fun m h1 h2 => by omega,fun env' hd hr => ?_,fun hr => by cases hr⟩
          · have hc'' : some (s.id,b.nextReadOff+f.length) = some c' := hpos'.symm.trans hc'
            cases hc''
            rw [hpos c hc]
            exact hfit.id.ge
          · cases hr
            exact ⟨by rw [hf]; exact hp,hpos',hcursor'⟩
        | none =>
          obtain ⟨hpos',hst',hcursor'⟩ :=
            hnext { b.stats with corruptRecords := b.stats.corruptRecords+1 }
          have hm : b.Moved { b with
              nextReadOff := b.nextReadOff+f.length
              stats := { b.stats with corruptRecords := b.stats.corruptRecords+1 } } :=
            ⟨_,_,_,rfl⟩
          obtain ⟨n,hn⟩ := ih (h.moved hm) hst' (by rw [hcursor']; simp only; omega)
          refine ⟨n,hn.later hm (by omega) (fun c hc => ⟨_,hpos',?_⟩) fun m h1 h2 => ?_⟩
          · rw [hpos c hc]
            exact hfit.id.ge
          · rw [show m=g.cursor b by omega,hf]
            exact hp

lemma sum_frames_le {ss : List Segment} (hfits : List.Forall₂ Fits ss ls)
    (hsound : ∀ l∈ls, l.Sound) (hheld : ∀ l∈ls, Held records.Stuck d l) :
    (ls.map fun l => l.frames.length).sum ≤ (ss.map fun s => (d.content s.id).length).sum := by
  induction hfits with
  | nil => exact le_refl 0
  | @cons s l ss ls hfit _ ih =>
    have hrest := ih (fun l hl => hsound l (by simp [hl])) fun l hl => hheld l (by simp [hl])
    have hcount := Framing.length_le_flatten fun f hf => ((hsound l (by simp)).frames f hf).1
    have hsize := (hheld l (by simp)).size_le
    unfold Layout.size at hsize
    simp only [map_cons,sum_cons,hfit.id]
    omega

lemma next_scans (h : Agree k b d g) (hst : Stands b g) : ∃ n, Scans b g (b.next d) n := by
  refine nextLoop_scans h hst _ ?_
  have hsum := sum_frames_le h.fits h.disk.stored.sound h.disk.stored.held
  have hlen := length_history g
  have hfirst := g.first_le_cursor b
  omega

lemma Reads.stands {pending : List (Handle × ℕ)} (hr : Reads k pending b g)
    (h : Agree k b d g) : Stands b g :=
  ⟨hr.index,hr.place,fun _ hc _ hl hlt => hr.base_zero h hc hl hlt⟩

lemma OnDisk.payload_isSome (h : OnDisk k d g) (hn : k≤n)
    (hlt : n<g.history.length) : (g.history[n]?).bind payload ≠ none := by
  obtain ⟨data,hpos,-,hf⟩ := h.appended n _ hn (getElem?_eq_getElem hlt)
  rw [getElem?_eq_getElem hlt,hf,bind_some,payload_frame hpos]
  simp

variable {pending : List (Handle × ℕ)} {r : Option (List UInt8 × Handle) × Buffer} {n : ℕ}

lemma Scans.behind (hsc : Scans b g r n) (hr : Reads k pending b g) {c : ℕ × ℕ}
    (hc : c∈r.2.readPos) : ∃ c'∈b.readPos, c'.1≤c.1 := by
  obtain ⟨i,off,m,hm⟩ := hsc.moved
  obtain ⟨s,hs,-⟩ := map_eq_some_iff.mp hc
  rw [hm] at hs
  obtain ⟨c',hc'⟩ := hr.readPos_of_segments (ne_nil_of_mem (mem_of_getElem? hs))
  exact ⟨c',hc',hsc.reached c' hc' c hc⟩

lemma Handed.scans (hr : Reads k pending b g) (hsc : Scans b g r n)
    (hle : g.cursor b ≤ g.cursor r.2) {q : Handle × ℕ} (hq : q∈pending) : Handed r.2 g q := by
  have hq' := hr.handed q hq
  obtain ⟨i,off,m,hm⟩ := hsc.moved
  refine ⟨hq'.place,hq'.number,?_,?_,fun c hc => ?_,hq'.behind.trans_le hle,?_⟩
  · rw [hm]
    exact hq'.below
  · rw [hm]
    exact hq'.acked
  · obtain ⟨c',hc',hle'⟩ := hsc.behind hr hc
    exact (hq'.reached c' hc').trans hle'
  · rw [hm]
    exact hq'.ahead

lemma Reads.scans (hr : Reads k pending b g) (hsc : Scans b g r n) (hle : g.cursor b ≤ g.cursor r.2)
    (hcov : ∀ m, g.number b.mark ≤ m → m<g.cursor r.2 → m<k ∨ m ∈ pending.map Prod.snd) :
    Reads k pending r.2 g := by
  have hmark := hsc.moved.mark
  refine ⟨hsc.stands.index,hsc.stands.place,fun c hc => ?_,fun q hq => .scans hr hsc hle hq,hr.ids,
    hr.numbers,?_,?_⟩
  · obtain ⟨c',hc',hle'⟩ := hsc.behind hr hc
    rw [hmark.2]
    exact (hr.acked c' hc').trans hle'
  · rw [hmark.1]
    exact hr.mark.trans hle
  · rw [hmark.1]
    exact hcov

lemma Scans.skipped_lt (hsc : Scans b g r n) (h : Agree k b d g) {m : ℕ} (hge : g.cursor b ≤ m)
    (hlt : m<n) (hlen : m<g.history.length) : m<k := by
  by_contra hk
  exact h.disk.payload_isSome (not_lt.mp hk) hlen (hsc.skipped m hge hlt)

variable (h : Agree k b d g) (hr : Reads k pending b g) (hsc : Scans b g r n)
include h hr hsc

lemma Reads.ended
    (hend : r.1=none) : Reads k pending r.2 g := by
  obtain ⟨hn,hcursor⟩ := hsc.ended hend
  refine hr.scans hsc (hcursor ▸ hsc.from_cursor) fun m h1 h2 => ?_
  rcases lt_or_ge m (g.cursor b) with hlt | hge
  · exact hr.covered m h1 hlt
  · exact .inl (hsc.skipped_lt h hge (by omega) (by omega))

lemma Handed.found
    (hfound : r.1=some (env,hd)) : Handed r.2 g (hd,n) := by
  obtain ⟨-,hpos,hcursor⟩ := hsc.found env hd hfound
  have hmark := hsc.moved.mark
  have hagree := h.moved hsc.moved
  have hfrom := hsc.from_cursor
  obtain ⟨c,hc,hcle⟩ := hsc.behind hr hpos
  obtain ⟨l,hl,hid⟩ := hagree.cursor_seg hpos
  have hplace := hsc.stands.place _ hpos
  refine ⟨hplace,?_,⟨hid.symm.trans_lt (hagree.ids l hl),?_⟩,?_,fun c' hc' => ?_,?_,?_⟩
  · have hfirst := g.first_le_cursor b
    rw [Ghost.cursor,hpos,map_some,getD_some] at hcursor
    simp only
    omega
  · have h1 := (hplace.boundary l hl hid).le_size
    have h2 := (h.disk.stored.sound l hl).size
    simp only at h1 ⊢
    omega
  · rw [hmark.2]
    exact (hr.acked c hc).trans hcle
  · cases hpos.symm.trans hc'
    exact le_rfl
  · rw [hcursor]
    exact lt_succ_self n
  · have h1 := hr.mark
    rw [hmark.1]
    simp only
    omega

lemma Reads.found
    (hfound : r.1=some (env,hd)) : Reads k (pending++[(hd,n)]) r.2 g := by
  obtain ⟨hpay,hpos,hcursor⟩ := hsc.found env hd hfound
  have hle : g.cursor b ≤ g.cursor r.2 := by
    have := hsc.from_cursor
    omega
  have hn : n<g.history.length := by
    by_contra hge
    rw [getElem?_eq_none (by omega)] at hpay
    cases hpay
  have hmark := hsc.moved.mark
  obtain ⟨c,hc,hcle⟩ := hsc.behind hr hpos
  refine ⟨hsc.stands.index,hsc.stands.place,fun c' hc' => ?_,fun q hq => ?_,?_,?_,?_,
    fun m h1 h2 => ?_⟩
  · cases hpos.symm.trans hc'
    rw [hmark.2]
    exact (hr.acked c hc).trans hcle
  · rcases mem_append.mp hq with hq | hq
    · exact .scans hr hsc hle hq
    · obtain rfl := mem_singleton.mp hq
      exact .found h hr hsc hfound
  · rw [map_append,pairwise_append]
    refine ⟨hr.ids,by simp,fun i hi j hj => ?_⟩
    obtain ⟨q,hq,rfl⟩ := List.mem_map.mp hi
    obtain rfl : j=hd.segID := by simpa using hj
    exact ((hr.handed q hq).reached c hc).trans hcle
  · rw [map_append,pairwise_append]
    refine ⟨hr.numbers,by simp,fun i hi j hj => ?_⟩
    obtain ⟨q,hq,rfl⟩ := List.mem_map.mp hi
    obtain rfl : j=n := by simpa using hj
    exact (hr.handed q hq).behind.trans_le hsc.from_cursor
  · rw [hmark.1]
    exact hr.mark.trans hle
  · rw [hmark.1] at h1
    rw [map_append,mem_append]
    rcases lt_or_ge m (g.cursor b) with hlt | hge
    · exact (hr.covered m h1 hlt).imp_right Or.inl
    · rcases lt_or_ge m n with hlt | hge'
      · exact .inl (hsc.skipped_lt h hge hlt (by omega))
      · exact .inr (.inr (by simp; omega))

end Next

section Rewind
variable {k : ℕ} {b : Buffer} {d : Disk} {g : Ghost}

lemma reads_nil
    (hindex : b.nextReadSeg<b.segments.length ∨ b.segments=[] ∧ b.nextReadSeg=0 ∧ b.nextReadOff=0)
    (hplace : ∀ c∈b.readPos, Place g c) (hacked : ∀ c∈b.readPos, b.ackedSegID≤c.1)
    (hcursor : g.cursor b=g.number b.mark) : Reads k [] b g :=
  ⟨hindex,hplace,hacked,by simp,by simp,by simp,hcursor.ge,fun n h1 h2 => by omega⟩

lemma Agree.after_acked (h : Agree k b d g) {i : ℕ} (hi : i<b.segments.length)
    (hbefore : ∀ j (hj : j < i), ¬b.ackedSegID ≤ (b.segments[j]).id) :
    ∃ ls l ms, g.segs = ls++l::ms ∧ Fits b.segments[i] l ∧ ∀ l'∈ls, l'.id<b.ackedSegID := by
  have hfits := h.fits
  rw [← take_append_drop i b.segments,drop_eq_getElem_cons hi] at hfits
  obtain ⟨ls,rest,hsegs,hls,hrest⟩ := forall₂_split hfits
  cases hrest with
  | @cons _ l _ ms hfit _ =>
    refine ⟨ls,l,ms,hsegs,hfit,fun l' hl' => ?_⟩
    obtain ⟨s,hs,hfit'⟩ := forall₂_exists_left hls hl'
    obtain ⟨j,hj,rfl⟩ := mem_take_iff_getElem.mp hs
    have := hbefore j (by omega)
    rw [hfit'.id] at this
    omega

lemma Agree.place_acked (h : Agree k b d g) {ls ms : List Layout} {l : Layout}
    (hsegs : g.segs=ls++l::ms) (hls : ∀ l'∈ls, l'.id<b.ackedSegID) (hle : b.ackedSegID≤l.id) :
    Place g (l.id,if l.id=b.ackedSegID then b.ackedOff else 0) ∧
      g.number (l.id,if l.id=b.ackedSegID then b.ackedOff else 0) = g.number b.mark := by
  have hsorted := h.disk.stored.sorted
  have hl : l∈g.segs := by simp [hsegs]
  by_cases hid : l.id=b.ackedSegID
  · rw [if_pos hid,hid]
    exact ⟨h.mark.toPlace,rfl⟩
  · have hlt : b.ackedSegID<l.id := by omega
    have hbase : l.base=0 := by
      by_contra hbase
      have := h.based l hl hbase
      omega
    have hms : ∀ l' ∈ l::ms, b.mark.1<l'.id := by
      intro l' hl'
      rcases mem_cons.mp hl' with rfl | hl'
      · exact hlt
      · rw [Ghost.Sorted,hsegs,map_append,pairwise_append,map_cons,pairwise_cons] at hsorted
        exact hlt.trans (hsorted.2.1.1 l'.id (List.mem_map_of_mem hl'))
    rw [if_neg hid]
    refine ⟨Place.start hsorted hl hbase,?_⟩
    rw [number_at hsorted hsegs,startsBefore_zero,Ghost.number,hsegs,map_append,
      List.sum_append,sum_before_of_gt (c := b.mark) hls,sum_before_of_lt hms]
    omega

theorem Agree.rewind (h : Agree k b d g) : Agree k b.rewind d g ∧ Reads k [] b.rewind g ∧
    g.cursor b.rewind = g.number b.mark ∧ b.Moved b.rewind := by
  have hmoved : ∀ i off, b.Moved { b with nextReadSeg := i, nextReadOff := off } :=
    fun i off => ⟨i,off,_,rfl⟩
  unfold Buffer.rewind Buffer.findSegmentAfterAcked
  simp only
  cases hfind : b.segments.findIdx? fun s => decide (b.ackedSegID ≤ s.id) with
  | none =>
    -- the checkpoint is at or before the last segment, so there is none
    have hnil : b.segments=[] := by
      rcases eq_nil_or_concat b.segments with hnil | ⟨ss,s,hss⟩
      · exact hnil
      · rw [concat_eq_append] at hss
        obtain ⟨ls,l,hsegs,-,hfit⟩ := h.last hss
        have hle := h.mark.last l (by simp [hsegs])
        have hlt := findIdx?_eq_none_iff.mp hfind s (by simp [hss])
        simp only [decide_eq_false_iff_not,not_le,hfit.id] at hlt
        exact absurd hle (not_le.mpr hlt)
    have hsegs := h.segs_nil hnil
    have hread : { b with nextReadSeg := 0, nextReadOff := 0 }.readPos = none := by
      simp [Buffer.readPos,hnil]
    have hcursor : g.cursor { b with nextReadSeg := 0, nextReadOff := 0 } = g.number b.mark := by
      rw [Ghost.cursor,hread,Ghost.number,hsegs]
      simp
    have h' := h.moved (hmoved 0 0)
    refine ⟨h',reads_nil (.inr ⟨hnil,rfl,rfl⟩) (fun c hc => ?_) (fun c hc => ?_) hcursor,
      hcursor,hmoved 0 0⟩ <;>
    · rw [hread] at hc
      cases hc
  | some i =>
    obtain ⟨hi,hle,hbefore⟩ := findIdx?_eq_some_iff_getElem.mp hfind
    simp only [decide_eq_true_eq] at hle hbefore
    obtain ⟨ls,l,ms,hsegs,hfit,hls⟩ := h.after_acked hi hbefore
    set off := if (b.segments[i]?).map Segment.id = some b.ackedSegID then b.ackedOff else 0 with hoff
    have hread : { b with nextReadSeg := i, nextReadOff := off }.readPos = some (l.id,off) := by
      simp [Buffer.readPos,getElem?_eq_getElem hi,hfit.id]
    have hcursor : g.cursor { b with nextReadSeg := i, nextReadOff := off } = g.number (l.id,off) := by
      rw [Ghost.cursor,hread]
      simp
    rw [hfit.id] at hle
    simp only [getElem?_eq_getElem hi,map_some,some_inj,hfit.id] at hoff
    have hpos : Place g (l.id,off) ∧ g.number (l.id,off) = g.number b.mark := by
      rw [hoff]
      exact h.place_acked hsegs hls hle
    have h' := h.moved (hmoved i off)
    refine ⟨h',reads_nil (.inl hi) (fun c hc => ?_) (fun c hc => ?_) (hcursor.trans hpos.2),
      hcursor.trans hpos.2,hmoved i off⟩
    · cases hread.symm.trans hc
      exact hpos.1
    · cases hread.symm.trans hc
      exact hle

end Rewind

def Ghost.ack (g : Ghost) (n : ℕ) : Ghost :=
  { g with acked := if g.first≤n then insert n g.acked else g.acked }

def Buffer.marked (b : Buffer) (hd : Handle) : Buffer :=
  { b with ackedSegID := hd.segID, ackedOff := hd.nextOff }

section Acks
variable {k : ℕ} {b : Buffer} {d : Disk} {g : Ghost}

lemma acked_subset_ack (g : Ghost) (n : ℕ) : g.acked ⊆ (g.ack n).acked := by
  intro m hm
  simp only [Ghost.ack]
  split_ifs
  · exact Finset.mem_insert_of_mem hm
  · exact hm

lemma Mark.ack {c : ℕ × ℕ} (h : Mark k g c) (n : ℕ) : Mark k (g.ack n) c :=
  ⟨⟨h.last,h.boundary⟩,fun m h1 h2 =>
    (h.passed m h1 h2).imp_right fun hm => acked_subset_ack g n hm⟩

lemma OnDisk.ack (h : OnDisk k d g) (n : ℕ) : OnDisk k d (g.ack n) :=
  ⟨⟨h.stored.sorted,h.stored.keys,h.stored.sound,h.stored.held⟩,h.written,h.appended,fun c hc =>
    ⟨(h.checkpoint c hc).1,(h.checkpoint c hc).2.ack n⟩⟩

variable {hd : Handle} {n : ℕ} {pending : List (Handle × ℕ)}

lemma Mark.of_handed (h : Agree k b d g)
    (hr : Reads k ((hd,n)::pending) b g) : Mark k (g.ack n) (hd.segID,hd.nextOff) := by
  have hq := hr.handed (hd,n) (by simp)
  refine ⟨⟨hq.place.last,hq.place.boundary⟩,fun m h1 h2 => ?_⟩
  have hnum : g.number (hd.segID,hd.nextOff) = max (n+1) g.first := hq.number
  have hbehind : n < g.cursor b := hq.behind
  change g.first ≤ m at h1
  change m < g.number (hd.segID,hd.nextOff) at h2
  rcases lt_or_ge m n with hlt | hge
  · rcases lt_or_ge m (g.number b.mark) with hm | hm
    · exact (h.mark.passed m h1 hm).imp_right fun hm => acked_subset_ack g n hm
    · refine (hr.covered m hm (by omega)).imp_right fun hmem => ?_
      have hsorted := hr.numbers
      rw [map_cons,pairwise_cons] at hsorted
      rcases mem_cons.mp hmem with rfl | hmem
      · exact absurd hlt (lt_irrefl _)
      · have := hsorted.1 m hmem
        simp only at this
        omega
  · obtain rfl : m=n := by omega
    right
    simp only [Ghost.ack,if_pos h1]
    exact Finset.mem_insert_self _ _

lemma Agree.ack (h : Agree k b d g)
    (hr : Reads k ((hd,n)::pending) b g) : Agree k (b.marked hd) d (g.ack n) := by
  have hq := hr.handed (hd,n) (by simp)
  exact ⟨h.disk.ack n,h.fits,h.ids,h.counter,.inl hq.below,Mark.of_handed h hr,h.saved,
    fun l hl hbase => (h.based l hl hbase).trans hq.acked⟩

lemma Reads.ack (hr : Reads k ((hd,n)::pending) b g) : Reads k pending (b.marked hd) (g.ack n) := by
  have hq := hr.handed (hd,n) (by simp)
  have hnum : (g.ack n).number (b.marked hd).mark = max (n+1) g.first := hq.number
  have hbehind : n < g.cursor b := hq.behind
  have hfirst := g.first_le_cursor b
  have hids := hr.ids
  have hnumbers := hr.numbers
  rw [map_cons,pairwise_cons] at hids hnumbers
  refine ⟨hr.index,fun c hc => ⟨(hr.place c hc).last,(hr.place c hc).boundary⟩,hq.reached,
    fun q hmem => ?_,hids.2,hnumbers.2,?_,fun m h1 h2 => ?_⟩
  · have hq' := hr.handed q (by simp [hmem])
    have hlt := hnumbers.1 q.2 (List.mem_map_of_mem hmem)
    refine ⟨⟨hq'.place.last,hq'.place.boundary⟩,hq'.number,hq'.below,
      hids.1 _ (List.mem_map_of_mem (f := fun q => q.1.segID) hmem),hq'.reached,hq'.behind,?_⟩
    rw [hnum]
    change max (n+1) g.first ≤ max q.2 g.first
    simp only at hlt
    omega
  · rw [hnum]
    change max (n+1) g.first ≤ g.cursor b
    omega
  · rw [hnum] at h1
    change m < g.cursor b at h2
    have hold := hr.mark
    have hahead : g.number b.mark ≤ max n g.first := hq.ahead
    refine (hr.covered m (by omega) h2).imp_right fun hmem => ?_
    rcases mem_cons.mp hmem with rfl | hmem
    · omega
    · exact hmem

end Acks

end Pglens.DiskBuffer
