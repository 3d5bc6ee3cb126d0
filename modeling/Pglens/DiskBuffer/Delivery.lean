import Pglens.DiskBuffer.Runs

/-! Every accepted record is acknowledged, counted as dropped, or still stored, and Next hands out
every stored record that is not acknowledged, in order. One lemma per operation keeps the invariant,
wherever an exit cuts the operation. -/
namespace Pglens.DiskBuffer
open Pglens.Lib List Option
open Buffer (OpenArgs opened openDir)

section Riders
variable {p : Session} {h₀ : List (List UInt8)}

/-- What rides along with a session while its log is `h₀`. -/
def Rider (p : Session) (h₀ : List (List UInt8)) (b : Buffer) (g : Ghost) : Prop :=
  Full p b g ∧ g.history=h₀ ∧ p.Sound

lemma rider_rides (p : Session) (h₀ : List (List UInt8)) : Rides 0 (Rider p h₀) where
  used h hx := ⟨⟨(Reads.rides 0 p.pending).used h hx.1.reads,
    (Tally.rides 0 p.openedMark p.ackedHere).used h hx.1.tally,hx.1.behind,hx.1.kept,hx.1.acked⟩,
    hx.2⟩
  created {b d g} now h hx := by
    refine ⟨⟨hx.1.reads.created h now,hx.1.tally.created now,fun n hn => ?_,
      hx.1.kept.create _,hx.1.acked⟩,(history_create g _).trans hx.2.1,hx.2.2⟩
    rw [hx.1.reads.cursor_created h now]
    exact hx.1.behind n hn
  removed {b d g s ss} reason h hx hss hnone := by
    have hcursor := cursor_removed h hss reason
    have hkept := hx.1.kept.removed h hx.1.tally hss fun hr => (hnone hr).2
    refine ⟨⟨hx.1.reads.removed h hss reason,hx.1.tally.removed h hss reason fun hr => (hnone hr).2,
      fun n hn => ?_,hkept,(h.acked_removed hss reason).trans hx.1.acked⟩,
      (h.history_removed hss reason).trans hx.2.1,hx.2.2⟩
    have := hx.1.behind n hn
    rw [hcursor]
    omega

lemma rider_extends {data : List UInt8} (hlt : data.length < maxRecord) :
    Extends 0 data (Rider p h₀) (Rider p (h₀++[frame data])) := by
  intro b d g ss s ls l now h hx hss hsegs
  have hs := h.disk.stored.sorted
  have hf := frame_complete (hlt.trans maxRecord_lt)
  refine ⟨⟨hx.1.reads.appended h hss hsegs hlt now,hx.1.tally.appended h hss hsegs hlt now,
    fun n hn => ?_,hx.1.kept.write hs hsegs hf,?_⟩,?_,hx.2.2⟩
  · rw [hx.1.reads.cursor_appended h hss hsegs hlt now]
    exact hx.1.behind n hn
  · rw [apply_write hs hsegs hf]
    exact hx.1.acked
  · rw [history_write hs hsegs hf,hx.2.1]

end Riders

/-- What is left of a log that was `base`: the accepted records are behind it, and `K` is so of it. -/
def Left (k : ℕ) (base : List (List UInt8)) (K : Ghost → Prop) (accepted : List (List UInt8))
    (d : Disk) (g : Ghost) : Prop :=
  OnDisk k d g ∧ K g ∧ g.history = base++accepted.map frame

abbrev Leaves : List (List UInt8) → Disk → Ghost → Prop := Left 0 [] Kept

abbrev Sys.Inv : Sys → Prop := Sys.Keeps Leaves Live

/-- What a process carries through its calls: `X` rides along with a session while the log is the
given one, and `V` is what it says of the session. -/
structure Carrier (k : ℕ) (K : Ghost → Prop)
    (X : Session → List (List UInt8) → Buffer → Ghost → Prop) (V : Session → Disk → Ghost → Prop) :
    Prop where
  rides : ∀ p h, Rides k (X p h)
  grows : ∀ {p h data}, data.length < maxRecord → Extends k data (X p h) (X p (h++[frame data]))
  held : ∀ {p d g}, V p d g → Holds k (X p g.history) p.buf d g
  kept : ∀ {p h b d g}, Holds k (X p h) b d g → K g ∧ g.history=h ∧ V { p with buf := b } d g
  acked : ∀ {p d g hd n rest}, V p d g → p.pending = (hd,n)::rest →
    Holds k (X (p.acks g n rest p.buf) g.history) (p.buf.marked hd) d (g.ack n)
  next : ∀ {p d g}, V p d g → V (p.handOut g (p.buf.next d)) d g
  rewind : ∀ {p d g}, V p d g → V p.rewound d g

section Ops
variable {h₀ : List (List UInt8)} {g : Ghost} {data : List UInt8}

def Effect.whole : Effect → Option (List UInt8)
  | .write _ bytes => if recordLen bytes = some bytes.length then some bytes else none
  | _ => none

lemma written_foldl (es : List Effect) (g : Ghost) :
    (es.foldl Ghost.apply g).written = g.written++es.filterMap Effect.whole := by
  induction es generalizing g with
  | nil => simp
  | cons e es ih =>
    rw [foldl_cons,ih,filterMap_cons]
    cases e with
    | write id bytes =>
      simp only [Ghost.apply,Effect.whole]
      split_ifs <;> simp
    | remove id reason =>
      simp only [Ghost.apply,Effect.whole]
      split
      · rfl
      · split_ifs <;> rfl
    | create id => rfl
    | truncate id size => rfl
    | saveAcked bytes => rfl
    | removeAcked => rfl

lemma mem_whole_iff {f : List UInt8} (hf : records.Complete f) (es : List Effect) :
    f ∈ es.filterMap Effect.whole ↔ es.any (Effect.writes f) = true := by
  have hlen : recordLen f = some f.length := hf
  rw [mem_filterMap,List.any_eq_true]
  refine exists_congr fun e => and_congr_right fun _ => ?_
  cases e with
  | write id bytes =>
    simp only [Effect.whole,Effect.writes,beq_iff_eq]
    constructor
    · intro h
      split_ifs at h
      exact some.inj h
    · rintro rfl
      rw [if_pos hlen]
  | _ => simp [Effect.whole,Effect.writes]

lemma history_of_cut (hlt : data.length < maxRecord)
    {cs : List Effect} {g' : Ghost} (hg : g.written=h₀) (hg' : g'=cs.foldl Ghost.apply g)
    (hw : g'.history=g'.written) (hor : g'.history=h₀ ∨ g'.history=h₀++[frame data]) :
    g'.history = h₀++(if cs.any (Effect.writes (frame data)) then [data] else []).map frame := by
  have hmem := mem_whole_iff (frame_complete (hlt.trans maxRecord_lt)) cs
  rw [hw,hg',written_foldl,hg] at hor
  rw [hw,hg',written_foldl,hg]
  congr 1
  rcases hor with hnil | hone
  · have hL : cs.filterMap Effect.whole = [] := by simpa using hnil
    rw [hL] at hmem ⊢
    rw [if_neg (by rw [← hmem]; simp)]
    rfl
  · have hL : cs.filterMap Effect.whole = [frame data] := append_cancel_left hone
    rw [hL] at hmem ⊢
    rw [if_pos (by rw [← hmem]; simp)]
    rfl

namespace Carrier
variable {k : ℕ} {base : List (List UInt8)} {K : Ghost → Prop}
  {X : Session → List (List UInt8) → Buffer → Ghost → Prop} {V : Session → Disk → Ghost → Prop}
  (hc : Carrier k K X V)
include hc

lemma left {p : Session} {accepted : List (List UInt8)} {b : Buffer} {d : Disk}
    (h : Holds k (X p (base++accepted.map frame)) b d g) : Left k base K accepted d g :=
  ⟨h.1.disk,(hc.kept h).1,(hc.kept h).2.1⟩

variable {x : Sys} (hx : x.Keeps (Left k base K) V) {p : Session} (hp : p∈x.session) {o : Outcome}
  {saveFails : Bool}
include hx hp

lemma holds : Holds k (X p (base++x.accepted.map frame)) p.buf x.disk x.log :=
  hx.crashed.2.2 ▸ hc.held (hx.live p hp)

lemma good_append {faults : Buffer.AppendFaults} {clock : Buffer.Readings}
    (hproper : (Op.append data faults clock).Proper)
    (hbounded : x.Bounded (.append data faults clock))
    (ho : x.act (.append data faults clock) = some o) :
    Good (Left k base K) V x (.append data faults clock) o := by
  obtain ⟨hlt,hnext⟩ := hbounded
  have hsnoc : base++(x.accepted++[data]).map frame = base++x.accepted.map frame++[frame data] := by
    simp
  have htriple := append_triple
    (C := fun d g => Left k base K x.accepted d g ∨ Left k base K (x.accepted++[data]) d g)
    (hc.rides p _) (hc.rides p _) (fun b d g h => .inl (hc.left h))
    (fun b d g h => .inr (hc.left h)) (by rw [hsnoc]; exact hc.grows hlt) hlt (hnext p hp) hproper
    clock x.disk x.log (hc.holds hx hp)
  rw [Sys.act,mem_def.mp hp,map_some,some_inj] at ho
  subst ho
  obtain ⟨hcut,hdone⟩ := htriple
  have hwritten : x.log.written = base++x.accepted.map frame :=
    hx.crashed.1.written.symm.trans hx.crashed.2.2
  refine ⟨fun cs hcs => ?_,?_,fun q hq => ?_⟩
  · have hleft := hcut cs hcs
    have hdisk : OnDisk k (device.run x.disk cs) (cs.foldl Ghost.apply x.log) :=
      hleft.elim (fun h => h.1) fun h => h.1
    refine ⟨hdisk,hleft.elim (fun h => h.2.1) fun h => h.2.1,?_⟩
    rw [map_append,← append_assoc]
    exact history_of_cut hlt hwritten rfl hdisk.written
      (hleft.imp (fun h => h.2.2) fun h => h.2.2.trans hsnoc)
  · simp only
    split_ifs at hdone ⊢ with hok
    · exact hc.left hdone
    · rw [append_nil]
      exact hc.left hdone
  · cases hq
    split_ifs at hdone with hok
    · exact (hc.kept hdone).2.2
    · exact (hc.kept hdone).2.2

lemma good_close (ho : x.act (.close saveFails) = some o) :
    Good (Left k base K) V x (.close saveFails) o := by
  have htriple := saveAckedPosition_triple (C := Left k base K x.accepted)
    (fun b d g h => hc.left h) p.buf saveFails x.disk x.log (hc.holds hx hp)
  rw [Sys.act,mem_def.mp hp,map_some,some_inj] at ho
  subst ho
  refine ⟨fun cs hcs => ?_,?_,fun q hq => by cases hq⟩
  · simpa [Op.acceptedBy] using htriple.1 cs hcs
  · rw [append_nil]
    exact hc.left htriple.2

lemma good_ack (ho : x.act (.ack saveFails) = some o) :
    Good (Left k base K) V x (.ack saveFails) o := by
  obtain ⟨hd,n,rest,hpend,rfl⟩ := act_ack hp ho
  have hholds := hc.acked (hx.live p hp) hpend
  rw [hx.crashed.2.2] at hholds
  obtain ⟨hcut,hdone⟩ := Prog.Triple.bind (C := Left k base K x.accepted)
    (dropAckedSegments_triple (hc.rides _ _) (fun b d g h => hc.left h) _)
    (fun b => Prog.Triple.bind (saveAckedPosition_triple (fun b d g h => hc.left h) b saveFails)
      fun _ => Prog.Triple.pure (a := b) fun d g h => ⟨hc.left h,h⟩)
    x.disk (x.log.ack n) hholds
  refine ⟨fun cs hcs => ?_,?_,fun q hq => ?_⟩
  · simpa [Op.acceptedBy] using hcut cs hcs
  · rw [append_nil]
    exact hc.left hdone
  · cases hq
    exact (hc.kept hdone).2.2

omit hp in
lemma good_of_act {op : Op} (hop : op.opens=false) (hproper : op.Proper) (hbounded : x.Bounded op)
    (ho : x.act op = some o) : Good (Left k base K) V x op o := by
  obtain ⟨p,hp⟩ := session_of_act hop ho
  cases op with
  | openDir args => cases hop
  | append data faults clock => exact hc.good_append hx hp hproper hbounded ho
  | next =>
    rw [Sys.act,mem_def.mp hp,map_some,some_inj] at ho
    subst ho
    refine Good.silent hx rfl fun q hq => ?_
    cases hq
    exact hc.next (hx.live p hp)
  | ack saveFails => exact hc.good_ack hx hp ho
  | rewind =>
    rw [Sys.act,mem_def.mp hp,map_some,some_inj] at ho
    subst ho
    refine Good.silent hx rfl fun q hq => ?_
    cases hq
    exact hc.rewind (hx.live p hp)
  | close saveFails => exact hc.good_close hx hp ho

end Carrier

lemma Reads.found_number {k : ℕ} {pending : List (Handle × ℕ)} {b : Buffer} {hd : Handle} {n : ℕ}
    (hr : Reads k (pending++[(hd,n)]) b g) (hle : g.first≤n) :
    g.number (hd.segID,hd.nextOff)-1 = n := by
  have := (hr.handed (hd,n) (by simp)).number
  simp only at this
  omega

section Live
variable {p : Session} {d : Disk}

lemma Live.rewind (hl : Live p d g) : Live p.rewound d g := by
  obtain ⟨h1,h2,h3,h4⟩ := hl.agree.rewind
  exact ⟨h1,⟨h2,hl.full.tally.moved h4,by simp [Session.rewound],hl.full.kept,hl.full.acked⟩,
    ⟨by simp [Session.rewound],by simp [Session.rewound],hl.sound.earlier,hl.sound.lost⟩⟩

lemma Live.next (hl : Live p d g) : Live (p.handOut g (p.buf.next d)) d g := by
  obtain ⟨n,hsc⟩ := next_scans hl.agree (hl.full.reads.stands hl.agree)
  generalize p.buf.next d = r at hsc ⊢
  have hfirst := g.first_le_cursor p.buf
  have hfrom := hsc.from_cursor
  obtain ⟨res,b⟩ := r
  cases res with
  | none =>
    have hr := hl.full.reads.ended hl.agree hsc rfl
    obtain ⟨-,hcursor⟩ := hsc.ended rfl
    refine ⟨hl.agree.moved hsc.moved,⟨hr,hl.full.tally.moved hsc.moved,fun m hm => ?_,
      hl.full.kept,hl.full.acked⟩,
      ⟨hl.sound.pending,hl.sound.handed,hl.sound.earlier,hl.sound.lost⟩⟩
    have := hl.full.behind m hm
    simp only [Session.handOut] at hcursor ⊢
    omega
  | some found =>
    obtain ⟨env,hd⟩ := found
    have hr := hl.full.reads.found hl.agree hsc rfl
    obtain ⟨-,-,hcursor⟩ := hsc.found env hd rfl
    have hn := hr.found_number (by omega)
    refine ⟨hl.agree.moved hsc.moved,⟨?_,hl.full.tally.moved hsc.moved,fun m hm => ?_,
      hl.full.kept,hl.full.acked⟩,⟨fun q hq => ?_,?_,hl.sound.earlier,hl.sound.lost⟩⟩
    · simp only [Session.handOut,hn]
      exact hr
    · simp only [Session.handOut,hn] at hm hcursor ⊢
      rcases mem_append.mp hm with hm | hm
      · have := hl.full.behind m hm
        omega
      · have := mem_singleton.mp hm
        omega
    · simp only [Session.handOut,hn] at hq ⊢
      rcases mem_append.mp hq with hq | hq
      · exact mem_append_left _ (hl.sound.pending q hq)
      · rw [mem_singleton.mp hq]
        simp
    · simp only [Session.handOut,hn,pairwise_append]
      refine ⟨hl.sound.handed,by simp,fun m hm i hi => ?_⟩
      rw [mem_singleton.mp hi]
      exact (hl.full.behind m hm).trans_le hfrom

lemma Live.acked (hl : Live p d g) {hd : Handle} {n : ℕ} {rest : List (Handle × ℕ)}
    (hpend : p.pending = (hd,n)::rest) :
    Holds 0 (Rider (p.acks g n rest p.buf) g.history) (p.buf.marked hd) d (g.ack n) := by
  have hr := hl.full.reads
  have hs := hl.sound
  rw [hpend] at hr
  have hlt : n < g.history.length :=
    (hr.handed (hd,n) (by simp)).behind.trans_le (g.cursor_le p.buf)
  refine ⟨hl.agree.ack hr,⟨hr.ack,hl.full.tally.ack hr,hl.full.behind,
    hl.full.kept.ack hl.agree hr hlt,?_⟩,rfl,
    ⟨fun q hq => hs.pending q (by rw [hpend]; exact mem_cons_of_mem _ hq),hs.handed,hs.earlier,hs.lost⟩⟩
  simp only [Session.acks,Ghost.ack]
  split_ifs
  · rw [hl.full.acked,Finset.union_insert]
  · exact hl.full.acked

lemma live_carrier : Carrier 0 Kept Rider Live where
  rides := rider_rides
  grows := rider_extends
  held hl := ⟨hl.agree,hl.full,rfl,hl.sound⟩
  kept h := ⟨h.2.1.kept,h.2.2.1,h.1,⟨h.2.1.reads,h.2.1.tally,h.2.1.behind,h.2.1.kept,h.2.1.acked⟩,
    ⟨h.2.2.2.pending,h.2.2.2.handed,h.2.2.2.earlier,h.2.2.2.lost⟩⟩
  acked hl hpend := hl.acked hpend
  next := Live.next
  rewind := Live.rewind

end Live

end Ops

section Reopen
variable {d : Disk} {g : Ghost}

lemma number_zero (g : Ghost) : g.number (0,0) = g.first := by
  have hzero : ∀ l : Layout, l.before (0,0) = 0 := by
    intro l
    simp only [Layout.before,startsBefore_zero]
    split_ifs <;> simp_all
  rw [Ghost.number,map_congr_left fun l _ => hzero l]
  simp

lemma OnDisk.isRecord (hd : OnDisk 0 d g) {l : Layout} (hl : l∈g.segs) {f : List UInt8}
    (hf : f∈l.frames) : IsRecord f := by
  have hmem : f∈g.history := by
    rw [Ghost.history,mem_append,mem_flatMap]
    exact .inr ⟨l,hl,hf⟩
  obtain ⟨n,hn⟩ := mem_iff_getElem?.mp hmem
  exact hd.appended n f (Nat.zero_le n) hn

section Ran
variable (hd : OnDisk 0 d g) (hk : Kept g)
include hd hk

lemma loadedMark_mark : Mark 0 g d.loadedMark := by
  unfold Disk.loadedMark
  cases hc : d.checkpoint with
  | none =>
    refine ⟨⟨by simp,fun l hl _ => ⟨[],l.frames,rfl,by simp [hk.base l hl]⟩⟩,fun n h1 h2 => ?_⟩
    rw [getD_none,number_zero] at h2
    omega
  | some c => exact (hd.checkpoint c hc).2

lemma openable_of_run : Openable records.Stuck d g := by
  refine ⟨hd.stored,Framing.stuck_nil,fun t => Blank.of_stuck,fun c hc => (hd.checkpoint c hc).1,
    fun l hl => ?_,fun l hl hbase => absurd (hk.base l hl) hbase⟩
  unfold Disk.keep
  split_ifs with hid
  · have hb := (loadedMark_mark hd hk).boundary l hl hid
    have h1 := hb.le_size
    have h2 := (hd.stored.held l hl).size_le
    rwa [Nat.min_eq_left (by omega)]
  · exact ⟨[],l.frames,rfl,by simp [hk.base l hl]⟩

lemma opened_mark (args : OpenArgs) : (opened args d).mark = d.loadedMark ∨
      g.segs = [] ∧ (opened args d).mark = (0,0) := by
  have hmark := loadedMark_mark hd hk
  rcases ((openable_of_run hd hk).opens args).mark with h | h | ⟨⟨l,hl,-⟩,hall⟩ | ⟨l,hl,hid,hend,-⟩
  · exact .inl h
  · exact .inr h
  · -- a checkpoint is never past the last segment
    obtain ⟨last,hlast⟩ : ∃ last, last∈g.segs.getLast? := by
      cases hcase : g.segs.getLast? with
      | none =>
        rw [getLast?_eq_none_iff] at hcase
        rw [hcase] at hl
        cases hl
      | some last => exact ⟨last,rfl⟩
    have h1 := hmark.last last hlast
    have h2 := hall last (mem_of_getLast? hlast)
    omega
  · have := (hmark.boundary l hl hid).le_size
    omega

lemma opened_passed (args : OpenArgs) (n : ℕ)
    (h1 : g.first≤n) (h2 : n<g.number (opened args d).mark) : n<0 ∨ n∈g.acked := by
  rcases opened_mark hd hk args with h | ⟨-,h⟩
  · rw [h] at h2
    exact (loadedMark_mark hd hk).passed n h1 h2
  · rw [h,number_zero] at h2
    omega

lemma opened_count {l : Layout} (hl : l∈g.segs)
    (hid : l.id≠d.loadedMark.1) :
    (openSegment (d.content l.id) (d.keep l.id)).recordCount = l.frames.length := by
  obtain ⟨fs,gs,hframes,hstart,hopen⟩ := (openable_of_run hd hk).walk_file hl
  have hfs : ∀ f∈fs, records.Complete f :=
    fun f hf => (hd.isRecord hl (by rw [hframes]; simp [hf])).complete
  have hlen := Framing.length_le_flatten hfs
  rw [Disk.keep,if_neg hid,Nat.zero_min] at hstart
  obtain rfl : fs=[] := eq_nil_of_length_eq_zero (by omega)
  rw [hopen,hframes,nil_append]
  exact countP_eq_length.mpr fun f hf =>
    (hd.isRecord hl (by rw [hframes]; exact hf)).hasPayload

lemma opened_tally (args : OpenArgs) :
    Tally (g.number (opened args d).mark) ∅ (opened args d) g := by
  have ho := openable_of_run hd hk
  have hopens := ho.opens args
  refine ⟨le_rfl,by simp,fun n h1 h2 h3 => by omega,?_,?_⟩
  · have hpairs := (forall₂_and_left (p := (· ∈ (opened args d).segments)) _ _).mpr
      ⟨fun _ hs => hs,((forall₂_and_left (p := (· ∈ g.segs)) _ _).mpr
        ⟨fun _ hl => hl,hopens.fits.flip⟩).flip⟩
    refine hpairs.imp fun s l hp hlt => ?_
    obtain ⟨hs,hl,hfit⟩ := hp
    rw [hopens.counts s hs,hfit.id]
    refine opened_count hd hk hl ?_
    rcases opened_mark hd hk args with h | ⟨hnil,-⟩
    · rw [← h]
      exact hlt.ne'
    · rw [hnil] at hl
      cases hl
  · have hle := g.first_le_number (opened args d).mark
    rw [Finset.Ico_eq_empty (by omega)]
    simp [Stats.dropped,hopens.dropped]

end Ran

/-- What rides along while Open runs: beside the accounts, the checkpoint in force. -/
structure Starting (args : OpenArgs) (d : Disk) (g : Ghost) (b : Buffer) (g' : Ghost) :
    Prop where
  tally : Tally (g.number b.mark) ∅ b g'
  kept : Kept g'
  acked : g'.acked=g.acked
  history : g'.history=g.history
  mark : b.mark = (opened args d).mark

lemma Starting.rides (args : OpenArgs) (d : Disk) (g : Ghost) :
    Rides 0 (Starting args d g) := by
  refine ⟨fun h hx => ?_,fun {b _ g'} now h hx => ?_,fun {b d' g' s ss} reason h hx hss hnone => ?_⟩
  · exact ⟨(Tally.rides 0 _ ∅).used h hx.tally,hx.kept,hx.acked,hx.history,hx.mark⟩
  · exact ⟨hx.tally.created now,hx.kept.create _,hx.acked,(history_create g' _).trans hx.history,
      hx.mark⟩
  · have hunacked := fun hr => (hnone hr).2
    have hmark : (b.removed d' reason).mark = b.mark := by simp [Buffer.removed,hss,Buffer.mark]
    refine ⟨?_,hx.kept.removed h hx.tally hss hunacked,(h.acked_removed hss reason).trans hx.acked,
      (h.history_removed hss reason).trans hx.history,hmark.trans hx.mark⟩
    rw [hmark]
    exact hx.tally.removed h hss reason hunacked

lemma Starting.moved {args : OpenArgs} {d : Disk} {g : Ghost} {b b' : Buffer} {g' : Ghost}
    (hm : b.Moved b') (h : Starting args d g b g') : Starting args d g b' g' := by
  have htally := h.tally.moved hm
  obtain ⟨i,off,n,rfl⟩ := hm
  exact ⟨htally,h.kept,h.acked,h.history,h.mark⟩

lemma openDir_spec {accepted : List (List UInt8)} (hc : Leaves accepted d g) (args : OpenArgs) :
    (∀ cs, device.Cut (openDir args d).2 cs →
      Leaves accepted (device.run d cs) (cs.foldl Ghost.apply g)) ∧
    ∀ b, (openDir args d).1 = some b →
      Agree 0 b (device.run d (openDir args d).2)
        ((openDir args d).2.foldl Ghost.apply g) ∧
      Starting args d g b ((openDir args d).2.foldl Ghost.apply g) ∧
      Reads 0 [] b ((openDir args d).2.foldl Ghost.apply g) := by
  obtain ⟨hd,hk,hh⟩ := hc
  obtain ⟨hcut,hdone⟩ := openDir_triple (C := Leaves accepted) (openable_of_run hd hk) args
    ⟨hd.written,hd.appended⟩ (opened_passed hd hk args) (Starting.rides args d g) Starting.moved
    ⟨opened_tally hd hk args,hk,rfl,rfl,rfl⟩
    (fun d' hs ha => ⟨⟨hs,hd.written,hd.appended,fun c hc => hd.checkpoint c (by
      rwa [Disk.checkpoint,ha] at hc)⟩,hk,hh⟩)
    (fun b d' g' h' => ⟨h'.1.disk,h'.2.kept,h'.2.history.trans hh⟩) d g ⟨rfl,rfl⟩
  refine ⟨hcut,fun b hb => ?_⟩
  rw [hb] at hdone
  exact ⟨hdone.1.1,hdone.1.2,hdone.2.1⟩

end Reopen

variable {x : Sys} {o : Outcome}

lemma good_open (hx : x.Inv) {args : OpenArgs}
    (ho : x.act (.openDir args)=some o) : Good Leaves Live x (.openDir args) o := by
  obtain ⟨hcut,hdone⟩ := openDir_spec hx.crashed args
  obtain ⟨hd,hk,-⟩ := hx.crashed
  cases hsess : x.session with
  | some p => simp [Sys.act,hsess] at ho
  | none =>
    simp only [Sys.act,hsess,some_inj] at ho
    subst ho
    refine ⟨fun cs hcs => ?_,?_,fun p hp => ?_⟩
    · simpa [Op.acceptedBy] using hcut cs hcs
    · rw [append_nil]
      exact hcut _ (Device.Cut.all _)
    · obtain ⟨b,hb,rfl⟩ := map_eq_some_iff.mp hp
      obtain ⟨hagree,hstart,hreads⟩ := hdone b hb
      have hpassed := opened_passed hd hk args
      rw [← hstart.mark] at hpassed
      have hle := x.log.first_le_number b.mark
      refine ⟨hagree,⟨hreads,hstart.tally,by simp [Session.opened],hstart.kept,?_⟩,
        ⟨by simp [Session.opened],by simp [Session.opened],fun n hn => ?_,fun n hn => ?_⟩⟩
      · simp only [Session.opened,Finset.union_empty]
        exact hstart.acked
      · simp only [Session.opened] at hn ⊢
        rw [hk.lost]
        rcases Nat.lt_or_ge n x.log.first with hlt | hge
        · by_cases hin : n∈x.log.acked
          · exact .inr hin
          · exact .inl ⟨hlt,hin⟩
        · exact .inr ((hpassed n hge hn).resolve_left (Nat.not_lt_zero n))
      · simp only [Session.opened] at hn ⊢
        rw [hk.lost] at hn
        omega

lemma start_inv : Sys.start.Inv := by
  refine ⟨⟨⟨⟨by simp [Sys.start,Ghost.Sorted],by simp [Sys.start],by simp [Sys.start],
    by simp [Sys.start]⟩,rfl,by simp [Sys.start,Ghost.history],fun c hc => by cases hc⟩,
    ⟨by simp [Sys.start],by simp [Sys.start,Ghost.first],by simp [Sys.start],by simp [Sys.start]⟩,
    rfl⟩,fun p hp => by cases hp⟩

lemma good_of_act (hx : x.Inv) {op : Op} (hproper : op.Proper) (hbounded : x.Bounded op)
    (ho : x.act op = some o) : Good Leaves Live x op o := by
  cases hop : op.opens with
  | false => exact live_carrier.good_of_act hx hop hproper hbounded ho
  | true =>
    cases op with
    | openDir args => exact good_open hx ho
    | _ => cases hop

lemma inv_step {y : Sys} {ev : Event} (hx : x.Inv) (h : x.BoundedStep ev y) : y.Inv :=
  h.1.keeps fun _ ho => good_of_act hx h.2.1 h.2.2 ho

lemma inv_run {evs : List Event} (h : Run Sys.BoundedStep Sys.start evs x) : x.Inv :=
  h.invariant (fun _ _ _ hx hs => inv_step hx hs) start_inv

end Pglens.DiskBuffer
