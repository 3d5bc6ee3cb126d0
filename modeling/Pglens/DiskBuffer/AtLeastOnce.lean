import Pglens.DiskBuffer.Delivery

/-! What the invariants of a run say to the caller: every accepted record is acknowledged, counted
as dropped or still stored, and Next returns the stored records that are not acknowledged. A record
of 2^32-8 bytes is accepted and never returned. -/
namespace Pglens.DiskBuffer
open Pglens.Lib List Option Prog Finset Nat
open Buffer (openDir OpenArgs removeWhile initial)

def Sys.Waits (x : Sys) (n : ℕ) : Prop := x.log.first ≤ n ∧ n ∉ x.log.acked

/-- Acknowledged while stored, removed by a retention policy before that, or stored and
not acknowledged: exactly one of them. -/
def Sys.Classified (x : Sys) (n : ℕ) : Prop :=
  n ∈ x.log.acked ∧ n ∉ x.log.lost ∧ ¬x.Waits n ∨
  n ∉ x.log.acked ∧ n∈x.log.lost ∧ ¬x.Waits n ∨
  n ∉ x.log.acked ∧ n ∉ x.log.lost ∧ x.Waits n

def Sys.OnFile (x : Sys) (data : List UInt8) : Prop :=
  ∃ id pre post, x.disk.files.get id = some (pre++(frame data++post))

/-- What the process counts as dropped is a set of records: all those lost since it opened
the directory, and beside them only records acknowledged before it did. -/
def Session.Counts (p : Session) (g : Ghost) : Prop :=
  ∃ counted : Finset ℕ, p.buf.stats.dropped=counted.card ∧
    (∀ n∈g.lost, n ∉ p.lostBefore → n∈counted) ∧
    ∀ n∈counted, n<g.first ∧ n ∉ p.lostBefore ∧ (n∈g.lost ∨ n∈p.ackedBefore)

/-- What the next call of Next returns: the first record stored that is neither acknowledged nor
handed out since the last Rewind or Open; after an unclean exit it may be one acknowledged behind
the checkpoint Open read, and then so are all before it. At the end of the file no such record is
left. -/
def Session.HandsOut (p : Session) (x : Sys) : Prop :=
  match (p.buf.next x.disk).1 with
  | some (env,hd) => ∃ n, x.accepted[n]? = some env ∧ x.log.number (hd.segID,hd.nextOff) = n+1 ∧
      x.log.first ≤ n ∧ (∀ m∈p.handed, m<n) ∧
      (∀ m<n, x.Waits m → m∈p.handed) ∧
      (n∈x.log.acked → n∈p.ackedBefore ∧ p.openedMark≤n ∧
        ∀ m<n, x.log.first ≤ m → m∈x.log.acked)
  | none => ∀ m<x.accepted.length, x.Waits m → m∈p.handed

/-- An Open of the directory as it is now starts at the checkpoint last saved. -/
def Sys.ReopensAt (x : Sys) : Prop :=
  ∀ args b, (openDir args x.disk).1 = some b →
    x.log.number b.mark = x.log.number x.disk.loadedMark

/-- The checkpoint the process saves is read back as it is, and has passed every record the
process acknowledged. -/
def Session.Saves (p : Session) (x : Sys) : Prop :=
  (device.run x.disk (p.buf.saveAckedPosition false x.disk).2).loadedMark = p.buf.mark ∧
  ∀ n∈p.ackedHere, n < x.log.number p.buf.mark

section Delivery
variable {x : Sys} {p : Session}

lemma Sys.Inv.classified (hx : x.Inv) (n : ℕ) : x.Classified n := by
  have hlost := hx.crashed.2.1.lost n
  unfold Sys.Classified Sys.Waits
  by_cases hacked : n∈x.log.acked
  · exact .inl ⟨hacked,fun hl => (hlost.mp hl).2 hacked,fun hw => hw.2 hacked⟩
  · by_cases hlt : n<x.log.first
    · exact .inr (.inl ⟨hacked,hlost.mpr ⟨hlt,hacked⟩,fun hw => by omega⟩)
    · exact .inr (.inr ⟨hacked,fun hl => hlt (hlost.mp hl).1,by omega,hacked⟩)

lemma Sys.Inv.onFile (hx : x.Inv) {n : ℕ} {data : List UInt8} (hn : x.log.first≤n)
    (hdata : x.accepted[n]?=some data) : x.OnFile data := by
  obtain ⟨hd,-,hh⟩ := hx.crashed
  rw [nil_append] at hh
  have hf : x.log.history[n]? = some (frame data) := by
    rw [hh,getElem?_map,hdata]
    rfl
  rw [Ghost.history,getElem?_append_right (by exact hn)] at hf
  obtain ⟨l,hl,hmem⟩ := mem_flatMap.mp (mem_of_getElem? hf)
  obtain ⟨fs,gs,hframes⟩ := append_of_mem hmem
  obtain ⟨pre,tail,-,hfile,-⟩ := hd.stored.held l hl
  have hsome := (hd.stored.keys l.id).mpr ⟨l,hl,rfl⟩
  obtain ⟨content,hget⟩ := isSome_iff_exists.mp hsome
  rw [Disk.content,hget,getD_some] at hfile
  refine ⟨l.id,pre++fs.flatten,gs.flatten++tail,?_⟩
  rw [hget,hfile,hframes]
  simp [append_assoc]

lemma Sys.Inv.reopensAt (hx : x.Inv) : x.ReopensAt := by
  intro args b hb
  obtain ⟨hd,hk,-⟩ := hx.crashed
  rw [((openDir_spec hx.crashed args).2 b hb).2.1.mark]
  rcases opened_mark hd hk args with h | ⟨hnil,h⟩
  · rw [h]
  · simp [Ghost.number,hnil]

lemma Live.saves (hl : Live p x.disk x.log) : p.Saves x := by
  refine ⟨?_,fun n hn => (hl.full.tally.acked n hn).2⟩
  have hbelow := hl.agree.below
  have hcounter := hl.agree.counter
  unfold Below Buffer.mark at hbelow
  change (x.disk.apply (.saveAcked _)).loadedMark = _
  rw [Disk.loadedMark,checkpoint_saveAcked x.disk (by omega) (by omega)]
  rfl

lemma Live.counts (hl : Live p x.disk x.log) : p.Counts x.log := by
  have hlost := hl.full.kept.lost
  have hacked : ∀ n, n∈x.log.acked ↔ n∈p.ackedBefore ∨ n∈p.ackedHere := by
    intro n
    rw [hl.full.acked,mem_union]
  refine ⟨Finset.Ico p.openedMark x.log.first \ p.ackedHere,hl.full.tally.total,fun n hn hnew => ?_,
    fun n hn => ?_⟩
  · obtain ⟨hlt,hnot⟩ := (hlost n).mp hn
    rw [hacked,not_or] at hnot
    rw [mem_sdiff,mem_Ico]
    refine ⟨⟨?_,hlt⟩,hnot.2⟩
    by_contra hge
    exact (hl.sound.earlier n (by omega)).elim hnew hnot.1
  · rw [mem_sdiff,mem_Ico] at hn
    refine ⟨hn.1.2,fun hold => ?_,?_⟩
    · have := hl.sound.lost n hold
      omega
    · by_cases hin : n∈x.log.acked
      · exact .inr (((hacked n).mp hin).resolve_right hn.2)
      · exact .inl ((hlost n).mpr ⟨hn.1.2,hin⟩)

lemma Live.seen (hl : Live p x.disk x.log) {m : ℕ} (hm : m<x.log.cursor p.buf)
    (hw : x.Waits m) : m∈p.handed := by
  rcases lt_or_ge m (x.log.number p.buf.mark) with hlt | hge
  · exact absurd ((hl.agree.mark.passed m hw.1 hlt).resolve_left (not_lt_zero m)) hw.2
  · obtain ⟨q,hq,rfl⟩ := List.mem_map.mp
      ((hl.full.reads.covered m hge hm).resolve_left (not_lt_zero m))
    exact hl.sound.pending q hq

lemma Scans.at_cursor {b : Buffer} {d : Disk} {g : Ghost}
    {r : Option (List UInt8 × Handle) × Buffer} {n : ℕ} (hsc : Scans b g r n) (hd : OnDisk 0 d g)
    (hle : n≤g.history.length) : n = g.cursor b := by
  by_contra hne
  have hfrom := hsc.from_cursor
  exact hd.payload_isSome (zero_le _) (n := g.cursor b) (by omega)
    (hsc.skipped _ le_rfl (by omega))

lemma Live.handsOut (hx : x.Inv) (hp : p∈x.session) : p.HandsOut x := by
  have hl := hx.live p hp
  obtain ⟨hd,hk,hh⟩ := hx.crashed
  rw [nil_append] at hh
  obtain ⟨n,hsc⟩ := next_scans hl.agree (hl.full.reads.stands hl.agree)
  have hlen : x.log.history.length=x.accepted.length := by rw [hh,length_map]
  have hfirst := x.log.first_le_cursor p.buf
  unfold Session.HandsOut
  generalize p.buf.next x.disk = r at hsc ⊢
  obtain ⟨res,b⟩ := r
  cases res with
  | none =>
    obtain ⟨hn,-⟩ := hsc.ended rfl
    have hcur := hsc.at_cursor hd hn.le
    exact fun m hm hw => hl.seen (by omega) hw
  | some found =>
    obtain ⟨env,hdl⟩ := found
    obtain ⟨hpay,hpos,hcursor⟩ := hsc.found env hdl rfl
    obtain ⟨f,hf,henv⟩ := bind_eq_some_iff.mp hpay
    have hcur := hsc.at_cursor hd (List.getElem?_eq_some_iff.mp hf).1.le
    obtain ⟨data,hpos',-,rfl⟩ := hd.appended n f (zero_le n) hf
    rw [payload_frame hpos',some_inj] at henv
    subst henv
    have hdata : x.accepted[n]? = some data := by
      rw [hh,getElem?_map] at hf
      obtain ⟨data',hdata',heq⟩ := map_eq_some_iff.mp hf
      rw [hdata',frame_injective heq]
    refine ⟨n,hdata,?_,by omega,fun m hm => ?_,fun m hm hw => hl.seen (by omega) hw,fun hin => ?_⟩
    · rw [Ghost.cursor,hpos] at hcursor
      exact hcursor
    · have := hl.full.behind m hm
      omega
    · have hmark := hl.full.reads.mark
      have hstart := hl.full.tally.start
      refine ⟨?_,by omega,hk.closed n hin⟩
      rw [hl.full.acked,mem_union] at hin
      refine hin.resolve_right fun hhere => ?_
      have := (hl.full.tally.acked n hhere).2
      omega

end Delivery

/-- At-least-once delivery, in every state of every run whose records stay below 2^32-8
bytes and whose segment ids stay below 2^32. -/
theorem delivered_at_least_once {evs : List Event} {x : Sys}
    (h : Run Sys.BoundedStep Sys.start evs x) :
    (∀ n<x.accepted.length, x.Classified n) ∧
    (∀ n data, x.log.first≤n → x.accepted[n]?=some data → x.OnFile data) ∧
    x.ReopensAt ∧ ∀ p∈x.session, p.Counts x.log ∧ p.HandsOut x ∧ p.Saves x := by
  have hx := inv_run h
  exact ⟨fun n _ => hx.classified n,fun n data hn hdata => hx.onFile hn hdata,hx.reopensAt,
    fun p hp => ⟨(hx.live p hp).counts,Live.handsOut hx hp,(hx.live p hp).saves⟩⟩

section Reopened

instance (op : Op) : Decidable op.Proper := by
  cases op <;> unfold Op.Proper <;> infer_instance

instance (x : Sys) (op : Op) : Decidable (x.Bounded op) := by
  cases op <;> unfold Sys.Bounded <;> infer_instance

/-- The bounded step of an event, with an exit before the first effect. -/
def Sys.follow (x : Sys) (ev : Event) : Option Sys :=
  if ev.op.Proper ∧ x.Bounded ev.op then
    match ev with
    | .done op => (x.act op).map fun o => ⟨device.run x.disk o.effects,
        o.effects.foldl Ghost.apply o.log,x.accepted++o.accepted,o.session⟩
    | .exit op => (x.act op).map fun o => ⟨x.disk,o.log,x.accepted++op.acceptedBy [],none⟩
  else none

lemma follow_bounded {x y : Sys} {ev : Event} (h : x.follow ev=some y) : x.BoundedStep ev y := by
  unfold Sys.follow at h
  split_ifs at h with hb
  refine ⟨?_,hb⟩
  cases ev with
  | done op =>
    obtain ⟨o,ho,rfl⟩ := map_eq_some_iff.mp h
    exact .done ho
  | exit op =>
    obtain ⟨o,ho,rfl⟩ := map_eq_some_iff.mp h
    exact .exit ho (.stop _)

def reopening : List Event :=
  let args : OpenArgs := ⟨⟨0,0⟩,fun _ => ⟨0,0⟩,⟨0,0⟩,false,false⟩
  let clock : Buffer.Readings := ⟨⟨0,0⟩,⟨0,0⟩,⟨0,0⟩,⟨0,0⟩,⟨0,0⟩⟩
  [.done (.openDir args),.done (.append [1] {} clock),.done (.append [2] {} clock),.done .next,
    .done (.ack false),.exit (.append [3] {} clock),.done (.openDir args),.done .next]

/-- Two records are appended and the first acknowledged, the process exits in a third Append,
and the second Open goes on with the second record. -/
theorem delivered_at_least_once_reopened : ∃ x : Sys,
    Run Sys.BoundedStep Sys.start reopening x ∧
    (x.accepted,x.log.acked,x.session.map Session.handed) = ([[1],[2]],{0},some [1]) ∧
    (∀ n<x.accepted.length, x.Classified n) ∧
    (∀ n data, x.log.first≤n → x.accepted[n]?=some data → x.OnFile data) ∧
    x.ReopensAt ∧ ∀ p∈x.session, p.Counts x.log ∧ p.HandsOut x ∧ p.Saves x := by
  have hseen : (exec Sys.follow Sys.start reopening).map (fun x =>
      (x.accepted,x.log.acked,x.session.map Session.handed)) = some ([[1],[2]],{0},some [1]) := by
    decide +kernel
  obtain ⟨x,hx,hseen⟩ := map_eq_some_iff.mp hseen
  have hrun : Run Sys.BoundedStep Sys.start reopening x :=
    exec_run (fun _ _ _ => follow_bounded) hx
  exact ⟨x,hrun,hseen,delivered_at_least_once hrun⟩

end Reopened

lemma openDir_no_files {args : OpenArgs} {d : Disk} {b : Buffer} {es : List Effect}
    (hkeys : d.files.keys.sort (· ≤ ·)=[])
    (hb : ((args.start d).numberAboveCheckpoint
      d.checkpoint.isSome).correctCheckpoint=b) (hsegs : b.segments=[])
    (hsettle : b.settleCheckpoint d.loadedMark args.saveFails args.removeFails d=(true,es)) :
    openDir args d = (some b.rewind,es) := by
  have hstart : (args.start d).recalculateStats =
      args.start d := rfl
  have hstop : ∀ policy reason d', removeWhile policy reason b.segments.length b d' = (b,[]) := by
    intro policy reason d'
    rw [hsegs]
    rfl
  have hsettle' : b.settleCheckpoint ((args.start d).ackedSegID,
      (args.start d).ackedOff) args.saveFails args.removeFails
      (device.run d []) = (true,es) := hsettle
  rw [openDir,run_read_bind,hkeys,run_bind]
  simp only [Buffer.openSegments,run_pure,hstart,hb,nil_append]
  rw [run_bind,hsettle']
  simp only [Bool.not_true,Bool.false_eq_true,if_false]
  rw [run_bind,Buffer.dropAckedSegments,hstop]
  simp only
  rw [run_bind,Buffer.enforceMaxAge,hstop]
  simp only
  rw [run_bind,Buffer.enforceMaxSize,hstop]
  simp [run_pure]

lemma openDir_empty (args : OpenArgs) :
    openDir args Sys.start.disk = (some (initial args.opts.withDefaults none),[]) :=
  openDir_no_files (b := initial args.opts.withDefaults none)
    (by simp [Sys.start,FinMap.empty]) rfl rfl rfl

lemma act_start (args : OpenArgs) : Sys.start.act (.openDir args) = some
    ⟨some (Session.opened Sys.start.log (initial args.opts.withDefaults none)),
      Sys.start.log,[],[]⟩ := by
  change some (Outcome.mk ((openDir args Sys.start.disk).1.map _) _
    (openDir args Sys.start.disk).2 _) = _
  rw [openDir_empty]
  rfl

section Oversized
variable {data : List UInt8} (hlen : data.length=maxRecord) (now : Time)

def roomy (now : Time) : OpenArgs := ⟨⟨2^33,0⟩,fun _ => now,now,false,false⟩

def oversized (now : Time) : Buffer :=
  { initial (roomy now).opts.withDefaults none with
    segments := [⟨0,now,now,defaultSegmentSize,0,0⟩,⟨1,now,now,defaultSegmentSize,1,2^32⟩]
    nextSegID := 2
    stats := ⟨2^32,fun _ => 0,0,0⟩ }

def rolled (now : Time) : Buffer :=
  { initial (roomy now).opts.withDefaults none with
    segments := [⟨0,now,now,defaultSegmentSize,0,0⟩,⟨1,now,now,defaultSegmentSize,0,0⟩]
    nextSegID := 2 }

include hlen in
lemma activeSegment_oversized (d : Disk) :
    (initial (roomy now).opts.withDefaults none).activeSegment data.length {}
      ⟨now,now,now,now,now⟩ d = ((true,rolled now),[.create 0,.create 1]) := by
  have hroll : ∀ s : Segment, s.maxSize=defaultSegmentSize → s.fileSize=0 →
      s.wouldRoll data.length = true := by
    intro s hs hz
    simp [Segment.wouldRoll,hs,hlen,hz,maxRecord,defaultSegmentSize]
  have hsize : segmentSize (roomy now).opts.withDefaults.maxSize = defaultSegmentSize := by
    simp [segmentSize,roomy,Options.withDefaults,defaultSegmentSize]
  simp [Buffer.activeSegment,Buffer.firstSegment,Buffer.addSegment,Buffer.withSegment,
    run_bind,run_pure,Prog.perform,initial,hsize,hroll,rolled]

lemma removeWhile_stop {policy : Buffer → Disk → Bool} {b : Buffer} {d : Disk}
    (h : policy b d=false) (reason : Option Reason) (n : ℕ) :
    removeWhile policy reason n b d = (b,[]) := by
  cases n with
  | zero => rfl
  | succ n => rw [removeWhile_succ,h,if_neg Bool.false_ne_true]

include hlen in
lemma append_oversized : (initial (roomy now).opts.withDefaults none).append data {}
      ⟨now,now,now,now,now⟩ Sys.start.disk =
    ((true,oversized now),[.create 0,.create 1,.write 1 (frame data)]) := by
  have hne : data.isEmpty=false := by
    cases data with
    | nil => simp [maxRecord] at hlen
    | cons => rfl
  have hempty : ((device.run Sys.start.disk [.create 0,.create 1]).content 1).length = 0 := by
    simp [device,Device.run,Disk.apply,Disk.content]
  have hwrite := append_clean (s := ⟨1,now,now,defaultSegmentSize,0,0⟩) hempty data
  have hgrown : (rolled now).appended (Segment.grown ⟨1,now,now,defaultSegmentSize,0,0⟩ data)
      data.length now = oversized now := by
    simp [rolled,oversized,Buffer.appended,Segment.grown,hlen,maxRecord,initial]
  have hsize : ∀ d, (oversized now).enforceMaxSize d = (oversized now,[]) := fun d =>
    removeWhile_stop (by simp [oversized,initial,roomy,Options.withDefaults]) _ _
  have hage : ∀ d, (oversized now).enforceMaxAge now d = (oversized now,[]) := fun d =>
    removeWhile_stop (by
      simp only [oversized,Time.sub,sub_self,initial,roomy]
      decide) _ _
  have hlast : (rolled now).segments.getLast? = some ⟨1,now,now,defaultSegmentSize,0,0⟩ := rfl
  rw [Buffer.append,hne,if_neg Bool.false_ne_true]
  rw [run_bind,activeSegment_oversized hlen]
  simp only [Bool.not_true,Bool.false_eq_true,if_false,hlast]
  rw [run_bind,hwrite]
  simp only [hgrown]
  rw [run_bind,hsize]
  simp only
  rw [run_bind,hage]
  rfl

include hlen in
lemma readAt_oversized : (readAt (frame data) (2^32) 0).next = 0 := by
  have hhead : headerLength (frame data) = maxRecord := by
    rw [← hlen,← headerLength_frame (by rw [hlen]; decide) [],append_nil]
  have hsize : (frame data).length = 2^32 := by
    rw [length_frame,hlen]
    rfl
  simp only [readAt,drop_zero,hhead,hsize]
  split_ifs with h1 h2
  · rfl
  all_goals simp [maxRecord] at *

include hlen in
lemma next_oversized {d : Disk} (h0 : d.content 0=[]) (h1 : d.content 1=frame data) :
    ((oversized now).next d).1 = none := by
  have hread := readAt_oversized hlen
  rw [show 2^32=4294967296 from rfl] at hread
  have hfuel : ∃ n, (((oversized now).segments.map fun s => (d.content s.id).length).sum+
      (oversized now).segments.length+1) = n+2 := ⟨_,rfl⟩
  obtain ⟨n,hn⟩ := hfuel
  rw [Buffer.next,hn]
  have hfirst : readAt (d.content 0) 0 0 = ⟨none,0,true⟩ := by
    rw [h0]
    rfl
  simp [Buffer.nextLoop,oversized,initial,hfirst,h1,hread]

def fresh (now : Time) : Buffer := initial (roomy now).opts.withDefaults none

def oversizedRun (data : List UInt8) (now : Time) : List Event :=
  [.done (.openDir (roomy now)),.done (.append data {} ⟨now,now,now,now,now⟩)]

def oversizedSys (data : List UInt8) (now : Time) : Sys where
  disk := device.run Sys.start.disk [.create 0,.create 1,.write 1 (frame data)]
  log := [Effect.create 0,.create 1,.write 1 (frame data)].foldl Ghost.apply Sys.start.log
  accepted := [data]
  session := some { Session.opened Sys.start.log (fresh now) with buf := oversized now }

include hlen in
lemma run_oversized : Run (fun x ev y => x.Step ev y ∧ ev.op.Proper) Sys.start
    (oversizedRun data now) (oversizedSys data now) := by
  let x : Sys := { Sys.start with session := some (Session.opened Sys.start.log (fresh now)) }
  have hopen : Sys.start.Step (.done (.openDir (roomy now))) x := .done (act_start (roomy now))
  have hact : x.act (.append data {} ⟨now,now,now,now,now⟩) = some
      ⟨(oversizedSys data now).session,Sys.start.log,
        [.create 0,.create 1,.write 1 (frame data)],[data]⟩ := by
    change some (Outcome.mk (some (Session.mk ((fresh now).append data {} _ Sys.start.disk).1.2
      _ _ _ _ _ _)) _ ((fresh now).append data {} _ Sys.start.disk).2
      (if ((fresh now).append data {} _ Sys.start.disk).1.1 then [data] else [])) = _
    rw [fresh,append_oversized hlen]
    rfl
  refine .cons ⟨hopen,trivial⟩ (.cons ⟨.done hact,fun n hn => ?_⟩ (.nil _))
  simp at hn

lemma oversizedSys_waits : (oversizedSys data now).Waits 0 := by
  simp only [Sys.Waits,oversizedSys,foldl_cons,foldl_nil,Ghost.apply]
  split_ifs
  all_goals exact ⟨le_refl 0,notMem_empty 0⟩

include hlen in
lemma oversizedSys_next : ((oversized now).next (oversizedSys data now).disk).1 = none := by
  refine next_oversized hlen now ?_ ?_
  all_goals
    simp only [oversizedSys,device,Device.run,foldl_cons,foldl_nil,content_write,content_create]
    rfl

end Oversized

lemma exists_length (n : ℕ) : ∃ data : List UInt8, data.length=n :=
  ⟨List.replicate n 0,length_replicate⟩

/-- A record of 2^32-8 bytes is accepted and stored, and Next returns io.EOF. -/
theorem oversized_not_delivered : ∃ (data : List UInt8) (x : Sys) (p : Session),
    data.length = maxRecord ∧
    Run (fun x ev y => x.Step ev y ∧ ev.op.Proper) Sys.start (oversizedRun data ⟨0,0⟩) x ∧
    x.accepted = [data] ∧ x.Waits 0 ∧ p∈x.session ∧ p.handed=[] ∧
    (p.buf.next x.disk).1 = none ∧ ¬p.HandsOut x := by
  obtain ⟨data,hlen⟩ := exists_length maxRecord
  have hnext := oversizedSys_next hlen ⟨0,0⟩
  have hwaits : (oversizedSys data ⟨0,0⟩).Waits 0 := oversizedSys_waits ⟨0,0⟩
  refine ⟨data,oversizedSys data ⟨0,0⟩,_,hlen,run_oversized hlen ⟨0,0⟩,rfl,hwaits,rfl,rfl,hnext,
    fun h => ?_⟩
  unfold Session.HandsOut at h
  rw [hnext] at h
  exact not_mem_nil (h 0 one_pos hwaits)

end Pglens.DiskBuffer
