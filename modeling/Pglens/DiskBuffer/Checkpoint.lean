import Pglens.DiskBuffer.Found
import Pglens.DiskBuffer.AtLeastOnce
import Mathlib.Data.Prod.Lex

/-! A process opens a directory of unknown origin and works on it. The segments it creates are
numbered above everything it found, and no record it appended falls behind a checkpoint, in memory
or on disk, before it is acknowledged. -/
namespace Pglens.DiskBuffer
open Pglens.Lib List Option Prog Nat
open Buffer (OpenArgs openDir AppendFaults Readings initial)

def Sys.found (d : Disk) : Sys := ⟨d,d.log,[],none⟩

def Sys.WorkStep (x : Sys) (ev : Event) (y : Sys) : Prop :=
  x.BoundedStep ev y ∧ ev.op.opens=false

/-- New segments are numbered above the files and the checkpoint that were found. -/
structure Above (d₀ : Disk) (b : Buffer) : Prop where
  ids : ∀ id, (d₀.files.get id).isSome = true → id<b.nextSegID
  checkpoint : ∀ c∈d₀.checkpoint, c.1<b.nextSegID

section Work
variable {d₀ : Disk} {pending : List (Handle × ℕ)} {h : List (List UInt8)}

/-- What rides along with the process. The frames that were found are not accounted for. -/
structure Visit (d₀ : Disk) (pending : List (Handle × ℕ)) (h : List (List UInt8)) (b : Buffer)
    (g : Ghost) : Prop where
  reads : Reads d₀.log.history.length pending b g
  above : Above d₀ b
  history : g.history=h

abbrev LeftBy (d₀ : Disk) : List (List UInt8) → Disk → Ghost → Prop :=
  Left d₀.log.history.length d₀.log.history fun _ => True

def Visits (d₀ : Disk) (p : Session) (d : Disk) (g : Ghost) : Prop :=
  Agree d₀.log.history.length p.buf d g ∧ Reads d₀.log.history.length p.pending p.buf g ∧
    Above d₀ p.buf

variable {b : Buffer} {data : List UInt8}

lemma Above.mono {b' : Buffer} (ha : Above d₀ b) (hle : b.nextSegID≤b'.nextSegID) : Above d₀ b' :=
  ⟨fun id hid => (ha.ids id hid).trans_le hle,fun c hc => (ha.checkpoint c hc).trans_le hle⟩

lemma visit_rides (d₀ : Disk) (pending : List (Handle × ℕ)) (h : List (List UInt8)) :
    Rides d₀.log.history.length (Visit d₀ pending h) where
  used ha hx := ⟨(Reads.rides _ pending).used ha hx.reads,hx.above.mono (le_succ _),hx.history⟩
  created {b d g} now ha hx := ⟨hx.reads.created ha now,hx.above.mono (le_succ _),
    (history_create g _).trans hx.history⟩
  removed {b d g s ss} reason ha hx hss _ := by
    refine ⟨hx.reads.removed ha hss reason,hx.above.mono ?_,
      (ha.history_removed hss reason).trans hx.history⟩
    simp [Buffer.removed,hss]

lemma visit_extends (hlt : data.length < maxRecord) :
    Extends d₀.log.history.length data (Visit d₀ pending h) (Visit d₀ pending (h++[frame data])) := by
  intro b d g ss s ls l now ha hx hss hsegs
  refine ⟨hx.reads.appended ha hss hsegs hlt now,hx.above.mono le_rfl,?_⟩
  rw [history_write ha.disk.stored.sorted hsegs (frame_complete (hlt.trans maxRecord_lt)),hx.history]

variable {p : Session} {d : Disk} {g : Ghost}

lemma Visits.next (hv : Visits d₀ p d g) : Visits d₀ (p.handOut g (p.buf.next d)) d g := by
  obtain ⟨hagree,hreads,habove⟩ := hv
  obtain ⟨n,hsc⟩ := next_scans hagree (hreads.stands hagree)
  generalize p.buf.next d = r at hsc ⊢
  have hfirst := g.first_le_cursor p.buf
  have hfrom := hsc.from_cursor
  obtain ⟨res,b⟩ := r
  have hnext : p.buf.nextSegID≤b.nextSegID := by
    obtain ⟨i,off,m,hm⟩ := hsc.moved
    simp only at hm
    rw [hm]
  cases res with
  | none => exact ⟨hagree.moved hsc.moved,hreads.ended hagree hsc rfl,habove.mono hnext⟩
  | some found =>
    obtain ⟨env,hd⟩ := found
    have hr := hreads.found hagree hsc rfl
    refine ⟨hagree.moved hsc.moved,?_,habove.mono hnext⟩
    simp only [Session.handOut,hr.found_number (by omega)]
    exact hr

lemma Visits.rewind (hv : Visits d₀ p d g) : Visits d₀ p.rewound d g := by
  obtain ⟨hagree,-,habove⟩ := hv
  obtain ⟨h1,h2,-,i,off,n,h4⟩ := hagree.rewind
  exact ⟨h1,h2,habove.mono (by simp [Session.rewound,h4])⟩

lemma visit_carrier (d₀ : Disk) : Carrier d₀.log.history.length (fun _ => True)
    (fun p => Visit d₀ p.pending) (Visits d₀) where
  rides p := visit_rides d₀ p.pending
  grows := visit_extends
  held hv := ⟨hv.1,hv.2.1,hv.2.2,rfl⟩
  kept h := ⟨trivial,h.2.history,h.1,h.2.reads,h.2.above⟩
  acked hv hpend := by
    obtain ⟨hagree,hreads,habove⟩ := hv
    rw [hpend] at hreads
    exact ⟨hagree.ack hreads,hreads.ack,habove.mono le_rfl,rfl⟩
  next := Visits.next
  rewind := Visits.rewind

variable {x : Sys}

lemma visit_run {y : Sys} {evs : List Event} (hx : x.Keeps (LeftBy d₀) (Visits d₀))
    (h : Run Sys.WorkStep x evs y) : y.Keeps (LeftBy d₀) (Visits d₀) :=
  h.invariant (fun _ _ _ hs hstep => hstep.1.1.keeps fun _ ho =>
    (visit_carrier d₀).good_of_act hs hstep.2 hstep.1.2.1 hstep.1.2.2 ho) hx

end Work

section Open
variable {d₀ : Disk}

lemma visit_open (hd : d₀.Readable) {args : OpenArgs} {x : Sys}
    (hstep : (Sys.found d₀).Step (.done (.openDir args)) x) (hsome : x.session.isSome=true) :
    x.Keeps (LeftBy d₀) (Visits d₀) := by
  have hopens := hd.openable.opens args
  let X : Buffer → Ghost → Prop := fun b g => Above d₀ b ∧ g.history=d₀.log.history
  have hX : Rides d₀.log.history.length X := by
    refine ⟨fun _ hx => ⟨hx.1.mono (le_succ _),hx.2⟩,fun now _ hx =>
      ⟨hx.1.mono (le_succ _),(history_create _ _).trans hx.2⟩,
      fun {b d g s ss} reason ha hx hss _ => ?_⟩
    exact ⟨hx.1.mono (by simp [Buffer.removed,hss]),(ha.history_removed hss reason).trans hx.2⟩
  have hmoved : ∀ {b b' g}, b.Moved b' → X b g → X b' g := by
    rintro b b' g ⟨i,off,n,rfl⟩ hx
    exact ⟨hx.1.mono le_rfl,hx.2⟩
  have habove : Above d₀ (Buffer.opened args d₀) :=
    ⟨fun id hid => hopens.ids (d₀.layout id) (mem_log.mpr ⟨hid,rfl⟩),hopens.above⟩
  have hdone := (openDir_triple (C := fun _ _ => True) hd.openable args
    ⟨by simp [Ghost.history,Disk.log],fun n f hn hf => by
      have := (List.getElem?_eq_some_iff.mp hf).1
      omega⟩
    (fun n _ hn => .inl (hn.trans_le (Ghost.number_le _ _))) hX hmoved ⟨habove,rfl⟩
    (fun _ _ _ => trivial) (fun _ _ _ _ => trivial) d₀ d₀.log ⟨rfl,rfl⟩).2
  cases hstep with
  | done ho =>
    simp only [Sys.act,Sys.found,some_inj] at ho
    subst ho
    cases hb : (openDir args d₀).1 with
    | none => simp [hb] at hsome
    | some b =>
      rw [hb] at hdone
      obtain ⟨⟨hagree,habove,hhist⟩,hreads,-⟩ := hdone
      refine ⟨⟨hagree.disk,trivial,by simpa [Sys.found] using hhist⟩,fun p hp => ?_⟩
      simp only [map_some,mem_some_iff] at hp
      subst hp
      exact ⟨hagree,hreads,habove⟩

end Open

section Creates
variable {n : ℕ} {b : Buffer}

/-- An effect creates no segment below `n`. -/
def Effect.From (n : ℕ) (e : Effect) : Prop := ∀ id, e = .create id → n ≤ id

lemma addSegment_emits (hlt : b.nextSegID+1<2^32) (hn : n≤b.nextSegID) (fails : Bool) (now : Time) :
    Emits (Effect.From n) (b.addSegment fails now) fun r => r.2.nextSegID = b.nextSegID+1 := by
  unfold Buffer.addSegment
  rw [mod_eq_of_lt hlt]
  cases fails with
  | true => exact Emits.pure rfl
  | false =>
    refine Emits.bind (Emits.perform fun id hid => ?_) fun _ _ => Emits.pure rfl
    cases hid
    exact hn

lemma activeSegment_emits (hlt : b.nextSegID+2<2^32) (size : ℕ) (faults : AppendFaults)
    (clock : Readings) :
    Emits (Effect.From b.nextSegID) (b.activeSegment size faults clock) fun _ => True := by
  unfold Buffer.activeSegment
  refine Emits.bind (Ψ := fun r => b.nextSegID≤r.2.nextSegID ∧ r.2.nextSegID ≤ b.nextSegID+1) ?_ ?_
  · unfold Buffer.firstSegment
    split_ifs
    · intro d
      obtain ⟨h1,h2⟩ := addSegment_emits (show b.nextSegID+1<2^32 by omega) le_rfl
        faults.create clock.created d
      exact ⟨h1,by omega,h2.le⟩
    · exact Emits.pure ⟨le_rfl,le_succ _⟩
  · rintro ⟨ok,b'⟩ ⟨hle,hge⟩
    simp only at hle hge ⊢
    cases ok with
    | false => exact Emits.pure trivial
    | true =>
      simp only [Bool.not_true,Bool.false_eq_true,if_false]
      cases b'.segments.getLast? with
      | none => exact Emits.pure trivial
      | some last =>
        simp only
        split_ifs
        · exact Emits.pure trivial
        · exact fun d => ⟨(addSegment_emits (by omega) hle _ _ d).1,trivial⟩
        · exact Emits.pure trivial

lemma segment_append_emits (s : Segment) (data : List UInt8) (faults : WriteFaults) :
    Emits (Effect.From n) (s.append data faults) fun _ => True := by
  have hwrite : ∀ id bytes, Effect.From n (.write id bytes) := fun _ _ _ h => by cases h
  have hcut : ∀ id size, Effect.From n (.truncate id size) := fun _ _ _ h => by cases h
  unfold Segment.append
  split_ifs
  · exact Emits.pure trivial
  refine Emits.read_bind fun d => ?_
  simp only
  split_ifs
  · exact Emits.pure trivial
  refine Emits.bind (Emits.performIf (hcut _ _)) fun _ _ => ?_
  cases faults.write with
  | some m => exact Emits.bind (Emits.perform (hwrite _ _)) fun _ _ =>
      Emits.bind (Emits.performIf (hcut _ _)) fun _ _ => Emits.pure trivial
  | none => exact Emits.bind (Emits.perform (hwrite _ _)) fun _ _ =>
      Emits.pure trivial

lemma removeWhile_emits (policy : Buffer → Disk → Bool) (reason : Option Reason) (m : ℕ)
    (b : Buffer) : Emits (Effect.From n) (Buffer.removeWhile policy reason m b) fun _ => True := by
  refine fun d => ⟨fun e he => ?_,trivial⟩
  obtain ⟨id,rfl⟩ := removeWhile_reason he
  exact fun _ h => by cases h

lemma append_emits (hlt : b.nextSegID+2<2^32) (data : List UInt8)
    (faults : AppendFaults) (clock : Readings) :
    Emits (Effect.From b.nextSegID) (b.append data faults clock) fun _ => True := by
  unfold Buffer.append
  split_ifs
  · exact Emits.pure trivial
  refine Emits.bind (activeSegment_emits hlt data.length faults clock) ?_
  rintro ⟨ok,b'⟩ -
  cases ok with
  | false => exact Emits.pure trivial
  | true =>
    simp only [Bool.not_true,Bool.false_eq_true,if_false]
    cases b'.segments.getLast? with
    | none => exact Emits.pure trivial
    | some last =>
      refine Emits.bind (segment_append_emits last data faults.write) ?_
      rintro (_ | s) -
      · exact Emits.pure trivial
      · exact Emits.bind (removeWhile_emits _ _ _ _) fun _ _ =>
          Emits.bind (removeWhile_emits _ _ _ _) fun _ _ => Emits.pure trivial

end Creates

/-- A created segment is numbered above every file there is and above the files and the
checkpoint that were found. -/
def Outcome.Numbered (d₀ : Disk) (x : Sys) (o : Outcome) : Prop :=
  ∀ es id es', o.effects = es++.create id::es' →
    (∀ j, ((device.run x.disk es).files.get j).isSome=true → j < id) ∧
    (∀ j, (d₀.files.get j).isSome=true → j < id) ∧ ∀ c∈d₀.checkpoint, c.1 < id

/-- No record the process appended is behind the checkpoint on disk before it is
acknowledged. -/
def Sys.Unburied (d₀ : Disk) (x : Sys) : Prop :=
  ∀ c∈x.disk.checkpoint, ∀ n, d₀.log.history.length≤n → x.log.first≤n → n ∉ x.log.acked →
    x.log.number c ≤ n

/-- The checkpoint in force is not past the end of the last segment, where an append writes,
nor past the start of a new one. -/
def Session.Behind (p : Session) : Prop :=
  (∀ s∈p.buf.segments.getLast?, toLex p.buf.mark ≤ toLex (s.id,s.fileSize)) ∧
  toLex p.buf.mark ≤ toLex (p.buf.nextSegID,0)

section Left
variable {d₀ : Disk} {x : Sys} {p : Session}

lemma act_emits (hp : p∈x.session) {op : Op} (hop : op.opens=false) (hbounded : x.Bounded op)
    {o : Outcome} (ho : x.act op=some o) : ∀ e∈o.effects, Effect.From p.buf.nextSegID e := by
  have hsave : ∀ b d fails, ∀ e ∈ (Buffer.saveAckedPosition b fails d).2,
      Effect.From p.buf.nextSegID e := fun b d fails =>
    (Emits.performIf (fun _ h => by cases h) d).1
  cases op with
  | openDir args => cases hop
  | append data faults clock =>
    rw [Sys.act,mem_def.mp hp,map_some,some_inj] at ho
    subst ho
    exact (append_emits (hbounded.2 p hp) data faults clock x.disk).1
  | next =>
    rw [Sys.act,mem_def.mp hp,map_some,some_inj] at ho
    subst ho
    simp
  | ack saveFails =>
    obtain ⟨hd,n,rest,-,rfl⟩ := act_ack hp ho
    exact (Emits.bind (Θ := fun _ => True) (removeWhile_emits _ _ _ _) (fun b _ =>
      Emits.bind (Ψ := fun _ => True) (fun d => ⟨hsave b d saveFails,trivial⟩)
      fun _ _ => Emits.pure trivial) x.disk).1
  | rewind =>
    rw [Sys.act,mem_def.mp hp,map_some,some_inj] at ho
    subst ho
    simp
  | close saveFails =>
    rw [Sys.act,mem_def.mp hp,map_some,some_inj] at ho
    subst ho
    exact hsave p.buf x.disk saveFails

lemma visit_numbered (hx : x.Keeps (LeftBy d₀) (Visits d₀)) {op : Op} (hop : op.opens=false)
    (hproper : op.Proper) (hbounded : x.Bounded op) {o : Outcome} (ho : x.act op=some o) :
    o.Numbered d₀ x := by
  intro es id es' heff
  obtain ⟨p,hp⟩ := session_of_act hop ho
  have hle := act_emits hp hop hbounded ho (.create id) (by simp [heff]) id rfl
  have habove := (hx.live p hp).2.2
  have hgood := (visit_carrier d₀).good_of_act hx hop hproper hbounded ho
  have hbefore := (hgood.cut es (by rw [heff]; exact Device.Cut.left es _)).1.stored
  have hafter := (hgood.cut (es++[.create id]) (by
    rw [heff,append_cons]
    exact Device.Cut.left _ es')).1.stored.sorted
  refine ⟨fun j hj => ?_,fun j hj => (habove.ids j hj).trans_le hle,
    fun c hc => (habove.checkpoint c hc).trans_le hle⟩
  obtain ⟨l,hl,rfl⟩ := (hbefore.keys j).mp hj
  rw [foldl_append,foldl_cons,foldl_nil,apply_create,Ghost.Sorted,map_append,
    pairwise_append] at hafter
  exact hafter.2.2 l.id (List.mem_map_of_mem hl) id (by simp)

lemma visit_unburied (hx : x.Keeps (LeftBy d₀) (Visits d₀)) : x.Unburied d₀ := by
  intro c hc n hn hfirst hacked
  by_contra hlt
  rcases (hx.crashed.1.checkpoint c hc).2.passed n hfirst (by omega) with h | h
  · omega
  · exact hacked h

lemma Visits.behind {d : Disk} {g : Ghost} (h : Visits d₀ p d g) : p.Behind := by
  obtain ⟨hagree,-,-⟩ := h
  refine ⟨fun s hs => ?_,?_⟩
  · obtain ⟨ss,hss⟩ := getLast?_eq_some_iff.mp hs
    obtain ⟨ls,l,hsegs,-,hfit⟩ := hagree.last hss
    have hle := hagree.mark.last l (by simp [hsegs])
    have hsize := fun hid => (hagree.mark.boundary l (by simp [hsegs]) hid).le_size
    rw [Prod.Lex.toLex_le_toLex,hfit.id,hfit.size]
    simp only
    omega
  · have := hagree.below
    unfold Below at this
    rw [Prod.Lex.toLex_le_toLex]
    simp only
    omega

end Left

/-- Open of a directory in which ids, records and files leave the counters room deletes no
unacknowledged record as acknowledged, numbers new segments above everything it found, and
never lets a later record fall behind a checkpoint unacknowledged. -/
theorem open_buries_nothing {d : Disk} (hd : d.Readable) :
    (∀ args id, .remove id none ∈ (openDir args d).2 →
      (id<d.loadedMark.1 ∨ (openSegment (d.content id) (d.keep id)).recordCount=0) ∧
      ((d.checkpoint=none ∨ ∀ j, (d.files.get j).isSome=true → j<d.loadedMark.1) →
        (openSegment (d.content id) 0).recordCount=0)) ∧
    ∀ args x₁ evs x, (Sys.found d).Step (.done (.openDir args)) x₁ → x₁.session.isSome=true →
      Run Sys.WorkStep x₁ evs x →
      x.log.history = d.log.history++x.accepted.map frame ∧ x.Unburied d ∧
      (∀ p∈x.session, p.Behind) ∧
      ∀ op o, op.opens=false → op.Proper → x.Bounded op → x.act op = some o → o.Numbered d x := by
  refine ⟨fun args id he => hd.drops he,fun args x₁ evs x hopen hsome hrun => ?_⟩
  have hx := visit_run (visit_open hd hopen hsome) hrun
  exact ⟨hx.crashed.2.2,visit_unburied hx,fun p hp => (hx.live p hp).behind,
    fun op o hop hproper hbounded ho => visit_numbered hx hop hproper hbounded ho⟩

/-- A directory without segment files whose checkpoint is in segment `segID`. -/
def checkpointOnly (segID : ℕ) : Disk := ⟨FinMap.empty,some (ackedBytes segID 1)⟩

def plainArgs : OpenArgs := ⟨⟨0,0⟩,fun _ => ⟨0,0⟩,⟨0,0⟩,false,false⟩

def emptied (segID : ℕ) : Buffer :=
  { initial plainArgs.opts.withDefaults none with nextSegID := (segID+1)%2^32 }

variable {segID : ℕ}

lemma checkpoint_checkpointOnly (h : segID<2^32) :
    (checkpointOnly segID).checkpoint = some (segID,1) :=
  checkpoint_saveAcked ⟨FinMap.empty,none⟩ h (by decide)

lemma openDir_checkpointOnly (h : segID<2^32) :
    openDir plainArgs (checkpointOnly segID) =
      (some (emptied segID),[.saveAcked (ackedBytes 0 0)]) := by
  have hc := checkpoint_checkpointOnly h
  refine openDir_no_files (b := emptied segID) (by simp [checkpointOnly,FinMap.empty]) ?_ rfl ?_
  · rw [OpenArgs.start,hc]
    rfl
  · rw [Disk.loadedMark,hc,Buffer.settleCheckpoint,if_neg (by simp [emptied,initial])]
    rfl

def visited (segID : ℕ) : Sys :=
  ⟨⟨FinMap.empty,some (ackedBytes 0 0)⟩,(checkpointOnly segID).log,[],
    some (Session.opened (checkpointOnly segID).log (emptied segID))⟩

lemma step_visited (h : segID<2^32) :
    (Sys.found (checkpointOnly segID)).Step (.done (.openDir plainArgs)) (visited segID) := by
  have hact : (Sys.found (checkpointOnly segID)).act (.openDir plainArgs) = some
      ⟨some (Session.opened (checkpointOnly segID).log (emptied segID)),(checkpointOnly segID).log,
        [.saveAcked (ackedBytes 0 0)],[]⟩ := by
    change some (Outcome.mk ((openDir plainArgs (checkpointOnly segID)).1.map _) _
      (openDir plainArgs (checkpointOnly segID)).2 _) = _
    rw [openDir_checkpointOnly h]
    rfl
  exact .done hact

lemma readable_checkpointOnly (h : segID+1<2^32) : (checkpointOnly segID).Readable := by
  have hcontent : ∀ id, (checkpointOnly segID).content id = [] := fun _ => rfl
  refine ⟨fun id hid => ?_,fun c hc => ?_,fun id => ?_,fun id f hf => ?_⟩
  · exact absurd hid Bool.false_ne_true
  · rw [checkpoint_checkpointOnly (by omega)] at hc
    cases hc
    exact h
  · rw [hcontent]
    decide
  · have hnil : ((checkpointOnly segID).layout id).frames = [] := by
      simp [Disk.layout,hcontent,Framing.split]
    rw [hnil] at hf
    cases hf

/-- After a checkpoint in segment 5 the first new segment is above it. -/
theorem open_buries_nothing_five : ∃ x : Sys,
    (Sys.found (checkpointOnly 5)).Step (.done (.openDir plainArgs)) x ∧ x.session.isSome=true ∧
    x.Unburied (checkpointOnly 5) ∧ (∀ p∈x.session, p.Behind) ∧
    ∀ op o, op.opens=false → op.Proper → x.Bounded op → x.act op = some o →
      o.Numbered (checkpointOnly 5) x := by
  have hstep := step_visited (show 5<2^32 by decide)
  refine ⟨visited 5,hstep,rfl,?_⟩
  exact ((open_buries_nothing (readable_checkpointOnly (by decide))).2 plainArgs _ [] _ hstep rfl
    (.nil _)).2

/-- With a checkpoint in segment 2^32-1 the first new segment is segment 0. -/
theorem wrapped_counter_numbers_below : ∃ (x : Sys) (op : Op) (o : Outcome),
    (checkpointOnly (2^32-1)).checkpoint = some (2^32-1,1) ∧
    (Sys.found (checkpointOnly (2^32-1))).Step (.done (.openDir plainArgs)) x ∧
    x.session.isSome = true ∧ op.opens=false ∧ op.Proper ∧ x.act op = some o ∧
    .create 0 ∈ o.effects ∧ ¬o.Numbered (checkpointOnly (2^32-1)) x := by
  have hlt : 2^32-1 < 2^32 := by decide
  have hmem : Effect.create 0 ∈ ((emptied (2^32-1)).append [0] {}
      ⟨⟨0,0⟩,⟨0,0⟩,⟨0,0⟩,⟨0,0⟩,⟨0,0⟩⟩ (visited (2^32-1)).disk).2 := by
    rw [Buffer.append,if_neg (by simp),mem_bind]
    left
    rw [Buffer.activeSegment,mem_bind]
    left
    exact mem_singleton.mpr rfl
  refine ⟨visited (2^32-1),.append [0] {} ⟨⟨0,0⟩,⟨0,0⟩,⟨0,0⟩,⟨0,0⟩,⟨0,0⟩⟩,_,
    checkpoint_checkpointOnly hlt,step_visited hlt,rfl,rfl,fun n hn => ?_,rfl,hmem,fun h => ?_⟩
  · simp at hn
  · obtain ⟨es,es',heff⟩ := append_of_mem hmem
    have := (h es 0 es' heff).2.2 _ (checkpoint_checkpointOnly hlt)
    omega

end Pglens.DiskBuffer
