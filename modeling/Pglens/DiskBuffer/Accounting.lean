import Pglens.DiskBuffer.Recovery
import Pglens.DiskBuffer.Ops
import Mathlib.Algebra.BigOperators.Group.List.Basic
import Mathlib.Algebra.Order.BigOperators.Group.List

/-! BytesUsed is kept by Open, Append and the retention loops on their own. It is the size of the
loaded segments in every state, and within MaxSize whenever retention has run. -/
namespace Pglens.DiskBuffer
open Pglens.Lib List Prog

def Buffer.segmentBytes (b : Buffer) : ℤ := (b.segments.map fun s => (s.fileSize : ℤ)).sum

/-- The configuration is the one Open was given, and the bytes in use are those of the segments. -/
structure Accurate (opts : Options) (b : Buffer) : Prop where
  configured : b.opts=opts
  bytes : b.stats.bytesUsed=b.segmentBytes

/-- A write that fails goes out in a proper part, and the segment is not empty or the record's length fits
its header. -/
def FailsShort (s : Segment) (data : List UInt8) (faults : WriteFaults) : Prop :=
  ∀ n∈faults.write, n < (frame data).length ∧ (0<s.fileSize ∨ data.length<2^32)

/-- A property of a buffer and its directory that every step of the operations keeps. A strict one may ask
that new segments get new ids, and that failing writes are short. -/
structure Carried (strict : Prop) (P : Buffer → Disk → Prop) : Prop where
  same {b b' : Buffer} {d d' : Disk} (h : P b d) (hopts : b'.opts=b.opts) (hsegs : b'.segments=b.segments)
    (hbytes : b'.stats.bytesUsed=b.stats.bytesUsed) (hfiles : d'.files=d.files) : P b' d'
  created {b : Buffer} {d : Disk} {id : ℕ} (now : Time) (h : P b d)
    (hfresh : strict → ∀ s∈b.segments, s.id≠id) : P (b.withSegment id now) (d.apply (.create id))
  removed {b : Buffer} {d : Disk} {s : Segment} {ss : List Segment} (reason : Option Reason) (h : P b d)
    (hss : b.segments=s::ss) : P (b.removed d reason) (d.apply (.remove s.id reason))
  failed {b : Buffer} {d : Disk} {s : Segment} {data : List UInt8} {faults : WriteFaults} (h : P b d)
    (hlast : b.segments.getLast?=some s) (hshort : strict → FailsShort s data faults)
    (hnone : (s.append data faults d).1=none) : P b (device.run d (s.append data faults d).2)
  appended {b : Buffer} {d : Disk} {s s' : Segment} {data : List UInt8} {faults : WriteFaults} (now : Time)
    (h : P b d) (hlast : b.segments.getLast?=some s) (hsome : (s.append data faults d).1=some s') :
    P (b.appended s' data.length now) (device.run d (s.append data faults d).2)

/-- Retention by size has run. -/
def Buffer.Bounded (b : Buffer) : Prop := b.segments = [] ∨ b.stats.bytesUsed≤b.opts.maxSize

lemma bytesUsed_removed_le (b : Buffer) (d : Disk) (reason : Option Reason) :
    (b.removed d reason).stats.bytesUsed ≤ b.stats.bytesUsed := by
  unfold Buffer.removed
  cases b.segments with
  | nil => exact le_rfl
  | cons s ss =>
    simp only [Stats.afterRemove]
    omega

variable {b : Buffer}

lemma Buffer.Bounded.removed (h : b.Bounded) (d : Disk) (reason : Option Reason) :
    (b.removed d reason).Bounded := by
  have hle := bytesUsed_removed_le b d reason
  unfold Buffer.removed at hle ⊢
  cases hsegs : b.segments with
  | nil => exact h
  | cons s ss =>
    rw [hsegs] at hle
    exact .inr (hle.trans (h.resolve_left (by simp [hsegs])))

section Walk
variable {strict : Prop} {P : Buffer → Disk → Prop} {b : Buffer}

lemma removeWhile_ends {policy : Buffer → Disk → Bool} {reason : Option Reason}
    (hP : ∀ {b d s ss}, P b d → b.segments=s::ss → P (b.removed d reason) (d.apply (.remove s.id reason)))
    {n : ℕ} (hn : b.segments.length≤n) :
    Ends (P b) (Buffer.removeWhile policy reason n b) fun b' d =>
      P b' d ∧ (b'.segments=[] ∨ policy b' d=false) := by
  induction n generalizing b with
  | zero => exact Ends.pure fun d h => ⟨h,.inl (length_eq_zero_iff.mp (Nat.le_zero.mp hn))⟩
  | succ n ih =>
    refine Ends.read_bind fun d => ?_
    cases hpolicy : policy b d with
    | false => exact Ends.pure fun _ ⟨hd,h⟩ => ⟨h,.inr (hd ▸ hpolicy)⟩
    | true =>
      rw [if_pos rfl]
      refine Ends.bind (Q := fun b' d => P b' d ∧ b'.segments.length≤n) ?_
        fun b' => Ends.assume fun hn => ih hn
      unfold Buffer.removeOldestSegment
      cases hsegs : b.segments with
      | nil => exact Ends.pure fun _ ⟨_,h⟩ => ⟨h,by simp [hsegs]⟩
      | cons s ss =>
        rw [hsegs,length_cons] at hn
        have hlen (d' : Disk) : (b.removed d' reason).segments.length ≤ n := by
          simp only [Buffer.removed,hsegs]
          omega
        exact fun d' ⟨_,h⟩ => ⟨hP h hsegs,hlen d'⟩

lemma enforceMaxSize_ends (h : Carried strict P) :
    Ends (P b) b.enforceMaxSize fun b' d => P b' d ∧ b'.Bounded := by
  refine (removeWhile_ends (h.removed _) le_rfl).post ?_
  rintro b' d ⟨hb',hnil | hpolicy⟩
  · exact ⟨hb',.inl hnil⟩
  · refine ⟨hb',or_iff_not_imp_left.mpr fun hsegs => ?_⟩
    simpa [hsegs] using hpolicy

lemma enforceMaxAge_ends (hP : ∀ {b d s ss} reason, P b d → b.segments=s::ss →
        P (b.removed d reason) (d.apply (.remove s.id reason))) (now : Time) :
    Ends (P b) (b.enforceMaxAge now) P :=
  (removeWhile_ends (hP _) le_rfl).post fun _ _ hb => hb.1

lemma dropAckedSegments_ends (h : Carried strict P) : Ends (P b) b.dropAckedSegments P :=
  (removeWhile_ends (h.removed _) le_rfl).post fun _ _ hb => hb.1

lemma Carried.bounded (h : Carried strict P) {b : Buffer} {d : Disk} {s : Segment}
    {ss : List Segment} (reason : Option Reason) (hb : P b d ∧ b.Bounded) (hss : b.segments=s::ss) :
    P (b.removed d reason) (d.apply (.remove s.id reason)) ∧ (b.removed d reason).Bounded :=
  ⟨h.removed reason hb.1 hss,hb.2.removed d reason⟩

def Buffer.Fresh (b : Buffer) : Prop := ∀ s∈b.segments, s.id≠b.nextSegID

lemma addSegment_ends (h : Carried strict P) (hfresh : strict → b.Fresh) (fails : Bool) (now : Time) :
    Ends (P b) (b.addSegment fails now) fun r d => P r.2 d ∧ (b.segments=[] → r.2.Fresh) := by
  unfold Buffer.addSegment
  have hnext : b.nextSegID ≠ (b.nextSegID+1)%2^32 := by omega
  cases fails with
  | true =>
    refine Ends.pure fun d hb => ⟨h.same hb rfl rfl rfl rfl,fun hnil s hs => ?_⟩
    simp [hnil] at hs
  | false =>
    refine fun d hb => ⟨h.created now (h.same hb rfl rfl rfl rfl) hfresh,fun hnil s hs => ?_⟩
    have hs' : s ∈ (b.withSegment b.nextSegID now).segments := hs
    simp only [Buffer.withSegment,hnil,nil_append,mem_singleton] at hs'
    rw [hs']
    exact hnext

lemma activeSegment_ends (h : Carried strict P) (hfresh : strict → b.Fresh) (size : ℕ)
    (faults : Buffer.AppendFaults) (clock : Buffer.Readings) :
    Ends (P b) (b.activeSegment size faults clock) fun r d => P r.2 d := by
  have hfirst : Ends (P b) (b.firstSegment faults.create clock.created) fun r d =>
      P r.2 d ∧ (strict → r.2.Fresh) := by
    unfold Buffer.firstSegment
    split_ifs with hempty
    · exact (addSegment_ends h hfresh _ _).post fun r d hr =>
        ⟨hr.1,fun _ => hr.2 (List.isEmpty_iff.mp hempty)⟩
    · exact Ends.pure fun d hb => ⟨hb,hfresh⟩
  refine Ends.bind hfirst ?_
  rintro ⟨ok,b'⟩
  refine Ends.assume fun hfresh' => ?_
  cases ok with
  | false => exact Ends.pure fun _ hb => hb
  | true =>
    simp only [Bool.not_true,Bool.false_eq_true,if_false]
    cases b'.segments.getLast? with
    | none => exact Ends.pure fun _ hb => hb
    | some last =>
      dsimp only
      split_ifs
      · exact Ends.pure fun _ hb => hb
      · exact (addSegment_ends h hfresh' _ _).post fun _ _ hr => hr.1
      · exact Ends.pure fun _ hb => hb

lemma append_ends (h : Carried strict P) {d : Disk} (hfresh : strict → b.Fresh)
    {data : List UInt8} {faults : Buffer.AppendFaults} {clock : Buffer.Readings}
    (hshort : strict → ∀ s ∈ (b.activeSegment data.length faults clock d).1.2.segments.getLast?,
      FailsShort s data faults.write) :
    Ends (fun d' => d'=d ∧ P b d') (b.append data faults clock) fun r d' =>
      P r.2 d' ∧ (r.1=true → r.2.Bounded) := by
  unfold Buffer.append
  split_ifs
  · exact Ends.pure fun _ hb => ⟨hb.2,by simp⟩
  · refine Ends.bind (Q := fun r d' => P r.2 d' ∧ (strict → ∀ s∈r.2.segments.getLast?,
      FailsShort s data faults.write)) ?_ ?_
    · rintro _ ⟨rfl,hb⟩
      exact ⟨activeSegment_ends h hfresh _ faults clock _ hb,hshort⟩
    rintro ⟨ok,b₁⟩
    refine Ends.assume fun hshort₁ => ?_
    cases ok with
    | false => exact Ends.pure fun _ hb => ⟨hb,by simp⟩
    | true =>
      simp only [Bool.not_true,Bool.false_eq_true,if_false]
      cases hlast : b₁.segments.getLast? with
      | none => exact Ends.pure fun _ hb => ⟨hb,by simp⟩
      | some last =>
        refine Ends.bind (Q := fun r d' => (r=none → P b₁ d') ∧
          ∀ s∈r, P (b₁.appended s data.length clock.touched) d') ?_ fun r => ?_
        · exact fun d' hb => ⟨h.failed hb hlast fun hs => hshort₁ hs last hlast,
            fun s hs => h.appended clock.touched hb hlast hs⟩
        cases r with
        | none => exact Ends.pure fun _ hb => ⟨hb.1 rfl,by simp⟩
        | some s =>
          refine Ends.bind (Q := fun b d' => P b d' ∧ b.Bounded)
            (fun d' hb => enforceMaxSize_ends h d' (hb.2 s rfl)) fun b₂ => ?_
          refine Ends.bind (enforceMaxAge_ends h.bounded clock.age) fun b₃ => ?_
          exact Ends.pure fun _ hb => ⟨hb.1,fun _ => hb.2⟩

lemma nextLoop_same (d : Disk) (fuel : ℕ) (b : Buffer) :
    let b' := (Buffer.nextLoop d fuel b).2
    b'.opts = b.opts ∧ b'.segments=b.segments ∧ b'.stats.bytesUsed=b.stats.bytesUsed := by
  induction fuel generalizing b with
  | zero => exact ⟨rfl,rfl,rfl⟩
  | succ fuel ih =>
    unfold Buffer.nextLoop
    cases b.segments[b.nextReadSeg]? with
    | none => exact ⟨rfl,rfl,rfl⟩
    | some s =>
      dsimp only
      split_ifs
      · cases (readAt (d.content s.id) s.fileSize b.nextReadOff).data with
        | some env => exact ⟨rfl,rfl,rfl⟩
        | none => exact ih _
      · exact ih _
      · exact ⟨rfl,rfl,rfl⟩

lemma ack_ends (h : Carried strict P) (handle : Handle) (saveFails : Bool) :
    Ends (P b) (b.ack handle saveFails) P := by
  refine Ends.bind (fun d hb => dropAckedSegments_ends h d (h.same hb rfl rfl rfl rfl)) fun b' d hb => ?_
  cases saveFails with
  | true => exact hb
  | false => exact h.same hb rfl rfl rfl rfl

lemma rewind_same (b : Buffer) :
    b.rewind.opts = b.opts ∧ b.rewind.segments=b.segments ∧ b.rewind.stats=b.stats := by
  unfold Buffer.rewind Buffer.findSegmentAfterAcked
  split <;> exact ⟨rfl,rfl,rfl⟩

lemma correctCheckpoint_same (b : Buffer) (haveCheckpoint : Bool) :
    ((b.numberAboveCheckpoint haveCheckpoint).correctCheckpoint).opts = b.opts ∧
      ((b.numberAboveCheckpoint haveCheckpoint).correctCheckpoint).segments = b.segments ∧
      ((b.numberAboveCheckpoint haveCheckpoint).correctCheckpoint).stats = b.stats := by
  have hnumber : ∀ b : Buffer, (b.numberAboveCheckpoint haveCheckpoint).opts = b.opts ∧
      (b.numberAboveCheckpoint haveCheckpoint).segments = b.segments ∧
      (b.numberAboveCheckpoint haveCheckpoint).stats = b.stats := by
    intro b
    unfold Buffer.numberAboveCheckpoint
    split_ifs <;> exact ⟨rfl,rfl,rfl⟩
  have hrestart : ∀ b : Buffer, b.restartCheckpoint.opts=b.opts ∧ b.restartCheckpoint.segments=b.segments ∧
      b.restartCheckpoint.stats = b.stats := by
    intro b
    unfold Buffer.restartCheckpoint
    split
    · exact ⟨rfl,rfl,rfl⟩
    · split_ifs <;> exact ⟨rfl,rfl,rfl⟩
  have hclamp : ∀ b : Buffer, b.clampCheckpoint.opts=b.opts ∧ b.clampCheckpoint.segments=b.segments ∧
      b.clampCheckpoint.stats = b.stats := by
    intro b
    unfold Buffer.clampCheckpoint
    split
    · exact ⟨rfl,rfl,rfl⟩
    · split_ifs <;> exact ⟨rfl,rfl,rfl⟩
  obtain ⟨h1,h2,h3⟩ := hnumber b
  obtain ⟨h4,h5,h6⟩ := hrestart (b.numberAboveCheckpoint haveCheckpoint)
  obtain ⟨h7,h8,h9⟩ := hclamp (b.numberAboveCheckpoint haveCheckpoint).restartCheckpoint
  exact ⟨h7.trans (h4.trans h1),h8.trans (h5.trans h2),h9.trans (h6.trans h3)⟩

/-- What Open makes of the files, and the cuts it does. -/
def Disk.load (d : Disk) (opts : Options) (modTime : ℕ → Time) : Buffer × List Effect :=
  Buffer.openSegments modTime (d.files.keys.sort (· ≤ ·)) (.initial opts d.checkpoint) d

lemma openDir_ends (h : Carried strict P) {args : Buffer.OpenArgs} {d : Disk}
    (hopened : P (d.load args.opts.withDefaults args.modTime).1.recalculateStats
      (device.run d (d.load args.opts.withDefaults args.modTime).2)) :
    Ends (· = d) (Buffer.openDir args) fun r d' => ∀ b∈r, P b d' ∧ b.Bounded := by
  unfold Buffer.openDir
  refine Ends.read_bind fun d₀ => ?_
  refine Ends.bind (Q := fun b d' => P b.recalculateStats d') ?_ fun b => ?_
  · rintro _ ⟨rfl,rfl⟩
    exact hopened
  obtain ⟨hopts,hsegs,hstats⟩ := correctCheckpoint_same b.recalculateStats d₀.checkpoint.isSome
  generalize (b.recalculateStats.numberAboveCheckpoint d₀.checkpoint.isSome).correctCheckpoint = b₁
    at hopts hsegs hstats
  refine Ends.bind (Q := fun _ => P b₁) (fun d' hb => ?_) fun ok => ?_
  · have hb₁ : P b₁ d' := h.same hb hopts hsegs (congrArg Stats.bytesUsed hstats) rfl
    unfold Buffer.settleCheckpoint
    split_ifs <;> exact h.same hb₁ rfl rfl rfl rfl
  cases ok with
  | false => exact Ends.pure (by simp)
  | true =>
    refine Ends.bind (dropAckedSegments_ends h) fun b₂ => ?_
    refine Ends.bind (enforceMaxAge_ends (fun reason => h.removed reason) args.now) fun b₃ => ?_
    refine Ends.bind (enforceMaxSize_ends h) fun b₄ => Ends.pure fun d' hb => ?_
    rintro b₅ ⟨⟩
    obtain ⟨hopts,hsegs,hstats⟩ := rewind_same b₄
    refine ⟨h.same hb.1 hopts hsegs (congrArg Stats.bytesUsed hstats) rfl,?_⟩
    rw [Buffer.Bounded,hopts,hsegs,hstats]
    exact hb.2

end Walk

inductive Call
  | openDir (args : Buffer.OpenArgs)
  | append (data : List UInt8) (faults : Buffer.AppendFaults) (clock : Buffer.Readings)
  | next
  | ack (handle : Handle) (saveFails : Bool)
  | rewind

abbrev Store := Option Buffer × Disk

/-- One call, with the configuration of the process. Only Open is called without a buffer. -/
def Call.run (opts : Options) (st : Store) : Call → Store
  | .openDir args =>
    let r := Buffer.openDir { args with opts := opts } st.2
    (r.1,device.run st.2 r.2)
  | .append data faults clock => match st.1 with
    | none => st
    | some b =>
      let r := b.append data faults clock st.2
      (some r.1.2,device.run st.2 r.2)
  | .next => (st.1.map fun b => (b.next st.2).2,st.2)
  | .ack handle saveFails => match st.1 with
    | none => st
    | some b =>
      let r := b.ack handle saveFails st.2
      (some r.1,device.run st.2 r.2)
  | .rewind => (st.1.map Buffer.rewind,st.2)

def Call.retains (st : Store) : Call → Bool
  | .openDir _ => true
  | .append data faults clock => st.1.any fun b => (b.append data faults clock st.2).1.1
  | _ => false

/-- An Append finds the next id free, and its write, should it fail, is short. -/
def Call.Orderly (st : Store) : Call → Prop
  | .append data faults clock => ∀ b∈st.1, b.Fresh ∧
    ∀ s ∈ (b.activeSegment data.length faults clock st.2).1.2.segments.getLast?, FailsShort s data faults.write
  | _ => True

variable {st : Store}

lemma Carried.run {strict : Prop} {P : Buffer → Disk → Prop} (h : Carried strict P) (opts : Options)
    (hopened : ∀ (modTime : ℕ → Time) (d : Disk), P (d.load opts.withDefaults modTime).1.recalculateStats
      (device.run d (d.load opts.withDefaults modTime).2)) (hst : ∀ b∈st.1, P b st.2) (c : Call)
    (hc : strict → c.Orderly st) :
    ∀ b ∈ (c.run opts st).1, P b (c.run opts st).2 ∧ (c.retains st=true → b.Bounded) := by
  obtain ⟨b₀,d⟩ := st
  cases c with
  | openDir args =>
    intro b hb
    obtain ⟨hP,hbound⟩ := openDir_ends h (hopened args.modTime d) d rfl b hb
    exact ⟨hP,fun _ => hbound⟩
  | append data faults clock =>
    cases b₀ with
    | none => exact fun b hb => absurd hb (by simp [Call.run])
    | some b₀ =>
      rintro b ⟨⟩
      exact append_ends h (fun hs => (hc hs b₀ rfl).1) (fun hs => (hc hs b₀ rfl).2) d ⟨rfl,hst b₀ rfl⟩
  | next =>
    intro b hb
    obtain ⟨b₁,hb₁,rfl⟩ := Option.map_eq_some_iff.mp hb
    obtain ⟨hopts,hsegs,hbytes⟩ := nextLoop_same d _ b₁
    exact ⟨h.same (hst b₁ hb₁) hopts hsegs hbytes rfl,by simp [Call.retains]⟩
  | ack handle saveFails =>
    cases b₀ with
    | none => exact fun b hb => absurd hb (by simp [Call.run])
    | some b₀ =>
      rintro b ⟨⟩
      exact ⟨ack_ends h handle saveFails d (hst b₀ rfl),by simp [Call.retains]⟩
  | rewind =>
    intro b hb
    obtain ⟨b₁,hb₁,rfl⟩ := Option.map_eq_some_iff.mp hb
    obtain ⟨hopts,hsegs,hstats⟩ := rewind_same b₁
    exact ⟨h.same (hst b₁ hb₁) hopts hsegs (congrArg Stats.bytesUsed hstats) rfl,by simp [Call.retains]⟩

variable {opts : Options}

lemma Accurate.removed (h : Accurate opts b) (d : Disk) (reason : Option Reason) :
    Accurate opts (b.removed d reason) := by
  obtain ⟨hopts,hbytes⟩ := h
  unfold Buffer.segmentBytes at hbytes
  unfold Buffer.removed
  cases hsegs : b.segments with
  | nil => exact ⟨hopts,hbytes⟩
  | cons s ss =>
    refine ⟨hopts,?_⟩
    rw [hsegs,map_cons,sum_cons] at hbytes
    simp only [Stats.afterRemove,Buffer.segmentBytes,hbytes]
    omega

def Segment.cutEffects (s : Segment) (d : Disk) : List Effect :=
  if (d.content s.id).length != s.fileSize then [.truncate s.id s.fileSize] else []

lemma append_eq (s : Segment) (d : Disk) (data : List UInt8) (faults : WriteFaults) :
    s.append data faults d =
      if faults.stat || ((d.content s.id).length != s.fileSize && faults.truncate) then (none,[])
      else match faults.write with
        | some n => (none,s.cutEffects d++.write s.id ((frame data).take n)::
            if faults.cleanup then [] else [.truncate s.id s.fileSize])
        | none => (some (s.grown data),s.cutEffects d++[.write s.id (frame data)]) := by
  obtain ⟨stat,truncate,write,cleanup⟩ := faults
  unfold Segment.append Segment.cutEffects
  cases stat with
  | true => rfl
  | false =>
    by_cases hstale : (d.content s.id).length = s.fileSize
    · cases write <;> cases cleanup <;>
        simp [run_bind,Prog.read,run_pure,Prog.perform,Prog.performIf,Device.run,hstale]
    · cases truncate <;> cases write <;> cases cleanup <;>
        simp [run_bind,Prog.read,run_pure,Prog.perform,Prog.performIf,Device.run,hstale]

lemma append_some {s s' : Segment} {data : List UInt8} {faults : WriteFaults} {d : Disk}
    (h : (s.append data faults d).1=some s') : s' = s.grown data ∧
      (s.append data faults d).2 = s.cutEffects d++[.write s.id (frame data)] := by
  rw [append_eq] at h ⊢
  by_cases hearly : (faults.stat || ((d.content s.id).length != s.fileSize && faults.truncate)) = true
  · rw [if_pos hearly] at h
    cases h
  rw [if_neg hearly] at h ⊢
  cases hwrite : faults.write with
  | some n =>
    rw [hwrite] at h
    cases h
  | none =>
    rw [hwrite] at h
    exact ⟨(Option.some.inj h).symm,rfl⟩

lemma Accurate.appended (h : Accurate opts b) {last : Segment}
    (hlast : b.segments.getLast?=some last) (data : List UInt8) (now : Time) :
    Accurate opts (b.appended (last.grown data) data.length now) := by
  obtain ⟨hopts,hbytes⟩ := h
  obtain ⟨ss,hss⟩ := getLast?_eq_some_iff.mp hlast
  refine ⟨hopts,?_⟩
  rw [Buffer.segmentBytes,hss] at hbytes
  simp only [Buffer.appended,Buffer.segmentBytes,hss,dropLast_concat,hbytes,Segment.grown,length_frame,
    map_append,map_singleton,sum_append,sum_singleton]
  push_cast
  omega

lemma carried_accurate : Carried False fun b _ => Accurate opts b where
  same h hopts hsegs hbytes _ :=
    ⟨hopts.trans h.configured,by rw [hbytes,h.bytes,Buffer.segmentBytes,Buffer.segmentBytes,hsegs]⟩
  created now h _ := ⟨h.configured,by simpa [Buffer.withSegment,Buffer.segmentBytes] using h.bytes⟩
  removed reason h _ := h.removed _ reason
  failed h _ _ _ := h
  appended now h hlast hsome := (append_some hsome).1 ▸ h.appended hlast _ now

lemma openSegments_opts (modTime : ℕ → Time) (ids : List ℕ) (b : Buffer) (d : Disk) :
    (Buffer.openSegments modTime ids b d).1.opts = b.opts := by
  induction ids generalizing b d with
  | nil => rfl
  | cons id ids ih => exact ih _ _

lemma Call.run_accurate (opts : Options) (h : ∀ b∈st.1, Accurate opts.withDefaults b) (c : Call) :
    ∀ b ∈ (c.run opts st).1, Accurate opts.withDefaults b ∧ (c.retains st=true → b.Bounded) :=
  carried_accurate.run opts (fun modTime d => ⟨openSegments_opts modTime _ _ d,rfl⟩) h c False.elim

lemma run_accurate (opts : Options) (d : Disk) (calls : List Call) :
    ∀ b ∈ (calls.foldl (Call.run opts) (none,d)).1, Accurate opts.withDefaults b := by
  induction calls using List.reverseRecOn with
  | nil => simp
  | append_singleton calls c ih =>
    rw [foldl_append]
    exact fun b hb => (c.run_accurate opts ih b hb).1

lemma Accurate.bound (h : Accurate opts b) (hbound : b.Bounded) :
    b.stats.bytesUsed ≤ max opts.maxSize 0 := by
  obtain hnil | hle := hbound
  · rw [h.bytes,Buffer.segmentBytes,hnil]
    exact le_max_right _ _
  · exact (h.configured ▸ hle).trans (le_max_left _ _)

end Pglens.DiskBuffer
