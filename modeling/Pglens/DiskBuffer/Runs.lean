import Pglens.Lib.Runs
import Pglens.DiskBuffer.Tally

/-! A process opens the directory, appends, reads, acknowledges, rewinds, closes, or exits inside
any of these. The log, the acks and the records handed out are followed beside the program's own
state. -/
namespace Pglens.DiskBuffer
open Pglens.Lib List

/-- A process with the directory open: the acks it may still call, in the order Next returned them,
the numbers handed out since the last Rewind or Open, the number of the checkpoint Open found, and
the records acknowledged and lost before it and acknowledged since. -/
structure Session where
  buf : Buffer
  pending : List (Handle × ℕ)
  handed : List ℕ
  openedMark : ℕ
  ackedBefore : Finset ℕ
  lostBefore : Finset ℕ
  ackedHere : Finset ℕ

/-- A directory, its log, the records Append has accepted, and the process that has it open. -/
structure Sys where
  disk : Disk
  log : Ghost
  accepted : List (List UInt8)
  session : Option Session

def Sys.start : Sys := ⟨⟨FinMap.empty,none⟩,⟨[],[],[],∅,∅⟩,[],none⟩

inductive Op
  | openDir (args : Buffer.OpenArgs)
  | append (data : List UInt8) (faults : Buffer.AppendFaults) (clock : Buffer.Readings)
  | next
  | ack (saveFails : Bool)
  | rewind
  | close (saveFails : Bool)

structure Outcome where
  session : Option Session
  log : Ghost
  effects : List Effect
  accepted : List (List UInt8)

namespace Session

def opened (g : Ghost) (b : Buffer) : Session :=
  ⟨b,[],[],g.number b.mark,g.acked,g.lost,∅⟩

def handOut (p : Session) (g : Ghost) (r : Option (List UInt8 × Handle) × Buffer) : Session :=
  match r.1 with
  | none => { p with buf := r.2 }
  | some (_,hd) =>
    let n := g.number (hd.segID,hd.nextOff)-1
    { p with buf := r.2, pending := p.pending++[(hd,n)], handed := p.handed++[n] }

def acks (p : Session) (g : Ghost) (n : ℕ) (rest : List (Handle × ℕ)) (b : Buffer) : Session :=
  { p with
    buf := b
    pending := rest
    ackedHere := if g.first≤n then insert n p.ackedHere else p.ackedHere }

def rewound (p : Session) : Session := { p with buf := p.buf.rewind, pending := [], handed := [] }

end Session

/-- One call, where it can be made. Acks are called in the order of the pending records. -/
def Sys.act (x : Sys) : Op → Option Outcome
  | .openDir args =>
    match x.session with
    | some _ => none
    | none =>
      let r := Buffer.openDir args x.disk
      some ⟨r.1.map (Session.opened x.log),x.log,r.2,[]⟩
  | .append data faults clock => x.session.map fun p =>
      let r := p.buf.append data faults clock x.disk
      ⟨some { p with buf := r.1.2 },x.log,r.2,if r.1.1 then [data] else []⟩
  | .next => x.session.map fun p =>
      ⟨some (p.handOut x.log (p.buf.next x.disk)),x.log,[],[]⟩
  | .ack saveFails => x.session.bind fun p =>
      match p.pending with
      | [] => none
      | (hd,n)::rest =>
        let r := p.buf.ack hd saveFails x.disk
        some ⟨some (p.acks x.log n rest r.1),x.log.ack n,r.2,[]⟩
  | .rewind => x.session.map fun p => ⟨some p.rewound,x.log,[],[]⟩
  | .close saveFails => x.session.map fun p =>
      ⟨none,x.log,(p.buf.saveAckedPosition saveFails x.disk).2,[]⟩

def Op.opens : Op → Bool
  | .openDir _ => true
  | _ => false

lemma session_of_act {x : Sys} {op : Op} {o : Outcome} (hop : op.opens=false)
    (ho : x.act op=some o) : ∃ p, p∈x.session := by
  cases hs : x.session with
  | some p => exact ⟨p,rfl⟩
  | none => cases op <;> simp_all [Sys.act,Op.opens]

lemma act_ack {x : Sys} {p : Session} (hp : p∈x.session) {saveFails : Bool} {o : Outcome}
    (ho : x.act (.ack saveFails)=some o) :
    ∃ hd n rest, p.pending = (hd,n)::rest ∧ o = ⟨some (p.acks x.log n rest (p.buf.ack hd saveFails x.disk).1),
      x.log.ack n,(p.buf.ack hd saveFails x.disk).2,[]⟩ := by
  rw [Sys.act,Option.mem_def.mp hp,Option.bind_some] at ho
  cases hpend : p.pending with
  | nil => simp [hpend] at ho
  | cons q rest =>
    rw [hpend] at ho
    exact ⟨q.1,q.2,rest,rfl,(Option.some.inj ho).symm⟩

def Effect.writes (bytes : List UInt8) : Effect → Bool
  | .write _ bytes' => bytes' == bytes
  | _ => false

/-- An append that an exit cut short is accepted once its last byte is written. -/
def Op.acceptedBy : Op → List Effect → List (List UInt8)
  | .append data _ _,cs => if cs.any (Effect.writes (frame data)) then [data] else []
  | _,_ => []

inductive Event
  | done (op : Op)
  | exit (op : Op)

def Event.op : Event → Op
  | .done op => op
  | .exit op => op

/-- An operation returns, or the process exits inside it. -/
inductive Sys.Step (x : Sys) : Event → Sys → Prop
  | done {op : Op} {o : Outcome} (h : x.act op=some o) :
      Step x (.done op) ⟨device.run x.disk o.effects,o.effects.foldl Ghost.apply o.log,
        x.accepted++o.accepted,o.session⟩
  | exit {op : Op} {o : Outcome} (h : x.act op=some o) {cs : List Effect}
      (hcut : device.Cut o.effects cs) :
      Step x (.exit op) ⟨device.run x.disk cs,cs.foldl Ghost.apply o.log,
        x.accepted++op.acceptedBy cs,none⟩

def Op.Proper : Op → Prop
  | .append data faults _ => ∀ n∈faults.write.write, n < 8+data.length
  | _ => True

def Sys.Bounded (x : Sys) : Op → Prop
  | .append data _ _ => data.length < maxRecord ∧
      ∀ p∈x.session, p.buf.nextSegID+2 < 2^32
  | _ => True

def Sys.BoundedStep (x : Sys) (ev : Event) (y : Sys) : Prop :=
  x.Step ev y ∧ ev.op.Proper ∧ x.Bounded ev.op

section Keeps
variable (C : List (List UInt8) → Disk → Ghost → Prop) (L : Session → Disk → Ghost → Prop)

/-- `C` holds of the directory, whatever becomes of the process, and `L` of the process. -/
structure Sys.Keeps (x : Sys) : Prop where
  crashed : C x.accepted x.disk x.log
  live : ∀ p∈x.session, L p x.disk x.log

/-- What an operation leaves: whole, or cut by an exit. -/
structure Good (x : Sys) (op : Op) (o : Outcome) : Prop where
  cut : ∀ cs, device.Cut o.effects cs → C (x.accepted++op.acceptedBy cs)
    (device.run x.disk cs) (cs.foldl Ghost.apply o.log)
  done : C (x.accepted++o.accepted) (device.run x.disk o.effects)
    (o.effects.foldl Ghost.apply o.log)
  live : ∀ p∈o.session, L p (device.run x.disk o.effects) (o.effects.foldl Ghost.apply o.log)

variable {C L}

lemma Good.silent {x : Sys} (hx : x.Keeps C L) {op : Op} (hop : op.acceptedBy []=[])
    {q : Option Session} (hq : ∀ p∈q, L p x.disk x.log) : Good C L x op ⟨q,x.log,[],[]⟩ := by
  refine ⟨fun cs hcs => ?_,?_,hq⟩
  · cases hcs
    rw [hop,append_nil]
    exact hx.crashed
  · rw [append_nil]
    exact hx.crashed

lemma Sys.Step.keeps {x y : Sys} {ev : Event} (h : x.Step ev y)
    (hgood : ∀ o, x.act ev.op=some o → Good C L x ev.op o) : y.Keeps C L := by
  cases h with
  | done ho => exact ⟨(hgood _ ho).done,(hgood _ ho).live⟩
  | exit ho hcut => exact ⟨(hgood _ ho).cut _ hcut,fun p hp => by cases hp⟩

end Keeps

structure Kept (g : Ghost) : Prop where
  base : ∀ l∈g.segs, l.base=0
  lost : ∀ n, n∈g.lost ↔ n<g.first ∧ n ∉ g.acked
  acked : ∀ n∈g.acked, n<g.history.length
  closed : ∀ n∈g.acked, ∀ m<n, g.first ≤ m → m∈g.acked

structure Full (p : Session) (b : Buffer) (g : Ghost) : Prop where
  reads : Reads 0 p.pending b g
  tally : Tally p.openedMark p.ackedHere b g
  behind : ∀ n∈p.handed, n < g.cursor b
  kept : Kept g
  acked : g.acked = p.ackedBefore ∪ p.ackedHere

structure Session.Sound (p : Session) : Prop where
  pending : ∀ q∈p.pending, q.2∈p.handed
  handed : p.handed.Pairwise (· < ·)
  earlier : ∀ n<p.openedMark, n∈p.lostBefore ∨ n∈p.ackedBefore
  lost : ∀ n∈p.lostBefore, n<p.openedMark

structure Live (p : Session) (d : Disk) (g : Ghost) : Prop where
  agree : Agree 0 p.buf d g
  full : Full p p.buf g
  sound : p.Sound

section Kept
variable {k : ℕ} {b : Buffer} {d : Disk} {g : Ghost}

lemma Kept.create (h : Kept g) (id : ℕ) : Kept (g.apply (.create id)) := by
  refine ⟨fun l hl => ?_,h.lost,fun n hn => ?_,h.closed⟩
  · rcases mem_append.mp hl with hl | hl
    · exact h.base l hl
    · rw [mem_singleton.mp hl]
  · rw [history_create]
    exact h.acked n hn

variable {l : Layout} {reason : Option Reason}

lemma mem_lostBy (h : Kept g)
    (hnone : reason=none → ∀ n, g.first≤n → n<g.first+l.frames.length → n∈g.acked) (n : ℕ) :
    n ∈ g.lostBy l reason ↔ n < g.first+l.frames.length ∧ n ∉ g.acked := by
  have hsplit : n < g.first+l.frames.length ↔
      n < g.first ∨ g.first≤n ∧ n < g.first+l.frames.length := by omega
  cases reason with
  | none =>
    rw [Ghost.lostBy,h.lost,hsplit]
    constructor
    · exact fun hn => ⟨.inl hn.1,hn.2⟩
    · rintro ⟨hlt | hin,hnot⟩
      · exact ⟨hlt,hnot⟩
      · exact absurd (hnone rfl n hin.1 hin.2) hnot
  | some r =>
    simp only [Ghost.lostBy,Finset.mem_union,Finset.mem_filter,Finset.mem_image,
      Finset.mem_range,h.lost]
    constructor
    · rintro (⟨hlt,hnot⟩ | ⟨⟨i,hi,rfl⟩,hnot⟩)
      · exact ⟨by omega,hnot⟩
      · exact ⟨by omega,hnot⟩
    · rintro ⟨hlt,hnot⟩
      by_cases hold : n<g.first
      · exact .inl ⟨hold,hnot⟩
      · exact .inr ⟨⟨n-g.first,by omega,by omega⟩,hnot⟩

lemma Kept.remove (h : Kept g) {segs : List Layout} (hsegs : g.segs=l::segs)
    (hnone : reason=none → ∀ n, g.first≤n → n<g.first+l.frames.length → n∈g.acked) :
    Kept (g.apply (.remove l.id reason)) := by
  have hfirst := first_remove hsegs reason
  have hhist := history_remove hsegs reason
  rw [apply_remove hsegs] at hfirst hhist ⊢
  refine ⟨fun l' hl' => h.base l' ?_,fun n => ?_,fun n hn => ?_,fun n hn m hlt hle => ?_⟩
  · rw [hsegs]
    exact mem_cons_of_mem l hl'
  · rw [hfirst]
    exact mem_lostBy h hnone n
  · rw [hhist]
    exact h.acked n hn
  · exact h.closed n hn m hlt (by omega)

lemma Kept.removed (h : Kept g) (ha : Agree 0 b d g) {m : ℕ} {here : Finset ℕ}
    (ht : Tally m here b g) {s : Segment} {ss : List Segment} (hss : b.segments=s::ss)
    (hnone : reason=none → b.unackedRecords d s=0) : Kept (g.apply (.remove s.id reason)) := by
  obtain ⟨l,ls,hsegs,hfit,-⟩ := ha.oldest hss
  have hunacked := unackedRecords_eq ha hss hsegs ht.counts
  rw [hfit.id]
  refine h.remove hsegs fun hr n h1 h2 => ?_
  have := hnone hr
  exact (ha.mark.passed n h1 (by omega)).resolve_left (Nat.not_lt_zero n)

lemma Kept.write (h : Kept g) (hs : g.Sorted) {ls : List Layout} (hsegs : g.segs=ls++[l])
    {f : List UInt8} (hf : records.Complete f) : Kept (g.apply (.write l.id f)) := by
  have hfirst := first_write hs hsegs hf
  have hhist := history_write hs hsegs hf
  rw [apply_write hs hsegs hf] at hfirst hhist ⊢
  refine ⟨fun l' hl' => ?_,fun n => ?_,fun n hn => ?_,fun n hn m hlt hle => ?_⟩
  · rcases mem_append.mp hl' with hl' | hl'
    · exact h.base l' (by simp [hsegs,hl'])
    · rw [mem_singleton.mp hl']
      exact h.base l (by simp [hsegs])
  · rw [hfirst]
    exact h.lost n
  · rw [hhist,length_append]
    have := h.acked n hn
    omega
  · exact h.closed n hn m hlt (by omega)

lemma Kept.ack (h : Kept g) (ha : Agree 0 b d g) {hd : Handle} {n : ℕ} {pending : List (Handle × ℕ)}
    (hr : Reads 0 ((hd,n)::pending) b g) (hlt : n<g.history.length) : Kept (g.ack n) := by
  have hpassed := (Mark.of_handed ha hr).passed
  have hnum : (g.ack n).number (hd.segID,hd.nextOff) = max (n+1) g.first :=
    (hr.handed (hd,n) (by simp)).number
  rw [hnum] at hpassed
  have hmem : ∀ i, i ∈ (g.ack n).acked ↔ i∈g.acked ∨ i=n ∧ g.first≤n := by
    intro i
    unfold Ghost.ack
    simp only
    split_ifs with hle
    · rw [Finset.mem_insert]
      tauto
    · tauto
  refine ⟨h.base,fun i => ?_,fun i hi => ?_,fun i hi m hlt hle => ?_⟩
  · rw [hmem]
    change i ∈ g.lost ↔ i<g.first ∧ _
    rw [h.lost]
    constructor
    · rintro ⟨h1,h2⟩
      refine ⟨h1,fun hor => ?_⟩
      rcases hor with hin | ⟨rfl,h3⟩
      · exact h2 hin
      · omega
    · rintro ⟨h1,h2⟩
      exact ⟨h1,fun hin => h2 (.inl hin)⟩
  · rcases (hmem i).mp hi with hi | ⟨rfl,-⟩
    · exact h.acked i hi
    · exact hlt
  · rcases (hmem i).mp hi with hi | ⟨rfl,-⟩
    · exact (hmem m).mpr (.inl (h.closed i hi m hlt hle))
    · exact (hpassed m hle (by omega)).resolve_left (Nat.not_lt_zero m)

end Kept

end Pglens.DiskBuffer
