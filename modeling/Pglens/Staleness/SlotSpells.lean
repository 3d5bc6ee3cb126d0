import Pglens.Lib.Once
import Pglens.Staleness.Evaluate

/-! The calls of evaluateSlots of one leader, whatever rows they read and whichever of their writes
fail. An emission is marked before it is written, and unmarked with all that come after it when a
write fails; each slot's events follow from what the calls do to that slot's marks alone. -/
namespace Pglens.Staleness
open Pglens.Lib List

/-- One call of evaluateSlots: its clock reading, what its query returns, the table it finds and the
transactions it begins. -/
structure SlotCall where
  now : Time
  slots : Option (List SlotRow)
  events : EventTable
  txs : List Tx

structure Evaluation where
  memory : Replica
  call : SlotCall

namespace Evaluation

def turn (e : Evaluation) : Turn := ⟨e.memory,e.call.events,e.call.txs⟩

def run (e : Evaluation) : Turn × Option Fault := evaluateSlots e.call.now e.call.slots e.turn

def after (e : Evaluation) : Replica := e.run.1.memory

def added (e : Evaluation) : List Event :=
  (e.run.1.events.rows.take (e.run.1.events.rows.length-e.call.events.rows.length)).map EventRow.event

def inactiveDue (e : Evaluation) (rows : List SlotRow) : List SlotEmission × SlotSpells :=
  decideSlotInactiveEmissions rows e.call.now e.memory.slotInactive

def lostDue (e : Evaluation) (rows : List SlotRow) : List SlotEmission × (SlotKey → Bool) :=
  decideSlotLostEmissions rows e.memory.slotLostEmitted

def reads (e : Evaluation) : Bool := e.call.slots.isSome

def marked (e : Evaluation) (rows : List SlotRow) : Turn :=
  { e.turn with memory := { e.memory with slotInactive := (e.inactiveDue rows).2 } }

def writeInactive (e : Evaluation) (rows : List SlotRow) : Turn × Option Fault :=
  emitSlotEvents .slotInactive Turn.unmarkInactive (e.inactiveDue rows).1 (e.marked rows)

def passes (e : Evaluation) : Bool := e.call.slots.any fun rows => (e.writeInactive rows).2.isNone

end Evaluation

/-- The calls of one leader, each on the memory that the one before it left. -/
def evaluations (m : Replica) : List SlotCall → List Evaluation
  | [] => []
  | c::calls => ⟨m,c⟩::evaluations (Evaluation.after ⟨m,c⟩) calls

def slotEvent (typ : EventType) (em : SlotEmission) : Event :=
  ⟨typ,some em.clusterID,some em.instanceID,.slot em.slotName⟩

/-- The first `n` transactions begin and commit. -/
def Works (txs : List Tx) (n : ℕ) : Prop := n ≤ txs.length ∧ ∀ tx ∈ txs.take n, tx.ok=true

lemma Works.drop {txs : List Tx} {k n : ℕ} (h : Works txs (k+n)) : Works (txs.drop k) n := by
  refine ⟨by rw [length_drop]; exact Nat.le_sub_of_add_le (Nat.add_comm n k ▸ h.1),fun tx htx => h.2 tx ?_⟩
  rw [take_add]
  exact mem_append_right _ htx

section Emit
variable {typ : EventType} {unmark : List SlotEmission → Turn → Turn}

lemma emitSlotEvents_cons (em : SlotEmission) (ems : List SlotEmission) (t : Turn) :
    emitSlotEvents typ unmark (em::ems) t = match emitEvents [slotEvent typ em] t with
      | (t,none) => emitSlotEvents typ unmark ems t
      | (t,some e) => (unmark (em::ems) t,some e) := rfl

lemma emitSlotEvents_cons_ok {t : Turn} {tx : Tx} {txs : List Tx} (htxs : t.txs=tx::txs)
    (hok : tx.ok=true) (em : SlotEmission) (ems : List SlotEmission) :
    emitSlotEvents typ unmark (em::ems) t = emitSlotEvents typ unmark ems
      { t with events := t.events.insert tx.ts [slotEvent typ em], txs := txs } := by
  have hemit : emitEvents [slotEvent typ em] t =
      ({ t with events := t.events.insert tx.ts [slotEvent typ em], txs := txs },none) := by
    simp only [emitEvents,htxs,if_pos hok]
  rw [emitSlotEvents_cons,hemit]

lemma emitSlotEvents_cons_fails {t : Turn} (hfails : ∀ tx∈t.txs.head?, tx.ok=false)
    (em : SlotEmission) (ems : List SlotEmission) :
    ∃ t', t'.memory=t.memory ∧ t'.events=t.events ∧
      emitSlotEvents typ unmark (em::ems) t = (unmark (em::ems) t',some .emit) := by
  have hemit : ∃ txs, emitEvents [slotEvent typ em] t = ({ t with txs := txs },some .emit) := by
    obtain ⟨memory,events,_ | ⟨tx,txs⟩⟩ := t
    · exact ⟨[],rfl⟩
    · have hfalse : tx.ok=false := hfails tx rfl
      exact ⟨txs,by simp [emitEvents,hfalse]⟩
  obtain ⟨txs,hemit⟩ := hemit
  exact ⟨{ t with txs := txs },rfl,rfl,by rw [emitSlotEvents_cons,hemit]⟩

/-- What emitSlotEvents does: it writes emissions up to the first that fails. -/
structure Emits (typ : EventType) (unmark : List SlotEmission → Turn → Turn) (ems written rest : List SlotEmission)
    (t : Turn) (r : Turn × Option Fault) : Prop where
  split : ems = written++rest
  rows : ∃ new, r.1.events.rows = new++t.events.rows ∧
    new.map EventRow.event = (written.map (slotEvent typ)).reverse
  works : ∀ n, Works t.txs n → n≤ems.length → n≤written.length
  ends : rest=[] ∧ r.2=none ∧ r.1.memory=t.memory ∧ r.1.txs = t.txs.drop ems.length ∨
    rest ≠ [] ∧ r.2 = some .emit ∧ ∃ t', t'.memory=t.memory ∧ r.1.memory = (unmark rest t').memory

lemma emitSlotEvents_emits (hunmark : ∀ ems t, (unmark ems t).events=t.events)
    (ems : List SlotEmission) (t : Turn) :
    ∃ written rest, Emits typ unmark ems written rest t (emitSlotEvents typ unmark ems t) := by
  induction ems generalizing t with
  | nil => exact ⟨[],[],rfl,⟨[],rfl,rfl⟩,fun n _ hn => hn,.inl ⟨rfl,rfl,rfl,rfl⟩⟩
  | cons em ems ih =>
    by_cases hfails : ∀ tx∈t.txs.head?, tx.ok=false
    · obtain ⟨t',hmemory,hevents,heq⟩ := @emitSlotEvents_cons_fails typ unmark t hfails em ems
      rw [heq]
      refine ⟨[],em::ems,rfl,⟨[],by rw [hunmark,hevents]; rfl,rfl⟩,?_,.inr ⟨by simp,rfl,t',hmemory,rfl⟩⟩
      intro n hn _
      cases n with
      | zero => exact Nat.le_refl 0
      | succ n =>
        cases htxs : t.txs with
        | nil => simp [Works,htxs] at hn
        | cons tx txs =>
          rw [Works,htxs,take_succ_cons] at hn
          have hfalse := hfails tx (by simp [htxs])
          rw [hn.2 tx (by simp)] at hfalse
          cases hfalse
    · obtain ⟨tx,htx,hok⟩ : ∃ tx∈t.txs.head?, tx.ok=true := by simpa using hfails
      obtain ⟨txs,htxs⟩ := head?_eq_some_iff.mp htx
      rw [emitSlotEvents_cons_ok htxs hok]
      obtain ⟨written,rest,hsplit,⟨new,hrows,hnew⟩,hworks,hends⟩ :=
        ih { t with events := t.events.insert tx.ts [slotEvent typ em], txs := txs }
      refine ⟨em::written,rest,by rw [hsplit]; rfl,
        ⟨new++[⟨t.events.next,Server.stamp tx.ts,slotEvent typ em⟩],?_,by simp [hnew]⟩,?_,?_⟩
      · rw [hrows,append_assoc]
        rfl
      · intro n hn hle
        cases n with
        | zero => exact Nat.zero_le _
        | succ n =>
          rw [Works,htxs,length_cons,take_succ_cons] at hn
          refine Nat.succ_le_succ (hworks n ⟨Nat.succ_le_succ_iff.mp hn.1,fun tx htx => hn.2 tx (by simp [htx])⟩ ?_)
          exact Nat.succ_le_succ_iff.mp hle
      · simpa only [htxs,length_cons,drop_succ_cons] using hends

end Emit

def SlotEmission.of (key : SlotKey) (em : SlotEmission) : Bool := em.key == key

open SlotEmission (of)

section Slot
variable {key : SlotKey} {rows : List SlotRow} {r : SlotRow}

abbrev SlotSpells.state (s : SlotSpells) (key : SlotKey) : Option Time × Bool := (s.since key,s.emitted key)

def inactiveDue (now : Time) (since : Option Time) (emitted : Bool) : Bool :=
  since.any (fun t => slotInactiveThreshold<now.sub t) && !emitted

lemma present_of_mem (hr : r∈rows) (hkey : slotKey r=key) : present rows key = true :=
  any_eq_true.mpr ⟨r,hr,by simp [hkey]⟩

lemma of_emission (key : SlotKey) (r : SlotRow) :
    of key r.emission = (slotKey r == key) := rfl

lemma slotInactiveRow_other (now : Time) (s : SlotSpells) (r : SlotRow) (h : slotKey r ≠ key) :
    (slotInactiveRow now s r).2.state key = s.state key ∧
      (slotInactiveRow now s r).1.countP (of key) = 0 := by
  have hne : key ≠ slotKey r := Ne.symm h
  have hem : of key r.emission = false := by simpa [of_emission] using h
  unfold slotInactiveRow
  dsimp only
  split_ifs
  · simp [hne]
  · split
    · simp [hne]
    · split_ifs <;> simp [hne,hem]

lemma slotInactiveRow_own (now : Time) (s : SlotSpells) (r : SlotRow) (h : slotKey r=key) :
    (slotInactiveRow now s r).2.state key =
      (if r.active then (none,false) else
        (some ((s.since key).getD now),s.emitted key || inactiveDue now (s.since key) (s.emitted key))) ∧
      (slotInactiveRow now s r).1.countP (of key) =
        if r.active then 0 else (inactiveDue now (s.since key) (s.emitted key)).toNat := by
  subst h
  have hem : SlotEmission.of (slotKey r) r.emission = true := by simp [of_emission]
  unfold slotInactiveRow
  dsimp only
  split_ifs
  · simp
  · split
    · next hs => simp [hs,inactiveDue]
    · next t hs =>
      split_ifs with hdue
      · simp [hs,inactiveDue,hdue,hem]
      · have hnot : inactiveDue now (some t) (s.emitted (slotKey r)) = false := by
          simpa [inactiveDue] using hdue
        simp [hs,hnot]

lemma decideSlotInactive_own (now : Time) (s : SlotSpells) (hrows : (rows.map slotKey).Nodup) (hr : r∈rows)
    (hkey : slotKey r=key) :
    let d := decideSlotInactiveEmissions rows now s
    d.2.state key = (if r.active then (none,false) else
        (some ((s.since key).getD now),s.emitted key || inactiveDue now (s.since key) (s.emitted key))) ∧
      d.1.countP (of key) =
        if r.active then 0 else (inactiveDue now (s.since key) (s.emitted key)).toNat := by
  have hpresent := present_of_mem hr hkey
  obtain ⟨s',hs',hproj,hcount⟩ := collect_of_mem (fun s : SlotSpells => s.state key)
    (slotInactiveRow_other now) hrows hr hkey ([],⟨fun key => if present rows key then s.since key else none,
      fun key => present rows key && s.emitted key⟩)
  simp only [SlotSpells.state,hpresent,if_true,Bool.true_and,Prod.mk.injEq] at hs'
  obtain ⟨hproj',hcount'⟩ := slotInactiveRow_own now s' r hkey
  rw [hs'.1,hs'.2] at hproj' hcount'
  exact ⟨hproj.trans hproj',hcount.trans (by rw [hcount']; simp)⟩

lemma decideSlotInactive_absent (now : Time) (s : SlotSpells) (hnone : ∀ r∈rows, slotKey r ≠ key) :
    let d := decideSlotInactiveEmissions rows now s
    d.2.since key = none ∧ d.2.emitted key = false := by
  have hpresent : present rows key = false := by simpa [present] using hnone
  obtain ⟨hproj,-⟩ := collect_of_other (fun s : SlotSpells => s.state key)
    (slotInactiveRow_other now) hnone ([],⟨fun key => if present rows key then s.since key else none,
      fun key => present rows key && s.emitted key⟩)
  simp only [SlotSpells.state,hpresent,Bool.false_eq_true,if_false,Bool.false_and,Prod.mk.injEq] at hproj
  exact hproj

lemma slotLostRow_other (s : SlotKey → Bool) (r : SlotRow) (h : slotKey r ≠ key) :
    (slotLostRow s r).2 key = s key ∧ (slotLostRow s r).1.countP (of key) = 0 := by
  have hne : key ≠ slotKey r := Ne.symm h
  have hem : of key r.emission = false := by simpa [of_emission] using h
  unfold slotLostRow
  split_ifs <;> simp [hne,hem]

lemma slotLostRow_own (s : SlotKey → Bool) (r : SlotRow) (h : slotKey r=key) :
    (slotLostRow s r).2 key = decide (r.walStatus=slotLostStatus) ∧
      (slotLostRow s r).1.countP (of key) =
        (decide (r.walStatus=slotLostStatus) && !s key).toNat := by
  subst h
  have hem : SlotEmission.of (slotKey r) r.emission = true := by simp [of_emission]
  unfold slotLostRow
  split_ifs <;> simp_all

lemma decideSlotLost_own (s : SlotKey → Bool) (hrows : (rows.map slotKey).Nodup) (hr : r∈rows)
    (hkey : slotKey r=key) :
    let d := decideSlotLostEmissions rows s
    d.2 key = decide (r.walStatus=slotLostStatus) ∧
      d.1.countP (of key) = (decide (r.walStatus=slotLostStatus) && !s key).toNat := by
  have hpresent := present_of_mem hr hkey
  obtain ⟨s',hs',hproj,hcount⟩ := collect_of_mem (fun s : SlotKey → Bool => s key)
    slotLostRow_other hrows hr hkey ([],fun key => present rows key && s key)
  simp only [hpresent,Bool.true_and] at hs'
  obtain ⟨hproj',hcount'⟩ := slotLostRow_own s' r hkey
  rw [hs'] at hcount'
  exact ⟨hproj.trans hproj',hcount.trans (by rw [hcount']; simp)⟩

lemma decideSlotLost_absent (s : SlotKey → Bool) (hnone : ∀ r∈rows, slotKey r ≠ key) :
    (decideSlotLostEmissions rows s).2 key = false := by
  have hpresent : present rows key = false := by simpa [present] using hnone
  obtain ⟨hproj,-⟩ := collect_of_other (fun s : SlotKey → Bool => s key)
    slotLostRow_other hnone ([],fun key => present rows key && s key)
  simp only [hpresent,Bool.false_and] at hproj
  exact hproj

end Slot

namespace Evaluation
variable {e : Evaluation} {rows : List SlotRow}

lemma added_eq {new : List EventRow} (h : e.run.1.events.rows=new++e.call.events.rows) :
    e.added = new.map EventRow.event := by
  rw [added,h,length_append,Nat.add_sub_cancel,take_left]

def writeLost (rows : List SlotRow) (t : Turn) : Turn × Option Fault :=
  emitSlotEvents .slotLost Turn.unmarkLost (decideSlotLostEmissions rows t.memory.slotLostEmitted).1
    { t with memory := { t.memory with
      slotLostEmitted := (decideSlotLostEmissions rows t.memory.slotLostEmitted).2 } }

lemma run_cases (h : e.call.slots=some rows) :
    (∃ fault, (e.writeInactive rows).2=some fault ∧ e.run=((e.writeInactive rows).1,some fault)) ∨
      (e.writeInactive rows).2 = none ∧ e.run = writeLost rows (e.writeInactive rows).1 := by
  have hrun : e.run = Attempt.andThen (emitSlotEvents .slotInactive Turn.unmarkInactive (e.inactiveDue rows).1)
      (writeLost rows) (e.marked rows) := by
    unfold run evaluateSlots
    rw [h]
    rfl
  rw [hrun]
  exact Attempt.andThen_cases _ _ _

lemma unmarked_nil (emitted : SlotKey → Bool) : unmarked [] emitted = emitted := by
  funext key
  simp [unmarked]

lemma writeLost_emits (rows : List SlotRow) (t : Turn) {due : List SlotEmission × (SlotKey → Bool)}
    (hdue : decideSlotLostEmissions rows t.memory.slotLostEmitted=due) :
    ∃ written rest, due.1 = written++rest ∧
      (∃ new, (writeLost rows t).1.events.rows=new++t.events.rows ∧
        new.map EventRow.event=(written.map (slotEvent .slotLost)).reverse) ∧
      (∀ n, Works t.txs n → n≤due.1.length → n≤written.length) ∧
      (writeLost rows t).1.memory.slotInactive = t.memory.slotInactive ∧
      (writeLost rows t).1.memory.slotLostEmitted = unmarked rest due.2 := by
  subst hdue
  obtain ⟨written,rest,hsplit,hrows,hworks,hends⟩ := @emitSlotEvents_emits .slotLost Turn.unmarkLost
    (fun _ _ => rfl) (decideSlotLostEmissions rows t.memory.slotLostEmitted).1 { t with memory := { t.memory with
      slotLostEmitted := (decideSlotLostEmissions rows t.memory.slotLostEmitted).2 } }
  refine ⟨written,rest,hsplit,hrows,hworks,?_⟩
  obtain ⟨rfl,-,hm,-⟩ | ⟨-,-,t',ht',hm⟩ := hends
  · rw [writeLost,hm,unmarked_nil]
    exact ⟨rfl,rfl⟩
  · rw [writeLost,hm,Turn.unmarkLost,ht']
    exact ⟨rfl,rfl⟩

theorem run_rows (h : e.call.slots=some rows) :
    ∃ written rest, (e.inactiveDue rows).1 = written++rest ∧
      (∀ n, Works e.call.txs n → n ≤ (e.inactiveDue rows).1.length → n≤written.length) ∧
      e.after.slotInactive = ⟨(e.inactiveDue rows).2.since,unmarked rest (e.inactiveDue rows).2.emitted⟩ ∧
      (e.passes=false ∧ e.after.slotLostEmitted=e.memory.slotLostEmitted ∧
          e.added=(written.map (slotEvent .slotInactive)).reverse ∨
        e.passes=true ∧ ∃ lostWritten lostRest, (e.lostDue rows).1=lostWritten++lostRest ∧
          (∀ n, Works e.call.txs ((e.inactiveDue rows).1.length+n) → n ≤ (e.lostDue rows).1.length →
            n ≤ lostWritten.length) ∧
          e.after.slotLostEmitted=unmarked lostRest (e.lostDue rows).2 ∧
          e.added=(lostWritten.map (slotEvent .slotLost)).reverse ++
            (written.map (slotEvent .slotInactive)).reverse) := by
  have hpasses : e.passes = (e.writeInactive rows).2.isNone := by simp [passes,h]
  obtain ⟨written,rest,hsplit,⟨new,hrows,hnew⟩,hworks,hends⟩ := @emitSlotEvents_emits .slotInactive
    Turn.unmarkInactive (fun _ _ => rfl) (e.inactiveDue rows).1 (e.marked rows)
  change (e.writeInactive rows).1.events.rows = new++e.call.events.rows at hrows
  refine ⟨written,rest,hsplit,hworks,?_⟩
  obtain ⟨fault,hfault,hrun⟩ | ⟨hfault,hrun⟩ := run_cases h
  · obtain ⟨-,hnone,-⟩ | ⟨-,-,t',ht',hmemory⟩ := hends
    · cases hfault.symm.trans hnone
    · have hafter : e.after = (Turn.unmarkInactive rest t').memory := by
        rw [after,hrun]
        exact hmemory
      refine ⟨?_,.inl ⟨by rw [hpasses,hfault]; rfl,?_,?_⟩⟩
      · rw [hafter,Turn.unmarkInactive,ht']
        rfl
      · rw [hafter,Turn.unmarkInactive,ht']
        rfl
      · rw [added_eq (by rw [hrun]; exact hrows),hnew]
  · obtain ⟨rfl,-,hmemory,htxs⟩ | ⟨-,hsome,-⟩ := hends
    · change (e.writeInactive rows).1.memory = _ at hmemory
      change (e.writeInactive rows).1.txs = _ at htxs
      have hdue : decideSlotLostEmissions rows (e.writeInactive rows).1.memory.slotLostEmitted = e.lostDue rows := by
        rw [hmemory]
        rfl
      obtain ⟨lostWritten,lostRest,hlsplit,⟨lnew,hlrows,hlnew⟩,hlworks,hspells,hmarks⟩ :=
        writeLost_emits rows (e.writeInactive rows).1 hdue
      rw [← hrun] at hlrows hspells hmarks
      refine ⟨?_,.inr ⟨by rw [hpasses,hfault]; rfl,lostWritten,lostRest,hlsplit,?_,hmarks,?_⟩⟩
      · rw [after,hspells,hmemory,unmarked_nil]
        rfl
      · intro n hn hle
        refine hlworks n ?_ hle
        rw [htxs]
        change Works (e.call.txs.drop _) n
        exact hn.drop
      · rw [added_eq (by rw [hlrows,hrows,← append_assoc]),map_append,hlnew,hnew]
    · cases hfault.symm.trans hsome

end Evaluation

section Stored
variable {key : SlotKey}

def Event.about (typ : EventType) (key : SlotKey) (ev : Event) : Bool :=
  decide (ev.typ=typ ∧ ev.instanceID=some key.1 ∧ ev.payload = .slot key.2)

def Evaluation.stored (typ : EventType) (key : SlotKey) (e : Evaluation) : ℕ := e.added.countP (Event.about typ key)

lemma about_slotEvent (typ : EventType) (em : SlotEmission) :
    (slotEvent typ em).about typ key = of key em := by
  simp [Event.about,slotEvent,SlotEmission.of,SlotEmission.key,Prod.ext_iff,Bool.beq_eq_decide_eq]

lemma countP_slotEvents (typ : EventType) (ems : List SlotEmission) :
    (ems.map (slotEvent typ)).reverse.countP (Event.about typ key) = ems.countP (of key) := by
  rw [countP_reverse,countP_map]
  exact countP_congr fun em _ => by rw [Function.comp_apply,about_slotEvent]

lemma countP_slotEvents_other {typ other : EventType} (h : other≠typ) (ems : List SlotEmission) :
    (ems.map (slotEvent other)).reverse.countP (Event.about typ key) = 0 := by
  rw [countP_reverse,countP_map,countP_eq_zero]
  intro em _
  simp [Event.about,slotEvent,h]

lemma marks_of_split (due gets : Prop) {found left fires : Bool} {W : ℕ → Prop}
    {ems written rest : List SlotEmission} (hsplit : ems=written++rest)
    (hworks : ∀ n, W n → n≤ems.length → n≤written.length)
    (hcount : ems.countP (of key)=fires.toNat)
    (hfires : fires=true ↔ due ∧ found=false)
    (hleft : left=((found || fires) && !rest.any (of key)))
    (hgets : gets → ∀ before em behind, ems=before++em::behind → em.key=key → W (before.length+1))
    :
    (found=true ∨ ¬due → written.countP (of key)=0 ∧ left=found) ∧
      (found=false → due → written.countP (of key)=1 ∧ left=true ∨
        written.countP (of key)=0 ∧ left=false ∧ ¬gets) := by
  rw [hsplit,countP_append] at hcount
  have hnone : rest.countP (of key) = 0 → rest.any (of key) = false := by
    intro h
    simpa using h
  constructor
  · intro hidle
    have hrest : fires=false := by
      rw [← Bool.not_eq_true,hfires]
      rintro ⟨hdue,hfound⟩
      simp [hfound,hdue] at hidle
    rw [hrest,Bool.toNat_false] at hcount
    refine ⟨by omega,?_⟩
    rw [hleft,hrest,hnone (by omega)]
    simp
  · intro hfound hdue
    rw [hfires.mpr ⟨hdue,hfound⟩] at hcount hleft
    rw [Bool.toNat_true] at hcount
    by_cases hw : rest.countP (of key) = 0
    · refine .inl ⟨by omega,?_⟩
      rw [hleft,hnone hw]
      simp
    · obtain ⟨em,hem,hkey⟩ := countP_pos_iff.mp (Nat.pos_of_ne_zero hw)
      refine .inr ⟨by omega,?_,?_⟩
      · rw [hleft,any_eq_true.mpr ⟨em,hem,hkey⟩]
        simp
      · intro hg
        obtain ⟨before,behind,rfl⟩ := append_of_mem hem
        have hW := hgets hg (written++before) em behind (by rw [hsplit,append_assoc])
          (by simpa [SlotEmission.of] using hkey)
        have hle := hworks _ hW (by rw [hsplit]; simp only [length_append,length_cons]; omega)
        rw [length_append] at hle
        omega

end Stored

namespace Evaluation
variable {key : SlotKey} {e : Evaluation} {rows : List SlotRow}

def inactive (key : SlotKey) (e : Evaluation) : Prop :=
  ∃ rows, e.call.slots = some rows ∧ ∃ r∈rows, slotKey r = key ∧ r.active=false

def lost (key : SlotKey) (e : Evaluation) : Prop :=
  ∃ rows, e.call.slots = some rows ∧ ∃ r∈rows, slotKey r = key ∧ r.walStatus=slotLostStatus

/-- If the call has a slot_inactive event of the slot to write, the store works up to that write. -/
def reachesInactive (key : SlotKey) (e : Evaluation) : Prop :=
  ∀ rows, e.call.slots = some rows → ∀ before em behind, (e.inactiveDue rows).1 = before++em::behind →
    em.key = key → Works e.call.txs (before.length+1)

/-- If the call has a slot_lost event of the slot to write, the store works up to that write. -/
def reachesLost (key : SlotKey) (e : Evaluation) : Prop :=
  ∀ rows, e.call.slots = some rows → ∀ before em behind, (e.lostDue rows).1 = before++em::behind →
    em.key = key → Works e.call.txs ((e.inactiveDue rows).1.length+(before.length+1))

def Distinct (e : Evaluation) : Prop := ∀ rows, e.call.slots = some rows → (rows.map slotKey).Nodup

lemma since_of_inactive (hrows : e.Distinct) (h : e.inactive key) :
    e.after.slotInactive.since key = some ((e.memory.slotInactive.since key).getD e.call.now) := by
  obtain ⟨rows,hslots,r,hr,hkey,hactive⟩ := h
  obtain ⟨_,_,-,-,hafter,-⟩ := run_rows hslots
  obtain ⟨hproj,-⟩ := decideSlotInactive_own e.call.now e.memory.slotInactive (hrows rows hslots) hr hkey
  rw [hactive,if_neg Bool.false_ne_true] at hproj
  rw [hafter]
  exact (Prod.mk.inj hproj).1

lemma reset_of_not_inactive (hrows : e.Distinct) (hreads : e.reads=true) (h : ¬e.inactive key) :
    e.after.slotInactive.state key = (none,false) := by
  obtain ⟨rows,hslots⟩ := Option.isSome_iff_exists.mp hreads
  obtain ⟨_,rest,-,-,hafter,-⟩ := run_rows hslots
  have hdue : (e.inactiveDue rows).2.since key = none ∧ (e.inactiveDue rows).2.emitted key = false := by
    by_cases hr : ∃ r∈rows, slotKey r = key
    · obtain ⟨r,hr,hkey⟩ := hr
      have hactive : r.active=true := by
        rw [← Bool.not_eq_false]
        exact fun hf => h ⟨rows,hslots,r,hr,hkey,hf⟩
      obtain ⟨hproj,-⟩ := decideSlotInactive_own e.call.now e.memory.slotInactive (hrows rows hslots) hr hkey
      rw [if_pos hactive] at hproj
      exact Prod.mk.inj hproj
    · exact decideSlotInactive_absent _ _ fun r hr' hkey => hr ⟨r,hr',hkey⟩
  rw [hafter]
  simp [unmarked,hdue.1,hdue.2]

lemma inactiveDue_iff (now : Time) (since : Option Time) (emitted : Bool) :
    Staleness.inactiveDue now since emitted = true ↔
      (∃ t, since=some t ∧ slotInactiveThreshold<now.ns-t.ns) ∧ emitted=false := by
  cases since with
  | none => simp [Staleness.inactiveDue]
  | some t => simp [Staleness.inactiveDue,Time.lt_sub_iff (show 0 ≤ slotInactiveThreshold by decide)
      (show slotInactiveThreshold<Duration.maxDuration by decide)]

lemma marks_inactive (hrows : e.Distinct) (h : e.inactive key) :
    Marks (fun e => ∃ t, e.memory.slotInactive.since key=some t ∧ slotInactiveThreshold<e.call.now.ns-t.ns)
      (reachesInactive key) (fun e => e.memory.slotInactive.emitted key)
      (fun e => e.after.slotInactive.emitted key) (stored .slotInactive key) e := by
  obtain ⟨rows,hslots,r,hr,hkey,hactive⟩ := h
  obtain ⟨written,rest,hsplit,hworks,hafter,hcases⟩ := run_rows hslots
  obtain ⟨hproj,hcount⟩ := decideSlotInactive_own e.call.now e.memory.slotInactive (hrows rows hslots) hr hkey
  rw [hactive,if_neg Bool.false_ne_true] at hproj hcount
  have hstored : e.stored .slotInactive key = written.countP (of key) := by
    obtain ⟨-,-,hadded⟩ | ⟨-,_,_,-,-,-,hadded⟩ := hcases
    · rw [stored,hadded,countP_slotEvents]
    · rw [stored,hadded,countP_append,countP_slotEvents,countP_slotEvents_other (by decide),Nat.zero_add]
  have hleft : e.after.slotInactive.emitted key = ((e.memory.slotInactive.emitted key ||
      Staleness.inactiveDue e.call.now (e.memory.slotInactive.since key) (e.memory.slotInactive.emitted key)) &&
        !rest.any (of key)) := by
    rw [hafter,← (Prod.mk.inj hproj).2]
    rfl
  obtain ⟨hidle,htries⟩ := marks_of_split _ (e.reachesInactive key) hsplit hworks hcount (inactiveDue_iff _ _ _)
    hleft fun hgets => hgets rows hslots
  rw [← hstored] at hidle htries
  exact ⟨hidle,htries⟩

lemma marks_lost (hrows : e.Distinct) (hpasses : e.passes=true) (h : e.lost key) :
    Marks (fun _ => True) (reachesLost key) (fun e => e.memory.slotLostEmitted key)
      (fun e => e.after.slotLostEmitted key) (stored .slotLost key) e := by
  obtain ⟨rows,hslots,r,hr,hkey,hlost⟩ := h
  obtain ⟨written,_,-,-,-,⟨hnot,-⟩ | ⟨-,lostWritten,lostRest,hsplit,hworks,hafter,hadded⟩⟩ :=
      run_rows hslots
  · rw [hpasses] at hnot
    cases hnot
  obtain ⟨hproj,hcount⟩ := decideSlotLost_own e.memory.slotLostEmitted (hrows rows hslots) hr hkey
  rw [decide_eq_true hlost] at hproj
  rw [decide_eq_true hlost,Bool.true_and] at hcount
  have hstored : e.stored .slotLost key = lostWritten.countP (of key) := by
    rw [stored,hadded,countP_append,countP_slotEvents,countP_slotEvents_other (by decide),Nat.add_zero]
  have hleft : e.after.slotLostEmitted key = ((e.memory.slotLostEmitted key || !e.memory.slotLostEmitted key) &&
      !lostRest.any (of key)) := by
    rw [hafter,Bool.or_not_self,← hproj]
    rfl
  obtain ⟨hidle,htries⟩ := marks_of_split True (e.reachesLost key) hsplit hworks hcount (by simp) hleft
    fun hgets => hgets rows hslots
  rw [← hstored] at hidle htries
  exact ⟨hidle,htries⟩

lemma reset_of_not_lost (hrows : e.Distinct) (hpasses : e.passes=true) (h : ¬e.lost key) :
    e.after.slotLostEmitted key = false := by
  obtain ⟨rows,hslots⟩ : ∃ rows, e.call.slots = some rows := by
    cases hslots : e.call.slots with
    | none => simp [passes,hslots] at hpasses
    | some rows => exact ⟨rows,rfl⟩
  obtain ⟨_,_,-,-,-,⟨hnot,-⟩ | ⟨-,_,lostRest,-,-,hafter,-⟩⟩ := run_rows hslots
  · rw [hpasses] at hnot
    cases hnot
  have hdue : (e.lostDue rows).2 key = false := by
    by_cases hr : ∃ r∈rows, slotKey r = key
    · obtain ⟨r,hr,hkey⟩ := hr
      have hstatus : r.walStatus≠slotLostStatus := fun hs => h ⟨rows,hslots,r,hr,hkey,hs⟩
      rw [lostDue,(decideSlotLost_own _ (hrows rows hslots) hr hkey).1,decide_eq_false hstatus]
    · exact decideSlotLost_absent _ fun r hr' hkey => hr ⟨r,hr',hkey⟩
  rw [hafter]
  simp [unmarked,hdue]

lemma after_of_not_reads (h : e.reads=false) : e.after=e.memory := by
  have hnone : e.call.slots=none := by simpa [reads] using h
  simp [after,run,evaluateSlots,hnone,turn]

lemma lost_of_not_passes (h : e.passes=false) :
    e.after.slotLostEmitted = e.memory.slotLostEmitted := by
  cases hslots : e.call.slots with
  | none => rw [after_of_not_reads (by simp [reads,hslots])]
  | some rows =>
    obtain ⟨_,_,-,-,-,⟨-,hlost,-⟩ | ⟨hpasses,-⟩⟩ := run_rows hslots
    · exact hlost
    · rw [h] at hpasses
      cases hpasses

end Evaluation

section Spells
open Evaluation
variable {p : Evaluation → Bool} {γ : Type} (proj : Replica → γ) {m : Replica}
  {calls : List SlotCall} {e : Evaluation} {before run behind : List Evaluation}

lemma call_mem_of_mem (h : e ∈ evaluations m calls) : e.call∈calls := by
  induction calls generalizing m with
  | nil => cases h
  | cons c calls ih =>
    obtain rfl | h := mem_cons.mp h
    · exact mem_cons_self
    · exact mem_cons_of_mem c (ih h)

lemma evaluations_chain (hskip : ∀ e, p e=false → proj e.after=proj e.memory) (m : Replica)
    (calls : List SlotCall) :
    (∀ e ∈ ((evaluations m calls).filter p).head?, proj e.memory=proj m) ∧
      ((evaluations m calls).filter p).IsChain fun e f => proj f.memory = proj e.after := by
  induction calls generalizing m with
  | nil => exact ⟨by simp [evaluations],by simp [evaluations]⟩
  | cons c calls ih =>
    obtain ⟨hhead,hchain⟩ := ih (after ⟨m,c⟩)
    rw [evaluations]
    cases hp : p ⟨m,c⟩ with
    | true =>
      rw [filter_cons_of_pos hp]
      exact ⟨by simp,isChain_cons.mpr ⟨hhead,hchain⟩⟩
    | false =>
      rw [filter_cons_of_neg (by simp [hp])]
      exact ⟨fun e he => (hhead e he).trans (hskip _ hp),hchain⟩

lemma mem_of_run (hsplit : (evaluations m calls).filter p=before++run++behind)
    (he : e∈run) : e ∈ evaluations m calls ∧ p e = true :=
  mem_filter.mp (hsplit ▸ mem_append_left _ (mem_append_right _ he))

lemma spell_start (down : Evaluation → Prop) (reset : γ)
    (hskip : ∀ e, p e=false → proj e.after=proj e.memory) (hm : proj m=reset)
    (hreset : ∀ e ∈ evaluations m calls, p e=true → ¬down e → proj e.after=reset)
    (hsplit : (evaluations m calls).filter p=before++run++behind)
    (hbefore : ∀ e∈before.getLast?, ¬down e) :
    (∀ e∈run.head?, proj e.memory=reset) ∧ run.IsChain fun e f => proj f.memory = proj e.after := by
  obtain ⟨hhead,hchain⟩ := evaluations_chain proj hskip m calls
  have hmem : ∀ e∈before, e ∈ evaluations m calls ∧ p e = true := fun e he =>
    mem_filter.mp (hsplit ▸ mem_append_left _ (mem_append_left _ he))
  rw [hsplit] at hhead hchain
  obtain ⟨-,hrun,hjoin⟩ := isChain_append.mp (isChain_append.mp hchain).1
  refine ⟨fun e he => ?_,hrun⟩
  cases hlast : before.getLast? with
  | none =>
    obtain rfl := getLast?_eq_none_iff.mp hlast
    rw [← hm]
    refine hhead e ?_
    rw [nil_append,head?_append,he]
    rfl
  | some f =>
    obtain ⟨hf,hp⟩ := hmem f (mem_of_getLast? hlast)
    rw [hjoin f hlast e he]
    exact hreset f hf hp (hbefore f hlast)

variable {key : SlotKey}

lemma since_of_spell {t : Time} (hrows : ∀ e∈run, e.Distinct)
    (hinactive : ∀ e∈run, e.inactive key) (hchain : run.IsChain fun e f =>
      f.memory.slotInactive.state key = e.after.slotInactive.state key)
    (hhead : ∀ e∈run.head?, e.memory.slotInactive.since key=some t) :
    ∀ e∈run, e.memory.slotInactive.since key = some t := by
  induction run with
  | nil => simp
  | cons e run ih =>
    obtain ⟨he,hinactive⟩ := forall_mem_cons.mp hinactive
    obtain ⟨hdistinct,hrows⟩ := forall_mem_cons.mp hrows
    obtain ⟨hnext,hchain⟩ := isChain_cons.mp hchain
    have hsince := hhead e rfl
    refine forall_mem_cons.mpr ⟨hsince,ih hrows hinactive hchain fun f hf => ?_⟩
    rw [(Prod.mk.inj (hnext f hf)).1,since_of_inactive hdistinct he,hsince]
    rfl

/-- Slot events are stored once per spell. Over the evaluations that read rows, a spell is a run in
which the slot is inactive, behind an evaluation in which it was not; over those whose slot_inactive
writes succeeded, a run in which it is lost. -/
theorem slot_events_once_per_spell (calls : List SlotCall)
    (hrows : ∀ c∈calls, ∀ rows, c.slots=some rows → (rows.map slotKey).Nodup) (key : SlotKey) :
    (∀ before first run behind, (evaluations .new calls).filter reads=before++first::run++behind →
      (∀ e∈before.getLast?, ¬e.inactive key) → (∀ e ∈ first::run, e.inactive key) →
      ((first::run).map (stored .slotInactive key)).sum ≤ 1 ∧
      (∀ e ∈ first::run, 0<e.stored .slotInactive key →
        slotInactiveThreshold<e.call.now.ns-first.call.now.ns) ∧
      ((∃ e ∈ first::run, slotInactiveThreshold<e.call.now.ns-first.call.now.ns ∧ e.reachesInactive key) →
        ((first::run).map (stored .slotInactive key)).sum=1)) ∧
    ∀ before run behind, (evaluations .new calls).filter passes = before++run++behind →
      (∀ e∈before.getLast?, ¬e.lost key) → (∀ e∈run, e.lost key) →
      (run.map (stored .slotLost key)).sum ≤ 1 ∧
      ((∃ e∈run, e.reachesLost key) → (run.map (stored .slotLost key)).sum=1) := by
  have hdistinct : ∀ e ∈ evaluations .new calls, e.Distinct := fun e he => hrows e.call (call_mem_of_mem he)
  constructor
  · intro before first run behind hsplit hbefore hinactive
    obtain ⟨hhead,hchain⟩ := spell_start (fun m => m.slotInactive.state key)
      (inactive key) (none,false) (fun e he => by rw [after_of_not_reads he]) rfl
      (fun e he hreads h => reset_of_not_inactive (hdistinct e he) hreads h) hsplit hbefore
    have hmem : ∀ e ∈ first::run, e.Distinct := fun e he => hdistinct e (mem_of_run hsplit he).1
    obtain ⟨hnone,hunmarked⟩ := Prod.mk.inj (hhead first rfl)
    obtain ⟨hnext,hrun⟩ := isChain_cons.mp hchain
    have hsince : ∀ e∈run, e.memory.slotInactive.since key = some first.call.now := by
      refine since_of_spell (fun e he => hmem e (by simp [he])) (fun e he => hinactive e (by simp [he])) hrun ?_
      intro e he
      rw [(Prod.mk.inj (hnext e he)).1,since_of_inactive (hmem first (by simp)) (hinactive first (by simp)),
        hnone]
      rfl
    have hmarks : ∀ e ∈ first::run, Marks (fun e => slotInactiveThreshold<e.call.now.ns-first.call.now.ns)
        (reachesInactive key) (fun e => e.memory.slotInactive.emitted key)
        (fun e => e.after.slotInactive.emitted key) (stored .slotInactive key) e := by
      intro e he
      refine (marks_inactive (hmem e he) (hinactive e he)).congr ?_
      obtain rfl | he := mem_cons.mp he
      · simp [hnone,slotInactiveThreshold,Duration.second]
      · simp [hsince e he]
    have hfirst : ∀ e ∈ (first::run).head?, e.memory.slotInactive.emitted key = false := by simpa using hunmarked
    have honce := Marks.once hmarks (hchain.imp fun e f h => (Prod.mk.inj h).2) hfirst
    simpa only [Bool.toNat_false,Nat.add_zero] using honce
  · intro before run behind hsplit hbefore hlost
    obtain ⟨hhead,hchain⟩ := spell_start (fun m => m.slotLostEmitted key) (lost key) false
      (fun e he => by rw [lost_of_not_passes he]) rfl
      (fun e he hpasses h => reset_of_not_lost (hdistinct e he) hpasses h) hsplit hbefore
    have hmarks : ∀ e∈run, Marks (fun _ => True) (reachesLost key)
        (fun e => e.memory.slotLostEmitted key) (fun e => e.after.slotLostEmitted key)
        (stored .slotLost key) e := by
      intro e he
      obtain ⟨hin,hpasses⟩ := mem_of_run hsplit he
      exact marks_lost (hdistinct e hin) hpasses (hlost e he)
    have honce := Marks.once hmarks hchain hhead
    simp only [Bool.toNat_false,Nat.add_zero,true_and] at honce
    exact ⟨honce.1,honce.2.2⟩

def inactiveReport (seconds : ℤ) : SlotCall :=
  ⟨⟨seconds*Duration.second,0⟩,some [⟨0,1,"s",false,""⟩],⟨[],0⟩,[⟨⟨0,0⟩,true⟩]⟩

-- The slot is inactive at 0 and at 31 seconds, and its event is written.
theorem slot_inactive_stored_once :
    ((evaluations .new [inactiveReport 0,inactiveReport 31]).map
      (stored .slotInactive (0,"s"))).sum = 1 := by
  have hrows : ∀ c ∈ [inactiveReport 0,inactiveReport 31], ∀ rows, c.slots = some rows →
      (rows.map slotKey).Nodup := by
    intro c hc rows hrows
    have hone : c.slots = some [⟨0,1,"s",false,""⟩] := by
      simp only [mem_cons,not_mem_nil,or_false] at hc
      obtain rfl | rfl := hc <;> rfl
    obtain rfl := Option.some.inj (hone.symm.trans hrows)
    exact nodup_singleton _
  refine ((slot_events_once_per_spell _ hrows (0,"s")).1 [] ⟨.new,inactiveReport 0⟩
    [⟨after ⟨.new,inactiveReport 0⟩,inactiveReport 31⟩] [] rfl (by simp) ?_).2.2
    ⟨_,mem_cons_of_mem _ mem_cons_self,by decide,?_⟩
  · intro e he
    refine ⟨[⟨0,1,"s",false,""⟩],?_,_,mem_cons_self,rfl,rfl⟩
    simp only [mem_cons,not_mem_nil,or_false] at he
    obtain rfl | rfl := he <;> rfl
  · intro rows hrows before em behind hdue _
    obtain rfl := Option.some.inj hrows
    have hlength := congrArg List.length hdue
    rw [length_append,length_cons] at hlength
    have hone : (Evaluation.inactiveDue ⟨after ⟨.new,inactiveReport 0⟩,inactiveReport 31⟩
        [⟨0,1,"s",false,""⟩]).1.length = 1 := by decide +kernel
    obtain rfl : before=[] := length_eq_zero_iff.mp (by omega)
    exact ⟨Nat.le_refl 1,by decide⟩

end Spells

end Pglens.Staleness
