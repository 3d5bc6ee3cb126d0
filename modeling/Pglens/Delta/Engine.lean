import Pglens.Time
import Pglens.Pgtype
import Mathlib.Data.Rat.Defs
import Mathlib.Algebra.Order.Ring.Rat
import Mathlib.Logic.Function.Basic
import Mathlib.Tactic.Tauto

/-! `observe` is the six rules of internal/delta. Counter values are exact rationals. A baseline
keeps its stats_reset behind a pointer, and Commit compares baselines with `==`, so a pointer is an
address with the time stored there and the engine carries the next free address. -/
namespace Pglens.Delta

structure Observation where
  key : SeriesKey
  ts : Time
  value : ℚ
  statsReset : Option Time
  deriving DecidableEq, Repr

/-- A derived rate. `rate*seconds` is the increase observed in the interval. -/
structure Point where
  key : SeriesKey
  ts : Time
  rate : ℚ
  seconds : ℚ
  deriving DecidableEq, Repr

inductive ResetReason
  | statsChanged
  | counterWentBackwards
  deriving DecidableEq, Repr

structure ResetEvent where
  key : SeriesKey
  ts : Time
  reason : ResetReason
  deriving DecidableEq, Repr

/-- A *time.Time: equal pointers are equal addresses. -/
structure TimePtr where
  addr : ℕ
  time : Time
  deriving DecidableEq, Repr

structure State where
  ts : Time
  value : ℚ
  statsReset : Option TimePtr
  deriving DecidableEq, Repr

abbrev Baselines := SeriesKey → Option State

structure Engine where
  prev : Baselines
  maxGap : ℤ
  heap : ℕ

/-- Options.MaxGap, zero meaning the default of ten minutes. -/
def newEngine (maxGap : ℤ) : Engine :=
  ⟨fun _ => none,if maxGap=0 then 10*Duration.minute else maxGap,0⟩

/-- copyStatsReset allocates a fresh copy of a non-nil time. -/
def copyStatsReset (heap : ℕ) : Option Time → Option TimePtr × ℕ
  | none => (none,heap)
  | some t => (some ⟨heap,t⟩,heap+1)

/-- What `observe` returns, with the baselines and the heap it leaves. -/
structure Observed where
  point : Option Point
  reset : Option ResetEvent
  baselines : Baselines
  heap : ℕ

/-- Both stats_reset times are known and differ. -/
def statsResetChanged (o : Option Time) (prev : Option TimePtr) : Bool :=
  match o,prev with
  | some t,some p => !t.equal p.time
  | _,_ => false

/-- The rules for one observation, in the order the source tests them. -/
def observe (baselines : Baselines) (maxGap : ℤ) (heap : ℕ) (o : Observation) : Observed :=
  let cp := copyStatsReset heap o.statsReset
  let moved := Function.update baselines o.key (some ⟨o.ts,o.value,cp.1⟩)
  match baselines o.key with
  -- Rule 1: no previous observation
  | none => ⟨none,none,moved,cp.2⟩
  | some prev =>
    -- Rule 2: duplicate or out of order, unless the clock stepped by more than maxGap
    if !o.ts.after prev.ts then
      if prev.ts.sub o.ts > maxGap then ⟨none,none,moved,cp.2⟩
      else ⟨none,none,baselines,heap⟩
    -- Rule 3: stats_reset changed
    else if statsResetChanged o.statsReset prev.statsReset then
      ⟨none,some ⟨o.key,o.ts,.statsChanged⟩,moved,cp.2⟩
    -- Rule 4: counter went backwards
    else if o.value<prev.value then
      ⟨none,some ⟨o.key,o.ts,.counterWentBackwards⟩,moved,cp.2⟩
    -- Rule 5: gap exceeds MaxGap
    else if o.ts.sub prev.ts > maxGap then ⟨none,none,moved,cp.2⟩
    -- Rule 6: normal rate
    else
      let dt := Duration.seconds (o.ts.sub prev.ts)
      ⟨some ⟨o.key,o.ts,(o.value-prev.value)/dt,dt⟩,none,moved,cp.2⟩

def Engine.observe (e : Engine) (o : Observation) : (Option Point × Option ResetEvent) × Engine :=
  let r := Delta.observe e.prev e.maxGap e.heap o
  ((r.point,r.reset),{ e with prev := r.baselines, heap := r.heap })

/-- Engine.Evict drops the series last observed before the cutoff. Its count is left
out: no caller reads it. -/
def Engine.evict (e : Engine) (before : Time) : Engine :=
  { e with prev := fun k => (e.prev k).filter fun s => !s.ts.before before }

/-- The baseline an observation becomes when a rule moves it. -/
def movedState (heap : ℕ) (o : Observation) : State :=
  ⟨o.ts,o.value,(copyStatsReset heap o.statsReset).1⟩

/-- Rule 2 with a clock step: the sample is more than maxGap behind the baseline. -/
def Rebases (maxGap : ℤ) (prev : State) (o : Observation) : Prop :=
  o.ts.ns ≤ prev.ts.ns ∧ prev.ts.sub o.ts > maxGap

instance (maxGap : ℤ) (prev : State) (o : Observation) : Decidable (Rebases maxGap prev o) :=
  inferInstanceAs (Decidable (_ ∧ _))

/-- Rule 2 without one: a duplicate, or a sample slightly late. -/
def Late (maxGap : ℤ) (prev : State) (o : Observation) : Prop :=
  o.ts.ns ≤ prev.ts.ns ∧ prev.ts.sub o.ts ≤ maxGap

/-- Rules 3 and 4. -/
def Resets (prev : State) (o : Observation) : Prop :=
  prev.ts.ns < o.ts.ns ∧
    (statsResetChanged o.statsReset prev.statsReset=true ∨ o.value<prev.value)

/-- Rule 5. -/
def Gaps (maxGap : ℤ) (prev : State) (o : Observation) : Prop :=
  prev.ts.ns < o.ts.ns ∧ ¬Resets prev o ∧ o.ts.sub prev.ts > maxGap

/-- Rule 6. -/
def Rates (maxGap : ℤ) (prev : State) (o : Observation) : Prop :=
  prev.ts.ns < o.ts.ns ∧ statsResetChanged o.statsReset prev.statsReset = false ∧
    prev.value ≤ o.value ∧ o.ts.sub prev.ts ≤ maxGap

lemma rule_cases (maxGap : ℤ) (prev : State) (o : Observation) :
    Late maxGap prev o ∨ Rebases maxGap prev o ∨ Resets prev o ∨ Gaps maxGap prev o ∨
      Rates maxGap prev o := by
  unfold Late Rebases Gaps Resets Rates
  by_cases hts : o.ts.ns≤prev.ts.ns
  · by_cases hg : prev.ts.sub o.ts > maxGap
    · exact .inr (.inl ⟨hts,hg⟩)
    · exact .inl ⟨hts,not_lt.mp hg⟩
  have hlt := not_le.mp hts
  by_cases hs : statsResetChanged o.statsReset prev.statsReset = true
  · exact .inr (.inr (.inl ⟨hlt,.inl hs⟩))
  by_cases hv : o.value<prev.value
  · exact .inr (.inr (.inl ⟨hlt,.inr hv⟩))
  by_cases hg : o.ts.sub prev.ts > maxGap
  · exact .inr (.inr (.inr (.inl ⟨hlt,by tauto,hg⟩)))
  · exact .inr (.inr (.inr (.inr ⟨hlt,Bool.eq_false_iff.mpr hs,not_lt.mp hv,not_lt.mp hg⟩)))

section Rules
variable {b : Baselines} {maxGap : ℤ} {heap : ℕ} {o : Observation} {prev : State}

/-- The baselines after a rule moves the observed series. -/
def move (b : Baselines) (heap : ℕ) (o : Observation) : Baselines :=
  Function.update b o.key (some (movedState heap o))

def moveHeap (heap : ℕ) (o : Observation) : ℕ := (copyStatsReset heap o.statsReset).2

lemma observe_first (h : b o.key=none) :
    observe b maxGap heap o = ⟨none,none,move b heap o,moveHeap heap o⟩ := by
  simp [observe,h,move,movedState,moveHeap]

lemma observe_late (h : b o.key=some prev) (hl : Late maxGap prev o) :
    observe b maxGap heap o = ⟨none,none,b,heap⟩ := by
  have hts : ¬ prev.ts.ns < o.ts.ns := not_lt.mpr hl.1
  have hg : ¬ prev.ts.sub o.ts > maxGap := not_lt.mpr hl.2
  simp [observe,h,hts,hg]

lemma observe_rebase (h : b o.key=some prev) (hr : Rebases maxGap prev o) :
    observe b maxGap heap o = ⟨none,none,move b heap o,moveHeap heap o⟩ := by
  have hts : ¬ prev.ts.ns < o.ts.ns := not_lt.mpr hr.1
  have hg : prev.ts.sub o.ts > maxGap := hr.2
  simp [observe,h,hts,hg,move,movedState,moveHeap]

/-- Rule 3 is tested before rule 4. -/
def resetReason (prev : State) (o : Observation) : ResetReason :=
  if statsResetChanged o.statsReset prev.statsReset then .statsChanged else .counterWentBackwards

lemma observe_reset (h : b o.key=some prev) (hr : Resets prev o) :
    observe b maxGap heap o =
      ⟨none,some ⟨o.key,o.ts,resetReason prev o⟩,move b heap o,moveHeap heap o⟩ := by
  obtain ⟨hts,hr⟩ := hr
  by_cases hs : statsResetChanged o.statsReset prev.statsReset = true
  · simp [observe,h,hts,hs,move,movedState,moveHeap,resetReason]
  · have hv : o.value<prev.value := hr.resolve_left hs
    simp [observe,h,hts,hs,hv,move,movedState,moveHeap,resetReason]

lemma observe_gap (h : b o.key=some prev) (hg : Gaps maxGap prev o) :
    observe b maxGap heap o = ⟨none,none,move b heap o,moveHeap heap o⟩ := by
  obtain ⟨hts,hr,hgap⟩ := hg
  have hs : ¬ statsResetChanged o.statsReset prev.statsReset = true := fun h => hr ⟨hts,.inl h⟩
  have hv : ¬ o.value < prev.value := fun h => hr ⟨hts,.inr h⟩
  simp [observe,h,hts,hs,hv,hgap,move,movedState,moveHeap]

def ratePoint (prev : State) (o : Observation) : Point :=
  ⟨o.key,o.ts,(o.value-prev.value)/Duration.seconds (o.ts.sub prev.ts),
    Duration.seconds (o.ts.sub prev.ts)⟩

lemma observe_rate (h : b o.key=some prev) (hr : Rates maxGap prev o) :
    observe b maxGap heap o = ⟨some (ratePoint prev o),none,move b heap o,moveHeap heap o⟩ := by
  obtain ⟨hts,hs,hv,hgap⟩ := hr
  have hv' : ¬ o.value < prev.value := not_lt.mpr hv
  have hgap' : ¬ o.ts.sub prev.ts > maxGap := not_lt.mpr hgap
  simp [observe,h,hts,hs,hv',hgap',move,movedState,moveHeap,ratePoint]

@[simp] lemma move_self (b : Baselines) (heap : ℕ) (o : Observation) :
    move b heap o o.key = some (movedState heap o) := by simp [move]

lemma move_of_ne (b : Baselines) (heap : ℕ) {o : Observation} {k : SeriesKey} (h : k≠o.key) :
    move b heap o k = b k := by simp [move,h]

lemma observe_cases (b : Baselines) (maxGap : ℤ) (heap : ℕ) (o : Observation) :
    let r := observe b maxGap heap o
    (r.point=none ∨ r.reset=none) ∧ (r.baselines=b ∧ r.point=none ∧ r.reset=none ∧
      (∃ prev, b o.key=some prev ∧ Late maxGap prev o) ∨ r.baselines=move b heap o) := by
  cases h : b o.key with
  | none => exact ⟨.inl (by rw [observe_first h]),.inr (by rw [observe_first h])⟩
  | some prev =>
    rcases rule_cases maxGap prev o with hl | hr | hr | hg | hr
    · rw [observe_late h hl]
      exact ⟨.inl rfl,.inl ⟨rfl,rfl,rfl,prev,rfl,hl⟩⟩
    · exact ⟨.inl (by rw [observe_rebase h hr]),.inr (by rw [observe_rebase h hr])⟩
    · exact ⟨.inl (by rw [observe_reset h hr]),.inr (by rw [observe_reset h hr])⟩
    · exact ⟨.inl (by rw [observe_gap h hg]),.inr (by rw [observe_gap h hg])⟩
    · exact ⟨.inr (by rw [observe_rate h hr]),.inr (by rw [observe_rate h hr])⟩

lemma observe_frame (b : Baselines) (maxGap : ℤ) (heap : ℕ) (o : Observation) {k : SeriesKey}
    (hk : k≠o.key) : (observe b maxGap heap o).baselines k = b k := by
  rcases (observe_cases b maxGap heap o).2 with ⟨h,-⟩ | h
  · rw [h]
  · rw [h,move_of_ne b heap hk]

lemma observe_local {b b' : Baselines} (maxGap : ℤ) (heap : ℕ) {o : Observation}
    (h : b o.key=b' o.key) :
    (observe b maxGap heap o).point = (observe b' maxGap heap o).point ∧
    (observe b maxGap heap o).reset = (observe b' maxGap heap o).reset ∧
    (observe b maxGap heap o).heap = (observe b' maxGap heap o).heap ∧
    (observe b maxGap heap o).baselines o.key = (observe b' maxGap heap o).baselines o.key := by
  cases h' : b' o.key with
  | none => simp [observe_first (h.trans h'),observe_first h']
  | some prev =>
    have hb := h.trans h'
    rcases rule_cases maxGap prev o with hl | hr | hr | hg | hr
    · simp [observe_late hb hl,observe_late h' hl,h]
    · simp [observe_rebase hb hr,observe_rebase h' hr]
    · simp [observe_reset hb hr,observe_reset h' hr]
    · simp [observe_gap hb hg,observe_gap h' hg]
    · simp [observe_rate hb hr,observe_rate h' hr]

lemma observe_advances (b : Baselines) (maxGap : ℤ) (heap : ℕ) {o : Observation}
    (h : ∀ p, b o.key=some p → ¬Rebases maxGap p o) :
    ∃ st, (observe b maxGap heap o).baselines o.key = some st ∧ o.ts.ns ≤ st.ts.ns ∧
      (∀ p, b o.key=some p → p.ts.ns ≤ st.ts.ns) ∧
      (st=movedState heap o ∨ b o.key=some st) := by
  rcases (observe_cases b maxGap heap o).2 with ⟨hb,-,-,prev,hp,hl⟩ | hb
  · exact ⟨prev,by rw [hb,hp],hl.1,fun p h' => by rw [hp] at h'; cases h'; exact le_rfl,.inr hp⟩
  · refine ⟨movedState heap o,by rw [hb,move_self],le_rfl,fun p hp => ?_,.inl rfl⟩
    change p.ts.ns ≤ o.ts.ns
    by_contra hlt
    -- A baseline ahead of the sample is kept, unless rule 2 rebases.
    rcases rule_cases maxGap p o with hl | hr | hr | hg | hr
    · rw [observe_late hp hl] at hb
      have hk : b o.key = some (movedState heap o) := by
        conv_lhs => rw [show b=move b heap o from hb]
        exact move_self b heap o
      rw [hp] at hk
      cases hk
      exact hlt le_rfl
    · exact h p hp hr
    · exact hlt hr.1.le
    · exact hlt hg.1.le
    · exact hlt hr.1.le

lemma observe_point {b : Baselines} {maxGap : ℤ} {heap : ℕ} {o : Observation} {p : Point}
    (h : (observe b maxGap heap o).point=some p) :
    ∃ prev, b o.key = some prev ∧ Rates maxGap prev o ∧ p = ratePoint prev o := by
  cases hb : b o.key with
  | none => simp [observe_first hb] at h
  | some prev =>
    rcases rule_cases maxGap prev o with hl | hr | hr | hg | hr
    · simp [observe_late hb hl] at h
    · simp [observe_rebase hb hr] at h
    · simp [observe_reset hb hr] at h
    · simp [observe_gap hb hg] at h
    · exact ⟨prev,rfl,hr,by simpa [observe_rate hb hr] using h.symm⟩

end Rules

end Pglens.Delta
