import Pglens.Lib.Rounding
import Mathlib.Tactic.Ring

/-! sequenceUsageOf of internal/check, against the values that the sequence would hand out next. -/
namespace Pglens.Check
open Pglens.Lib

/-- The fields of a sequenceRow that sequenceUsageOf reads. -/
structure SequenceRow where
  start : ℤ
  min : ℤ
  max : ℤ
  increment : ℤ
  cycle : Bool
  typeMin : Option ℤ
  typeMax : Option ℤ
  readable : Bool
  read : Bool
  lastValue : Option ℤ

inductive SequenceState
  | used
  | unused
  | hidden
  | unread
  deriving DecidableEq, Repr

structure SequenceUsage where
  state : SequenceState
  limit : ℤ
  columnBinds : Bool
  exhausts : Bool
  ratio : Option ℚ
  remaining : Option ℤ

namespace SequenceRow

def ascending (s : SequenceRow) : Bool := decide (0<s.increment)

/-- The limit of the usage, and whether the column's type sets it. -/
def bound (s : SequenceRow) : ℤ × Bool :=
  if s.ascending then match s.typeMax with
    | some t => if t<s.max then (t,true) else (s.max,false)
    | none => (s.max,false)
  else match s.typeMin with
    | some t => if s.min<t then (t,true) else (s.min,false)
    | none => (s.min,false)

def limit (s : SequenceRow) : ℤ := s.bound.1

/-- A difference counted in the direction of the sequence. -/
def along (s : SequenceRow) (d : ℤ) : ℤ := if s.ascending then d else -d

def span (s : SequenceRow) : ℤ := s.along (s.limit-s.start)

def step (s : SequenceRow) : ℤ := s.along s.increment

/-- The values used and left, with the quotient of big.Int that drops the fraction. -/
def usedLeft (s : SequenceRow) : ℤ × ℤ :=
  match s.lastValue with
  | none => (0,s.span.tdiv s.step+1)
  | some last => (s.along (last-s.start),(s.along (s.limit-last)).tdiv s.step)

end SequenceRow

section Code
variable (fl : Rounding float64s)

/-- The used fraction of the range, 1 where there is none. -/
def usedRatio (s : SequenceRow) : ℚ :=
  if 0<s.span then Min.min (Max.max (fl.round (s.usedLeft.1/s.span)) 0) 1 else 1

def sequenceUsageOf (s : SequenceRow) : SequenceUsage :=
  let u : SequenceUsage := ⟨.used,s.limit,s.bound.2,!s.cycle || s.bound.2,none,none⟩
  if !s.readable then { u with state := .hidden }
  else if !s.read then { u with state := .unread }
  else
    { u with
      state := if s.lastValue.isNone then .unused else .used
      ratio := some (usedRatio fl s)
      remaining := some (if s.usedLeft.2<0 then 0 else s.usedLeft.2) }

end Code

namespace SequenceRow
variable {s : SequenceRow}

/-- The value that the sequence hands out after `k` more. -/
def further (s : SequenceRow) (k : ℕ) : ℤ :=
  match s.lastValue with
  | none => s.start+k*s.increment
  | some last => last+(k+1)*s.increment

/-- The side of the limit on which the column and the sequence take a value. -/
def Allowed (s : SequenceRow) (v : ℤ) : Prop := if s.ascending then v ≤ s.limit else s.limit ≤ v

/-- The number of further values before the first one beyond the limit. -/
def Headroom (s : SequenceRow) (n : ℕ) : Prop :=
  (∀ k<n, s.Allowed (s.further k)) ∧ ¬s.Allowed (s.further n)

/-- A sequence that was never called, whose start is beyond the limit by less than one step. -/
def Overshoots (s : SequenceRow) : Prop := s.lastValue = none ∧ s.span<0 ∧ -s.step < s.span

lemma step_pos (h : s.increment≠0) : 0<s.step := by
  unfold step along ascending
  split_ifs with hasc
  · simpa using hasc
  · have hneg : ¬0<s.increment := by simpa using hasc
    omega

lemma allowed_iff (s : SequenceRow) (v : ℤ) : s.Allowed v ↔ 0 ≤ s.along (s.limit-v) := by
  unfold Allowed along
  split_ifs <;> omega

lemma along_further (s : SequenceRow) (k : ℕ) : s.along (s.limit-s.further k) =
    match s.lastValue with
    | none => s.span-k*s.step
    | some last => s.along (s.limit-last)-(k+1)*s.step := by
  unfold further span step along
  cases s.lastValue <;> dsimp only <;> split_ifs <;> ring

/-- The room for steps behind the first further value. -/
def room (s : SequenceRow) : ℤ :=
  match s.lastValue with
  | none => s.span
  | some last => s.along (s.limit-last)-s.step

lemma allowed_further (s : SequenceRow) (k : ℕ) : s.Allowed (s.further k) ↔ k*s.step ≤ s.room := by
  rw [allowed_iff,along_further,room]
  cases s.lastValue with
  | none => exact sub_nonneg
  | some last =>
    dsimp only
    have heq : s.along (s.limit-last)-(k+1)*s.step = s.along (s.limit-last)-s.step-k*s.step := by ring
    rw [heq,sub_nonneg]

lemma headroom_iff (h : s.increment≠0) (n : ℕ) :
    s.Headroom n ↔ (n : ℤ) = if s.room<0 then 0 else s.room/s.step+1 := by
  have hpos := step_pos h
  have hquot : ∀ m : ℤ, m*s.step ≤ s.room ↔ m ≤ s.room/s.step := fun m => (Int.le_ediv_iff_mul_le hpos).symm
  have hneg : s.room<0 ↔ s.room/s.step < 0 := by
    rw [Int.ediv_lt_iff_lt_mul hpos,zero_mul]
  simp only [Headroom,allowed_further,hquot,hneg]
  generalize s.room/s.step = q
  constructor
  · rintro ⟨hall,hlast⟩
    cases n with
    | zero =>
      rw [if_pos (by simpa using hlast)]
      rfl
    | succ n =>
      have hn := hall n (by omega)
      rw [if_neg (by omega)]
      push_cast at hlast ⊢
      omega
  · intro hn
    split_ifs at hn with hq
    · obtain rfl : n=0 := by omega
      exact ⟨fun k hk => absurd hk (Nat.not_lt_zero k),by simpa using hq⟩
    · exact ⟨fun k hk => by omega,by omega⟩

lemma left_eq_iff (h : s.increment≠0) :
    (if s.usedLeft.2<0 then 0 else s.usedLeft.2) = (if s.room<0 then 0 else s.room/s.step+1) ↔
      ¬s.Overshoots := by
  have hpos := step_pos h
  unfold usedLeft room Overshoots
  cases s.lastValue with
  | none =>
    dsimp only
    simp only [true_and]
    by_cases hspan : s.span<0
    · obtain ⟨m,hm⟩ : ∃ m, s.span = -m := ⟨-s.span,by ring⟩
      have hquot : s.span.tdiv s.step = -(m/s.step) := by
        rw [hm,Int.neg_tdiv,Int.tdiv_eq_ediv_of_nonneg (by omega)]
      have hlt : m/s.step < 1 ↔ m<s.step := by rw [Int.ediv_lt_iff_lt_mul hpos,one_mul]
      have hnonneg : 0 ≤ m/s.step := Int.ediv_nonneg (by omega) hpos.le
      rw [hquot,if_pos hspan]
      constructor
      · intro hzero hover
        split_ifs at hzero
        · omega
        · omega
      · intro hnot
        split_ifs
        · rfl
        · omega
    · have hquot : s.span.tdiv s.step = s.span/s.step := Int.tdiv_eq_ediv_of_nonneg (by omega)
      have hnonneg : 0 ≤ s.span/s.step := Int.ediv_nonneg (by omega) hpos.le
      rw [hquot,if_neg hspan,if_neg (by omega)]
      simp [hspan]
  | some last =>
    simp only [reduceCtorEq,false_and,not_false_eq_true,iff_true]
    generalize s.along (s.limit-last) = a
    by_cases ha : a<0
    · have hle : a.tdiv s.step ≤ 0 := by
        obtain ⟨m,rfl⟩ : ∃ m, a = -m := ⟨-a,by ring⟩
        rw [Int.neg_tdiv,Int.tdiv_eq_ediv_of_nonneg (by omega)]
        have hnonneg : 0 ≤ m/s.step := Int.ediv_nonneg (by omega) hpos.le
        omega
      rw [if_pos (show a-s.step<0 by omega)]
      split_ifs <;> omega
    · have hnonneg : 0 ≤ a/s.step := Int.ediv_nonneg (by omega) hpos.le
      have hlt : a/s.step < 1 ↔ a<s.step := by rw [Int.ediv_lt_iff_lt_mul hpos,one_mul]
      have hsub : (a-s.step)/s.step = a/s.step-1 := by
        rw [Int.sub_ediv_of_dvd a (dvd_refl s.step),Int.ediv_self hpos.ne']
      rw [Int.tdiv_eq_ediv_of_nonneg (by omega),if_neg (by omega),hsub]
      split_ifs <;> omega

end SequenceRow

section Ratio
variable (fl : Rounding float64s)

lemma usedRatio_mem (s : SequenceRow) : 0 ≤ usedRatio fl s ∧ usedRatio fl s ≤ 1 := by
  unfold usedRatio
  split_ifs
  · exact ⟨le_min (le_max_right _ _) zero_le_one,min_le_right _ _⟩
  · exact ⟨zero_le_one,le_refl 1⟩

lemma usedRatio_mono {s s' : SequenceRow} (hspan : s.span=s'.span)
    (h : s.usedLeft.1 ≤ s'.usedLeft.1) : usedRatio fl s ≤ usedRatio fl s' := by
  unfold usedRatio
  rw [hspan]
  split_ifs with hpos
  · have hq : ((s.usedLeft.1 : ℤ) : ℚ)/s'.span ≤ (s'.usedLeft.1 : ℚ)/s'.span := by
      have hcast : (0 : ℚ) ≤ s'.span := by exact_mod_cast hpos.le
      have hused : (s.usedLeft.1 : ℚ) ≤ s'.usedLeft.1 := by exact_mod_cast h
      exact div_le_div_of_nonneg_right hused hcast
    exact min_le_min_right 1 (max_le_max_right 0 (fl.round_mono hq))
  · exact le_refl 1

lemma sequenceUsageOf_of_read {s : SequenceRow} (hreadable : s.readable=true)
    (hread : s.read=true) :
    (sequenceUsageOf fl s).ratio = some (usedRatio fl s) ∧
      (sequenceUsageOf fl s).remaining = some (if s.usedLeft.2<0 then 0 else s.usedLeft.2) := by
  simp [sequenceUsageOf,hreadable,hread]

/-- The remaining count is the headroom, except for a sequence that was never called and starts
beyond its limit by less than a step; the ratio is a fraction that grows with the last value. -/
theorem sequence_headroom_exact (fl : Rounding float64s) (s : SequenceRow) (hincrement : s.increment≠0)
    (hreadable : s.readable=true) (hread : s.read=true) :
    ((∃ n : ℕ, (sequenceUsageOf fl s).remaining=some (n : ℤ) ∧ s.Headroom n) ↔ ¬s.Overshoots) ∧
    (∃ ratio, (sequenceUsageOf fl s).ratio=some ratio ∧ 0≤ratio ∧ ratio≤1) ∧
    (∀ v v', s.along v ≤ s.along v' → ∃ ratio ratio',
      (sequenceUsageOf fl { s with lastValue := some v }).ratio=some ratio ∧
      (sequenceUsageOf fl { s with lastValue := some v' }).ratio=some ratio' ∧ ratio≤ratio') ∧
    ∀ v, s.along s.start ≤ s.along v → ∃ ratio ratio',
      (sequenceUsageOf fl { s with lastValue := none }).ratio = some ratio ∧
      (sequenceUsageOf fl { s with lastValue := some v }).ratio = some ratio' ∧ ratio≤ratio' := by
  have hsub : ∀ a b, s.along (a-b) = s.along a-s.along b := by
    intro a b
    unfold SequenceRow.along
    split_ifs <;> ring
  obtain ⟨hratio,hremaining⟩ := sequenceUsageOf_of_read fl hreadable hread
  have hlast : ∀ last, (sequenceUsageOf fl { s with lastValue := last }).ratio =
      some (usedRatio fl { s with lastValue := last }) := fun last =>
    (sequenceUsageOf_of_read fl (s := { s with lastValue := last }) hreadable hread).1
  refine ⟨?_,⟨_,hratio,usedRatio_mem fl s⟩,fun v v' hle => ?_,fun v hle => ?_⟩
  · rw [← SequenceRow.left_eq_iff hincrement,hremaining]
    constructor
    · rintro ⟨n,hn,hhead⟩
      rw [← (SequenceRow.headroom_iff hincrement n).mp hhead]
      exact Option.some.inj hn
    · intro hleft
      obtain ⟨n,hn⟩ : ∃ n : ℕ, (if s.usedLeft.2<0 then 0 else s.usedLeft.2) = (n : ℤ) :=
        Int.eq_ofNat_of_zero_le (by split_ifs <;> omega)
      rw [hn] at hleft ⊢
      exact ⟨n,rfl,(SequenceRow.headroom_iff hincrement n).mpr hleft⟩
  · refine ⟨_,_,hlast _,hlast _,usedRatio_mono fl rfl ?_⟩
    change s.along (v-s.start) ≤ s.along (v'-s.start)
    rw [hsub,hsub]
    omega
  · refine ⟨_,_,hlast _,hlast _,usedRatio_mono fl rfl ?_⟩
    change 0 ≤ s.along (v-s.start)
    rw [hsub]
    omega

/-- A bigint sequence behind a smallint column. -/
def smallintSequence (start increment : ℤ) (lastValue : Option ℤ) : SequenceRow :=
  ⟨start,1,2^63-1,increment,false,some (-32768),some 32767,true,true,lastValue⟩

/-- Two values more, 32757 and 32767. -/
theorem sequence_headroom_two : ∃ fl : Rounding float64s,
    ∃ n : ℕ, (sequenceUsageOf fl (smallintSequence 1 10 (some 32747))).remaining = some (n : ℤ) ∧
      (smallintSequence 1 10 (some 32747)).Headroom n := by
  obtain ⟨fl⟩ := exists_float64
  refine ⟨fl,(sequence_headroom_exact fl (smallintSequence 1 10 (some 32747)) (by decide) rfl rfl).1.mpr ?_⟩
  rintro ⟨hnone,-⟩
  cases hnone

/-- A start of 32768 does not fit, and one value is reported as left. -/
theorem sequence_headroom_missed : ∃ fl : Rounding float64s,
    (sequenceUsageOf fl (smallintSequence 32768 10 none)).remaining = some 1 ∧
      (smallintSequence 32768 10 none).Headroom 0 ∧ ¬(smallintSequence 32768 10 none).Headroom 1 := by
  obtain ⟨fl⟩ := exists_float64
  have hhead := SequenceRow.headroom_iff (s := smallintSequence 32768 10 none) (by decide)
  refine ⟨fl,rfl,(hhead 0).mpr (by decide),fun h => absurd ((hhead 1).mp h) (by decide)⟩

end Ratio

end Pglens.Check
