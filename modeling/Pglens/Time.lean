import Mathlib.Algebra.Group.Int.Defs
import Mathlib.Data.Int.Order.Basic
import Mathlib.Data.Rat.Defs
import Mathlib.Tactic.SplitIfs

/-! Instants and durations of the Go time package. An instant counts nanoseconds from the zero Time,
so `isZero` is `ns = 0`. A time.Time also carries a location pointer: Equal, Before, After and Sub
ignore it and `==` on structs compares it. Durations are int64 nanoseconds, and Sub saturates at
their range. -/
namespace Pglens

namespace Duration

def second : ℤ := 1000000000
def minute : ℤ := 60*second
def hour : ℤ := 60*minute
def microsecond : ℤ := 1000

def maxDuration : ℤ := 2^63-1
def minDuration : ℤ := -2^63

/-- Duration.Seconds, with the float taken as an exact rational. -/
def seconds (d : ℤ) : ℚ := (d : ℚ)/1000000000

end Duration

/-- time.Time: the instant, and the location word that only `==` reads. -/
structure Time where
  ns : ℤ
  loc : ℕ := 0
  deriving DecidableEq, Repr

namespace Time

def zero : Time := ⟨0,0⟩

instance : Inhabited Time := ⟨zero⟩

def isZero (t : Time) : Bool := t.ns == 0
def equal (t u : Time) : Bool := t.ns == u.ns
def before (t u : Time) : Bool := decide (t.ns<u.ns)
def after (t u : Time) : Bool := decide (u.ns<t.ns)
def add (t : Time) (d : ℤ) : Time := { t with ns := t.ns+d }

/-- An instant in seconds, as Duration.Seconds counts them. -/
def seconds (t : Time) : ℚ := Duration.seconds t.ns

/-- Time.Sub: the difference, clamped to the range of a Duration. -/
def sub (t u : Time) : ℤ :=
  if Duration.maxDuration < t.ns-u.ns then Duration.maxDuration
  else if t.ns-u.ns < Duration.minDuration then Duration.minDuration
  else t.ns-u.ns

@[simp] lemma isZero_iff (t : Time) : t.isZero=true ↔ t.ns=0 := by simp [isZero]
@[simp] lemma equal_iff (t u : Time) : t.equal u = true ↔ t.ns=u.ns := by simp [equal]
@[simp] lemma before_iff (t u : Time) : t.before u = true ↔ t.ns<u.ns := by simp [before]
@[simp] lemma after_iff (t u : Time) : t.after u = true ↔ u.ns<t.ns := by simp [after]
@[simp] lemma before_eq_false_iff (t u : Time) : t.before u = false ↔ u.ns≤t.ns := by
  simp [before]
@[simp] lemma after_eq_false_iff (t u : Time) : t.after u = false ↔ t.ns≤u.ns := by
  simp [after]
@[simp] lemma add_ns (t : Time) (d : ℤ) : (t.add d).ns = t.ns+d := rfl

variable {t u : Time} {d : ℤ}

lemma sub_eq_of_le (hd : d<Duration.maxDuration)
    (hle : u.ns≤t.ns) (h : t.sub u ≤ d) : t.sub u = t.ns-u.ns := by
  simp only [sub,Duration.maxDuration,Duration.minDuration] at *
  split_ifs at * <;> omega

lemma sub_le (h : u.ns≤t.ns) : t.sub u ≤ t.ns-u.ns := by
  simp only [sub,Duration.maxDuration,Duration.minDuration]
  split_ifs <;> omega

lemma lt_of_lt_sub (hd : 0≤d) (h : d<t.sub u) : u.ns+d < t.ns := by
  simp only [sub,Duration.maxDuration,Duration.minDuration] at h
  split_ifs at h <;> omega

lemma lt_sub_iff (hd : 0≤d) (hmax : d<Duration.maxDuration) : d < t.sub u ↔ d < t.ns-u.ns := by
  simp only [sub,Duration.maxDuration,Duration.minDuration] at *
  split_ifs <;> omega

end Time
end Pglens
