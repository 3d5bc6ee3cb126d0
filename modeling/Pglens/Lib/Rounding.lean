import Mathlib.Algebra.Order.Field.Rat
import Mathlib.Data.Set.Finite.Lemmas
import Mathlib.Order.Interval.Finset.Defs
import Mathlib.Data.Finite.Prod
import Mathlib.Data.Int.Interval
import Mathlib.Tactic.Linarith
import Mathlib.Tactic.Positivity

/-! Functions that send a rational to a nearest member of a set, ties either way, and the set of the
finite float64 values. -/
namespace Pglens.Lib

structure Rounding (F : Set ℚ) where
  round : ℚ → ℚ
  mem : ∀ q, round q ∈ F
  nearest : ∀ q, ∀ f∈F, |q-round q| ≤ |q-f|

namespace Rounding
variable {F : Set ℚ} (r : Rounding F)

lemma round_of_mem {q : ℚ} (h : q∈F) : r.round q = q := by
  have hzero := r.nearest q q h
  rw [sub_self,abs_zero] at hzero
  exact (sub_eq_zero.mp (abs_nonpos_iff.mp hzero)).symm

lemma middle_le {q f g : ℚ} (hlt : f<g) (h : |q-g| ≤ |q-f|) : f+g ≤ 2*q := by
  have hsq := sq_le_sq.mpr h
  nlinarith

lemma le_middle {q f g : ℚ} (hlt : f<g) (h : |q-f| ≤ |q-g|) : 2*q ≤ f+g := by
  have hsq := sq_le_sq.mpr h
  nlinarith

lemma round_mono : Monotone r.round := by
  intro q q' hle
  by_contra hlt
  rw [not_le] at hlt
  have hlow := middle_le hlt (r.nearest q _ (r.mem q'))
  have hhigh := le_middle hlt (r.nearest q' _ (r.mem q))
  have heq : q=q' := by linarith
  rw [heq] at hlt
  exact lt_irrefl _ hlt

lemma exists_of_finite (hfin : F.Finite) (hne : F.Nonempty) : Nonempty (Rounding F) := by
  have hmin : ∀ q, ∃ f∈F, ∀ g∈F, |q-f| ≤ |q-g| := fun q => F.exists_min_image _ hfin hne
  choose f hf hnearest using hmin
  exact ⟨⟨f,hf,hnearest⟩⟩

end Rounding

def float64s : Set ℚ :=
  {q | ∃ m e : ℤ, |m| < 2^53 ∧ -1074 ≤ e ∧ e≤971 ∧ q=m*2^e}

lemma intCast_mem_float64s {m : ℤ} (h : |m| < 2^53) : (m : ℚ) ∈ float64s :=
  ⟨m,0,h,by decide,by decide,by simp⟩

lemma Rounding.round_intCast (r : Rounding float64s) {m : ℤ} (h : |m| < 2^53) : r.round m = m :=
  r.round_of_mem (intCast_mem_float64s h)

lemma Rounding.round_zero (r : Rounding float64s) : r.round 0 = 0 := by
  exact_mod_cast r.round_intCast (m := 0) (by decide)

lemma float64s_finite : float64s.Finite := by
  have hbox := ((Set.finite_Icc (-2^53 : ℤ) (2^53)).prod (Set.finite_Icc (-1074 : ℤ) 971)).image
    fun p => (p.1 : ℚ)*2^p.2
  refine hbox.subset ?_
  rintro q ⟨m,e,hm,hlow,hhigh,rfl⟩
  obtain ⟨hm,hm'⟩ := abs_lt.mp hm
  exact ⟨(m,e),⟨⟨hm.le,hm'.le⟩,hlow,hhigh⟩,rfl⟩

lemma exists_float64 : Nonempty (Rounding float64s) :=
  Rounding.exists_of_finite float64s_finite ⟨0,0,0,by norm_num,by decide,by decide,by simp⟩

end Pglens.Lib
