import Mathlib.Order.Lattice
import Mathlib.Data.List.Pairwise

/-! Tilings of an interval by consecutive intervals, over any linear order. -/
namespace Pglens.Lib

variable {α : Type*} [LinearOrder α]

/-- The intervals of the list follow one another from `lo` to `hi`, none of them empty. -/
def Tiles (lo : α) : List (α × α) → α → Prop
  | [],hi => lo=hi
  | i::is,hi => i.1=lo ∧ i.1 < i.2 ∧ Tiles i.2 is hi

namespace Tiles

variable {lo hi : α} {l : List (α × α)}

lemma snoc {mid : α} (h : Tiles lo l mid) (hlt : mid<hi) : Tiles lo (l++[(mid,hi)]) hi := by
  induction l generalizing lo with
  | nil =>
    obtain rfl : lo=mid := h
    exact ⟨rfl,hlt,rfl⟩
  | cons i is ih =>
    obtain ⟨ha,hb,ht⟩ := h
    exact ⟨ha,hb,ih ht⟩

lemma starts_ge (h : Tiles lo l hi) : ∀ i∈l, lo ≤ i.1 := by
  induction l generalizing lo with
  | nil => simp
  | cons i is ih =>
    obtain ⟨ha,hb,ht⟩ := h
    intro j hj
    rcases List.mem_cons.mp hj with rfl | hj
    · exact ha.ge
    · exact (ha ▸ hb.le).trans (ih ht j hj)

lemma pairwise (h : Tiles lo l hi) : l.Pairwise fun i j => i.2≤j.1 := by
  induction l generalizing lo with
  | nil => exact List.Pairwise.nil
  | cons i is ih =>
    obtain ⟨-,-,ht⟩ := h
    exact List.Pairwise.cons (starts_ge ht) (ih ht)

end Tiles
end Pglens.Lib
