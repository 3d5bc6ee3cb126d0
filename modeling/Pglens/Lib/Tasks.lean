import Mathlib.Data.List.Basic
import Mathlib.Data.Nat.Notation

/-! Tasks are kept in a list in the order they were started in, and those at some of their stages
are counted. -/
namespace Pglens.Lib

lemma countP_set_some {α : Type} {l : List α} {i : ℕ} {a : α} (h : l[i]?=some a) (b : α)
    (p : α → Bool) :
    (l.set i b).countP p+(if p a then 1 else 0) = l.countP p+(if p b then 1 else 0) := by
  obtain ⟨hlt,rfl⟩ := List.getElem?_eq_some_iff.mp h
  rw [List.countP_set hlt]
  cases hp : p l[i] with
  | false => simp
  | true =>
    have hpos : 0 < l.countP p := List.countP_pos_iff.mpr ⟨l[i],List.getElem_mem hlt,hp⟩
    simp only [if_true]
    omega

lemma getElem?_set_cases {α : Type} {l : List α} {i j : ℕ} {a b : α}
    (h : (l.set i a)[j]?=some b) : i=j ∧ b=a ∨ i≠j ∧ l[j]? = some b := by
  by_cases hij : i=j
  · subst hij
    obtain ⟨-,-,rfl⟩ := Option.map_eq_some_iff.mp (List.getElem?_set_self' ▸ h)
    exact .inl ⟨rfl,rfl⟩
  · exact .inr ⟨hij,by rwa [List.getElem?_set_ne hij] at h⟩

end Pglens.Lib
