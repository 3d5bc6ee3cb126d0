import Mathlib.Data.Nat.Notation
import Mathlib.Tactic.SplitIfs

/-! Programs over a state that may stop with an error, and keep what they did until then. The error
is `none` when the program went through. -/
namespace Pglens.Lib

variable {ε σ α : Type}

abbrev Attempt (ε σ : Type) := σ → σ × Option ε

namespace Attempt

def done : Attempt ε σ := fun s => (s,none)

def pure (f : σ → σ) : Attempt ε σ := fun s => (f s,none)

def andThen (a b : Attempt ε σ) : Attempt ε σ := fun s =>
  match a s with
  | (s,none) => b s
  | (s,some e) => (s,some e)

lemma andThen_pure (a : Attempt ε σ) (f : σ → σ) (s : σ) :
    (a.andThen (pure f)) s = (if (a s).2.isNone then f (a s).1 else (a s).1,(a s).2) := by
  unfold andThen
  generalize a s = r
  obtain ⟨s',_ | e⟩ := r <;> rfl

lemma andThen_assoc (a b c : Attempt ε σ) : (a.andThen b).andThen c = a.andThen (b.andThen c) := by
  funext s
  unfold andThen
  generalize a s = r
  obtain ⟨s',_ | e⟩ := r <;> rfl

lemma andThen_cases (a b : Attempt ε σ) (s : σ) :
    (∃ e, (a s).2=some e ∧ a.andThen b s=((a s).1,some e)) ∨
      (a s).2 = none ∧ a.andThen b s = b (a s).1 := by
  unfold andThen
  generalize a s = r
  obtain ⟨s',_ | e⟩ := r
  · exact .inr ⟨rfl,rfl⟩
  · exact .inl ⟨e,rfl,rfl⟩

variable {a b : Attempt ε σ} {P : σ → Prop}

lemma andThen_of_none {s : σ} (h : (a s).2=none) : a.andThen b s = b (a s).1 := by
  obtain ⟨e,he,_⟩ | ⟨_,heq⟩ := andThen_cases a b s
  · rw [h] at he
    cases he
  · exact heq

def each (f : α → Attempt ε σ) : List α → Attempt ε σ
  | [] => done
  | a::as => (f a).andThen (each f as)

/-- The attempt keeps a property of the state, whether it goes through or not. -/
def Keeps (P : σ → Prop) (a : Attempt ε σ) : Prop := ∀ s, P s → P (a s).1

lemma Keeps.andThen (ha : a.Keeps P) (hb : b.Keeps P) : (a.andThen b).Keeps P := by
  intro s hs
  have h := ha s hs
  unfold Attempt.andThen
  generalize a s = r at h ⊢
  obtain ⟨s',_ | e⟩ := r
  · exact hb s' h
  · exact h

lemma Keeps.after {Q : σ → Prop} (ha : ∀ s, P s → P (a s).1 ∧ ((a s).2=none → Q (a s).1))
    (hb : b.Keeps Q) (hQ : ∀ s, Q s → P s) : (a.andThen b).Keeps P := by
  intro s hs
  obtain ⟨hP,hdone⟩ := ha s hs
  unfold Attempt.andThen
  generalize a s = r at hP hdone ⊢
  obtain ⟨s',_ | e⟩ := r
  · exact hQ _ (hb s' (hdone rfl))
  · exact hP

lemma Keeps.each {f : α → Attempt ε σ} {as : List α}
    (h : ∀ a∈as, (f a).Keeps P) : (Attempt.each f as).Keeps P := by
  induction as with
  | nil => exact fun _ hs => hs
  | cons a as ih => exact (h a (by simp)).andThen (ih fun b hb => h b (by simp [hb]))

end Attempt

end Pglens.Lib
