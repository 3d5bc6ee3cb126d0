import Mathlib.Data.Nat.Notation

/-! A loop whose rounds either leave with a result or go on with the next state. A round may fail,
as an index out of range does, and so may a loop that is still going after its fuel. -/
namespace Pglens.Lib

inductive Round (α σ : Type*)
  | leave (a : α)
  | again (s : σ)

variable {α σ : Type*}

def loop (body : σ → Option (Round α σ)) : ℕ → σ → Option α
  | 0, _ => none
  | n+1, s => match body s with
    | none => none
    | some (.leave a) => some a
    | some (.again s') => loop body n s'

/-- A round does not fail: it leaves with the value of the state, or goes on to a state with the
same value and a smaller measure. -/
def Toward (I : σ → Prop) (μ : σ → ℕ) (f : σ → α) (s : σ) : Option (Round α σ) → Prop
  | none => False
  | some (.leave a) => a = f s
  | some (.again s') => I s' ∧ μ s' < μ s ∧ f s' = f s

lemma loop_eq {body : σ → Option (Round α σ)} (I : σ → Prop) (μ : σ → ℕ) (f : σ → α)
    (h : ∀ s, I s → Toward I μ f s (body s)) {n : ℕ} {s : σ} (hs : I s) (hn : μ s<n) :
    loop body n s = some (f s) := by
  induction n generalizing s with
  | zero => omega
  | succ n ih =>
    have hround := h s hs
    rw [loop]
    cases hbody : body s with
    | none => rw [hbody] at hround; exact hround.elim
    | some r =>
      rw [hbody] at hround
      cases r with
      | leave a => exact congrArg some hround
      | again s' =>
        obtain ⟨hs',hμ,hf⟩ := hround
        exact (ih hs' (by omega)).trans (congrArg some hf)

end Pglens.Lib
