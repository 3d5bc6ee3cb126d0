import Mathlib.Data.List.Basic
import Mathlib.Tactic.SplitIfs

/-! A run records every label in order. The induction from one step to a whole run is done here
once: an invariant, a relation between the two ends, and the bridge from an executable partial step
function to the relation. -/
namespace Pglens.Lib

variable {σ α : Type*}

/-- A finite run of a labelled step relation. -/
inductive Run (Step : σ → α → σ → Prop) : σ → List α → σ → Prop
  | nil (s : σ) : Run Step s [] s
  | cons {s t u : σ} {a : α} {as : List α} (head : Step s a t) (tail : Run Step t as u) :
      Run Step s (a::as) u

namespace Run
variable {Step : σ → α → σ → Prop} {P : σ → Prop} {s t : σ} {as : List α}

lemma invariant (hstep : ∀ s a t, P s → Step s a t → P t) (h : Run Step s as t) (hs : P s) :
    P t := by
  induction h with
  | nil s => exact hs
  | cons head tail ih => exact ih (hstep _ _ _ hs head)

lemma relates {R : σ → σ → Prop} (hrefl : ∀ s, R s s) (htrans : ∀ s t u, R s t → R t u → R s u)
    (hstep : ∀ s a t, P s → Step s a t → P t ∧ R s t) (h : Run Step s as t) (hs : P s) : R s t := by
  induction h with
  | nil s => exact hrefl s
  | cons head tail ih =>
    obtain ⟨ht,hr⟩ := hstep _ _ _ hs head
    exact htrans _ _ _ hr (ih ht)

lemma single {a : α} (h : Step s a t) : Run Step s [a] t :=
  Run.cons h (Run.nil t)

end Run

structure Taken (σ α : Type*) where
  before : σ
  label : α
  after : σ

/-- A run of a partial step function with every step it took, the last one at the end. -/
inductive Trace (f : σ → α → Option σ) (s₀ : σ) : List (Taken σ α) → σ → Prop
  | start : Trace f s₀ [] s₀
  | step {steps : List (Taken σ α)} {s t : σ} {a : α} (earlier : Trace f s₀ steps s) (last : f s a=some t) :
      Trace f s₀ (steps++[⟨s,a,t⟩]) t

variable {f : σ → α → Option σ} {s₀ s t : σ} {as : List α}

lemma Trace.taken {steps : List (Taken σ α)} (h : Trace f s₀ steps s) :
    ∀ st∈steps, f st.before st.label = some st.after := by
  induction h with
  | start => simp
  | step _ last ih =>
    intro st hst
    obtain hst | hst := List.mem_append.mp hst
    · exact ih st hst
    · rwa [List.mem_singleton.mp hst]

def exec (f : σ → α → Option σ) : σ → List α → Option σ
  | s, [] => some s
  | s, a::as => (f s a).bind fun t => exec f t as

lemma exec_append (f : σ → α → Option σ) (s : σ) (as bs : List α) :
    exec f s (as++bs) = (exec f s as).bind fun t => exec f t bs := by
  induction as generalizing s with
  | nil => rfl
  | cons a as ih => simp [exec,ih,Option.bind_assoc]

def execSteps (f : σ → α → Option σ) : σ → List α → List (Taken σ α)
  | _, [] => []
  | s, a::as => match f s a with
    | none => []
    | some t => ⟨s,a,t⟩::execSteps f t as

lemma exec_trace (h : exec f s as=some t) {earlier : List (Taken σ α)} (hs : Trace f s₀ earlier s) :
    Trace f s₀ (earlier++execSteps f s as) t ∧ (execSteps f s as).map Taken.label = as := by
  induction as generalizing s earlier with
  | nil =>
    cases h
    exact ⟨by simpa [execSteps] using hs,rfl⟩
  | cons a as ih =>
    obtain ⟨u,hu,ht⟩ := Option.bind_eq_some_iff.mp h
    obtain ⟨htrace,hlabels⟩ := ih ht (hs.step hu)
    simp only [execSteps,hu]
    exact ⟨by simpa using htrace,by simp [hlabels]⟩

lemma exec_invariant {P : σ → Prop} (hstep : ∀ s a t, P s → f s a=some t → P t)
    {s t : σ} (h : exec f s as=some t) (hs : P s) : P t := by
  induction as generalizing s with
  | nil =>
    cases h
    exact hs
  | cons a as ih =>
    obtain ⟨u,hu,ht⟩ := Option.bind_eq_some_iff.mp h
    exact ih ht (hstep s a u hs hu)

lemma exec_run {Step : σ → α → σ → Prop} (hstep : ∀ s a t, f s a=some t → Step s a t)
    (h : exec f s as=some t) : Run Step s as t := by
  induction as generalizing s with
  | nil =>
    cases h
    exact Run.nil _
  | cons a as ih =>
    obtain ⟨u,hu,ht⟩ := Option.bind_eq_some_iff.mp h
    exact Run.cons (hstep s a u hu) (ih ht)

def guarded (P : σ → α → Prop) [∀ s a,Decidable (P s a)] (f : σ → α → Option σ) (s : σ) (a : α) :
    Option σ := if P s a then f s a else none

lemma exec_guarded_run {P : σ → α → Prop} [∀ s a,Decidable (P s a)]
    (h : exec (guarded P f) s as=some t) : Run (fun s a t => P s a ∧ f s a=some t) s as t := by
  refine exec_run (fun s a t hs => ?_) h
  unfold guarded at hs
  split_ifs at hs with hp
  exact ⟨hp,hs⟩

end Pglens.Lib
