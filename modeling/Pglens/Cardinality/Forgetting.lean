import Pglens.Cardinality.Selector

/-! Forget removes what Select would not look at any more: both compare with a threshold that
only grows with the cycle. Two selectors that agree from a threshold on answer every later Select
alike. -/
namespace Pglens.Cardinality
open Pglens.Lib List

variable {V : Type}

def calls : List (Op V) → List (Call V)
  | [] => []
  | .select call::ops => call::calls ops
  | .forget _::ops => calls ops

section Answers
variable (cmp : Comparisons V) (s : SliceSort (Candidate V))

def answers (sel : Selector) : List (Op V) → List (Selection V)
  | [] => []
  | .select call::ops => (select cmp s sel call).1::answers (select cmp s sel call).2 ops
  | .forget cycle::ops => answers (forget sel cycle).2 ops

end Answers

lemma threshold_mono (opts : Options) {c c' : ℕ} (h : c≤c') :
    threshold opts c ≤ threshold opts c' := by
  unfold threshold
  split_ifs <;> omega

/-- Selectors that no Select from a cycle on tells apart. -/
structure Alike (cycle : ℕ) (sel sel' : Selector) : Prop where
  opts_eq : sel.opts=sel'.opts
  get_iff : ∀ k last, threshold sel'.opts cycle ≤ last →
    (sel.lastSeen.get k=some last ↔ sel'.lastSeen.get k=some last)

namespace Alike
variable {cmp : Comparisons V} {s : SliceSort (Candidate V)} {cycle : ℕ} {sel sel' : Selector}

lemma refl (cycle : ℕ) (sel : Selector) : Alike cycle sel sel := ⟨rfl,fun _ _ _ => .rfl⟩

lemma mono (h : Alike cycle sel sel') {cycle' : ℕ} (hle : cycle≤cycle') : Alike cycle' sel sel' :=
  ⟨h.opts_eq,fun k last hlast => h.get_iff k last ((threshold_mono _ hle).trans hlast)⟩

lemma forget (h : Alike cycle sel sel') {c : ℕ} (hle : c≤cycle) :
    Alike cycle (forget sel c).2 sel' := by
  refine ⟨?_,?_⟩
  · unfold Cardinality.forget
    split_ifs <;> exact h.opts_eq
  · intro k last hlast
    rw [Remembers.forget_lastSeen,h.get_iff k last hlast]
    refine and_iff_left ?_
    rw [h.opts_eq]
    unfold threshold at hlast
    split_ifs at hlast <;> omega

lemma retainedSet_eq (h : Alike cycle sel sel') (cands : List (Candidate V)) :
    retainedSet cmp s sel cycle cands = retainedSet cmp s sel' cycle cands := by
  have hseen : ∀ k, ((sel.lastSeen.get k).any fun last => decide (threshold sel.opts cycle ≤ last)) =
      (sel'.lastSeen.get k).any fun last => decide (threshold sel'.opts cycle ≤ last) := by
    intro k
    rw [h.opts_eq,Bool.eq_iff_iff]
    simp only [Option.any_eq_true,decide_eq_true_eq]
    exact exists_congr fun last => and_congr_left fun hlast => h.get_iff k last hlast
  unfold retainedSet
  rw [h.opts_eq] at hseen ⊢
  simp only [hseen]

lemma select_answer {call : Call V} (h : Alike call.cycle sel sel') :
    (select cmp s sel call).1 = (select cmp s sel' call).1 := by
  unfold Cardinality.select
  rw [h.retainedSet_eq,h.opts_eq]
  split_ifs <;> rfl

lemma select {call : Call V} (h : Alike call.cycle sel sel') :
    Alike call.cycle (select cmp s sel call).2 (select cmp s sel' call).2 := by
  refine ⟨by rw [Remembers.select_opts,Remembers.select_opts,h.opts_eq],?_⟩
  intro k last hlast
  rw [Remembers.select_opts] at hlast
  rw [Remembers.select_lastSeen,Remembers.select_lastSeen,h.opts_eq]
  split_ifs
  · rfl
  · exact h.get_iff k last hlast

end Alike

/-- Every Forget of a sequence comes with a cycle at or below that of the next Select. -/
def ForgetsBefore : List (Op V) → Prop
  | [] => True
  | .select _::ops => ForgetsBefore ops
  | .forget c::ops => (∀ call ∈ (calls ops).head?, c≤call.cycle) ∧ ForgetsBefore ops

lemma le_of_head {cs : List (Call V)} (hcycles : (cs.map Call.cycle).Pairwise (· ≤ ·)) {c : ℕ}
    (h : ∀ call∈cs.head?, c≤call.cycle) : ∀ call∈cs, c≤call.cycle := by
  cases cs with
  | nil => simp
  | cons first cs =>
    have hfirst : c≤first.cycle := h first rfl
    rw [map_cons,pairwise_cons] at hcycles
    rintro call (_|⟨_,hcall⟩)
    · exact hfirst
    · exact hfirst.trans (hcycles.1 _ (mem_map_of_mem hcall))

lemma answers_of_alike {cmp : Comparisons V} {s : SliceSort (Candidate V)} {ops : List (Op V)}
    (hcycles : ((calls ops).map Call.cycle).Pairwise (· ≤ ·)) (hforgets : ForgetsBefore ops) {c : ℕ}
    {sel sel' : Selector} (h : Alike c sel sel') (hlater : ∀ call ∈ calls ops, c≤call.cycle) :
    answers cmp s sel ops = answers cmp s sel' ((calls ops).map Op.select) := by
  induction ops generalizing c sel sel' with
  | nil => rfl
  | cons op ops ih =>
    cases op with
    | select call =>
      have hcall := h.mono (hlater call mem_cons_self)
      rw [calls,map_cons,pairwise_cons] at hcycles
      rw [calls,map_cons,answers,answers,hcall.select_answer,ih hcycles.2 hforgets hcall.select]
      exact fun later hmem => hcycles.1 _ (mem_map_of_mem hmem)
    | forget c' =>
      have hbelow : ∀ call ∈ calls ops, c'≤call.cycle := le_of_head hcycles hforgets.1
      -- a Forget may be older than the cycle from which on the runs agree
      exact ih hcycles hforgets.2 ((h.mono (le_max_left c c')).forget (le_max_right c c')) fun call hmem =>
        max_le (hlater call hmem) (hbelow call hmem)

/-- Inserting Forget calls into a sequence of Select calls, each with a cycle at or below that of the
next Select, changes no answer of a Select. -/
theorem forget_invisible (cmp : Comparisons V) (s : SliceSort (Candidate V)) (sel : Selector) (ops : List (Op V))
    (hcycles : ((calls ops).map Call.cycle).Pairwise (· ≤ ·)) (hforgets : ForgetsBefore ops) :
    answers cmp s sel ops = answers cmp s sel ((calls ops).map Op.select) :=
  answers_of_alike hcycles hforgets (.refl 0 sel) fun _ _ => Nat.zero_le _

/-- Key a is forgotten between the Select of cycle 1 and that of cycle 9, which no longer retains it. -/
theorem forget_invisible_once :
    let first : Op ℤ := .select (inOrder 1 [⟨[0x61],5,5⟩])
    let later : Op ℤ := .select (inOrder 9 [⟨[0x61],1,1⟩,⟨[0x62],3,3⟩])
    (forget (run intComparisons (.insertion _) (newSelector ⟨1,2,2⟩) [first]) 8).1 = 1 ∧
      answers intComparisons (.insertion _) (newSelector ⟨1,2,2⟩) [first,.forget 8,later] =
        answers intComparisons (.insertion _) (newSelector ⟨1,2,2⟩) [first,later] :=
  ⟨by decide +kernel,forget_invisible intComparisons (.insertion _) (newSelector ⟨1,2,2⟩)
    [.select (inOrder 1 [⟨[0x61],5,5⟩]),.forget 8,.select (inOrder 9 [⟨[0x61],1,1⟩,⟨[0x62],3,3⟩])]
    (by decide) ⟨by simp [calls,inOrder],trivial⟩⟩

end Pglens.Cardinality
