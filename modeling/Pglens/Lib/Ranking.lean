import Mathlib.Data.List.Sort
import Mathlib.Data.List.Nodup
import Mathlib.Tactic.Linarith

/-! What sort.Slice of Go promises, for comparisons that order the slice and for those that do not,
and what the first elements of a ranking are. A comparison by several fields decides by the first
field in which two values differ. The keys of a map are visited in an order of the runtime's own. -/
namespace Pglens.Lib
open List

/-- A comparison that is a strict total order. -/
structure StrictTotal {α : Type} (less : α → α → Bool) : Prop where
  irrefl : ∀ a, less a a = false
  trans : ∀ a b c, less a b = true → less b c = true → less a c = true
  total : ∀ a b, a≠b → less a b = true ∨ less b a = true

/-- A comparison that is a strict total order among the members of a list. -/
structure StrictTotalOn {α : Type} (less : α → α → Bool) (l : List α) : Prop where
  irrefl : ∀ a∈l, less a a = false
  trans : ∀ a∈l, ∀ b∈l, ∀ c∈l, less a b = true → less b c = true → less a c = true
  total : ∀ a∈l, ∀ b∈l, a≠b → less a b = true ∨ less b a = true

section Comparisons
variable {α β : Type}

def ascending [LinearOrder α] (a b : α) : Bool := decide (a<b)
def descending [LinearOrder α] (a b : α) : Bool := decide (b<a)

/-- The comparison of pairs by their first component and then by their second. -/
def lexLess [DecidableEq α] (less : α → α → Bool) (less' : β → β → Bool) (p q : α × β) : Bool :=
  if p.1≠q.1 then less p.1 q.1 else less' p.2 q.2

lemma strictTotal_ascending [LinearOrder α] : StrictTotal (ascending (α := α)) where
  irrefl a := decide_eq_false (lt_irrefl a)
  trans _ _ _ hab hbc := decide_eq_true ((of_decide_eq_true hab).trans (of_decide_eq_true hbc))
  total _ _ hne := (lt_or_gt_of_ne hne).imp decide_eq_true decide_eq_true

namespace StrictTotal
variable {less : α → α → Bool} {less' : β → β → Bool}

lemma flip (h : StrictTotal less) : StrictTotal fun a b => less b a where
  irrefl := h.irrefl
  trans a b c hab hbc := h.trans c b a hbc hab
  total a b hne := h.total b a hne.symm

lemma lexLess [DecidableEq α] (h : StrictTotal less) (h' : StrictTotal less') :
    StrictTotal (lexLess less less') where
  irrefl p := by simp [Lib.lexLess,h'.irrefl]
  trans := by
    rintro ⟨a,x⟩ ⟨b,y⟩ ⟨c,z⟩ hab hbc
    simp only [Lib.lexLess] at hab hbc ⊢
    by_cases heq : a=b
    · subst heq
      rw [if_neg (by simp)] at hab
      by_cases heq' : a=c
      · subst heq'
        rw [if_neg (by simp)] at hbc ⊢
        exact h'.trans _ _ _ hab hbc
      · rw [if_pos heq'] at hbc ⊢
        exact hbc
    · rw [if_pos heq] at hab
      by_cases heq' : b=c
      · subst heq'
        rw [if_pos heq]
        exact hab
      · rw [if_pos heq'] at hbc
        have hac := h.trans _ _ _ hab hbc
        -- a = c would make the order of a and b go both ways
        rw [if_pos]
        · exact hac
        · rintro rfl
          rw [h.irrefl] at hac
          cases hac
  total := by
    rintro ⟨a,x⟩ ⟨b,y⟩ hne
    simp only [Lib.lexLess]
    by_cases heq : a=b
    · subst heq
      rw [if_neg (by simp),if_neg (by simp)]
      exact h'.total x y fun hxy => hne (by rw [hxy])
    · rw [if_pos heq,if_pos (Ne.symm heq)]
      exact h.total a b heq

lemma comap_on (h : StrictTotal less') (f : α → β) {l : List α}
    (hinj : ∀ a∈l, ∀ b∈l, f a=f b → a=b) : StrictTotalOn (fun a b => less' (f a) (f b)) l where
  irrefl _ _ := h.irrefl _
  trans _ _ _ _ _ _ := h.trans _ _ _
  total a ha b hb hne := h.total _ _ fun heq => hne (hinj a ha b hb heq)

end StrictTotal

lemma StrictTotalOn.congr {less less' : α → α → Bool} {l l' : List α} (h : StrictTotalOn less l)
    (hsub : l' ⊆ l)
    (heq : ∀ a∈l, ∀ b∈l, less' a b=less a b) : StrictTotalOn less' l' where
  irrefl a ha := (heq a (hsub ha) a (hsub ha)).trans (h.irrefl a (hsub ha))
  trans a ha b hb c hc := by
    rw [heq a (hsub ha) b (hsub hb),heq b (hsub hb) c (hsub hc),heq a (hsub ha) c (hsub hc)]
    exact h.trans a (hsub ha) b (hsub hb) c (hsub hc)
  total a ha b hb hne := by
    rw [heq a (hsub ha) b (hsub hb),heq b (hsub hb) a (hsub ha)]
    exact h.total a (hsub ha) b (hsub hb) hne

lemma strictTotal_descending [LinearOrder α] : StrictTotal (descending (α := α)) :=
  strictTotal_ascending.flip

end Comparisons

/-- The order in which range visits the keys of a map. -/
structure Ranging (α : Type) where
  visit : List α → List α
  perm : ∀ l, (visit l).Perm l

def Ranging.inOrder (α : Type) : Ranging α := ⟨id,fun _ => .rfl⟩

/-- sort.Slice: a permutation, in the order of the comparison when it is one. -/
structure SliceSort (α : Type) where
  sort : (α → α → Bool) → List α → List α
  perm : ∀ less l, (sort less l).Perm l
  sorted : ∀ less l, StrictTotalOn less l → (sort less l).Pairwise fun a b => less b a = false

namespace SliceSort
variable {α : Type} {less : α → α → Bool} {l : List α}

def insertion (α : Type) : SliceSort α where
  sort less l := (l.attach.insertionSort fun a b => less b.1 a.1=false).map Subtype.val
  perm less l := by
    have hperm := (perm_insertionSort (fun a b : {x // x ∈ l} => less b.1 a.1=false) l.attach).map
      Subtype.val
    rwa [attach_map_subtype_val] at hperm
  sorted less l h := by
    have htotal : Std.Total fun a b : {x // x ∈ l} => less b.1 a.1 = false := by
      constructor
      intro a b
      by_contra hboth
      simp only [not_or,Bool.not_eq_false] at hboth
      have hself := h.trans a a.2 b b.2 a a.2 hboth.2 hboth.1
      rw [h.irrefl a a.2] at hself
      cases hself
    have htrans : IsTrans {x // x ∈ l} fun a b => less b.1 a.1 = false := by
      constructor
      intro a b c hba hcb
      cases hca : less c.1 a.1 with
      | false => rfl
      | true =>
        by_cases hab : a.1=b.1
        · rw [← hab,hca] at hcb
          cases hcb
        · obtain hab | hba' := h.total a a.2 b b.2 hab
          · rw [h.trans c c.2 a a.2 b b.2 hca hab] at hcb
            cases hcb
          · rw [hba'] at hba
            cases hba
    rw [pairwise_map]
    exact pairwise_insertionSort _ _

variable (s : SliceSort α)

section Perm
variable (less : α → α → Bool) (l : List α)

lemma mem_sort {a : α} : a ∈ s.sort less l ↔ a∈l := (s.perm less l).mem_iff

lemma nodup_sort {l : List α} (h : l.Nodup) :
    (s.sort less l).Nodup := (s.perm less l).nodup_iff.mpr h

lemma length_sort : (s.sort less l).length = l.length := (s.perm less l).length_eq

lemma getD_map_sort (o : Option (List α)) :
    (o.map (s.sort less)).getD [] = s.sort less (o.getD []) := by
  cases o with
  | some l => rfl
  | none => exact ((s.perm less []).eq_nil).symm

end Perm

lemma sort_eq_of_perm {l' : List α} (h : StrictTotalOn less l) (hperm : l.Perm l') :
    s.sort less l = s.sort less l' := by
  have h' : StrictTotalOn less l' := ⟨fun a ha => h.irrefl a (hperm.mem_iff.mpr ha),
    fun a ha b hb c hc => h.trans a (hperm.mem_iff.mpr ha) b (hperm.mem_iff.mpr hb) c (hperm.mem_iff.mpr hc),
    fun a ha b hb => h.total a (hperm.mem_iff.mpr ha) b (hperm.mem_iff.mpr hb)⟩
  refine List.Perm.eq_of_pairwise (fun a b ha hb hab hba => ?_) (s.sorted less l h) (s.sorted less l' h')
    ((s.perm less l).trans (hperm.trans (s.perm less l').symm))
  have hal : a∈l := (s.mem_sort less l).mp ha
  have hbl : b∈l := hperm.mem_iff.mpr ((s.mem_sort less l').mp hb)
  by_contra hne
  obtain hless | hless := h.total a hal b hbl hne
  · rw [hba] at hless
    cases hless
  · rw [hab] at hless
    cases hless

lemma not_less_of_take (h : StrictTotalOn less l) {n : ℕ} {a b : α}
    (ha : a ∈ (s.sort less l).take n) (hb : b ∈ (s.sort less l).drop n) : less b a = false := by
  have hsorted := s.sorted less l h
  rw [← take_append_drop n (s.sort less l),pairwise_append] at hsorted
  exact hsorted.2.2 a ha b hb

lemma mem_take_iff (h : StrictTotalOn less l) {n : ℕ} {a : α} :
    a ∈ (s.sort less l).take n ↔ a∈l ∧ l.countP (less · a) < n := by
  have hsorted := s.sorted less l h
  rw [← (s.perm less l).countP_eq,← s.mem_sort less l]
  constructor
  · intro ha
    obtain ⟨u,v,huv⟩ := append_of_mem ha
    have hsplit : s.sort less l = u++a::(v++(s.sort less l).drop n) := by
      conv_lhs => rw [← take_append_drop n (s.sort less l),huv]
      simp
    have hlen : u.length<n := by
      have := congrArg List.length huv
      simp only [length_append,length_cons,length_take] at this
      omega
    refine ⟨mem_of_mem_take ha,?_⟩
    rw [hsplit,pairwise_append,pairwise_cons] at hsorted
    have hself : less a a = false := h.irrefl a ((s.mem_sort less l).mp (mem_of_mem_take ha))
    have htail : (v++(s.sort less l).drop n).countP (less · a) = 0 :=
      countP_eq_zero.mpr fun b hb => by simpa using hsorted.2.1.1 b hb
    calc (s.sort less l).countP (less · a) = u.countP (less · a) := by
          conv_lhs => rw [hsplit]
          rw [countP_append,countP_cons_of_neg (by simp [hself]),htail,add_zero]
      _ ≤ u.length := countP_le_length
      _ < n := hlen
  · rintro ⟨ha,hcount⟩
    by_contra hnot
    have hdrop : a ∈ (s.sort less l).drop n := by
      rw [← take_append_drop n (s.sort less l),mem_append] at ha
      exact ha.resolve_left hnot
    have hbefore : ∀ b ∈ (s.sort less l).take n, less b a = true := by
      intro b hb
      have hne : b≠a := by
        rintro rfl
        exact hnot hb
      have hmem : ∀ c ∈ s.sort less l, c∈l := fun c => (s.mem_sort less l).mp
      refine (h.total b (hmem b (mem_of_mem_take hb)) a (hmem a ha) hne).resolve_right ?_
      rw [s.not_less_of_take h hb hdrop]
      decide
    have htake : ((s.sort less l).take n).countP (less · a) = n := by
      rw [countP_eq_length.mpr hbefore,length_take]
      have := length_pos_of_mem hdrop
      rw [length_drop] at this
      omega
    have hle := (take_sublist n (s.sort less l)).countP_le (p := (less · a))
    omega

end SliceSort

end Pglens.Lib
