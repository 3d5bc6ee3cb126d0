import Mathlib.Algebra.BigOperators.Group.List.Basic
import Mathlib.Data.List.Induction
import Mathlib.Data.List.Dedup

/-! A map of counters, as `m[k] += x` builds it, and the tally of a list. -/
namespace Pglens.Lib
open List

/-- The counters of a map, each key once. -/
structure Tally (K M : Type) where
  entries : List (K × M)
  nodup : (entries.map Prod.fst).Nodup

namespace Tally
variable {K M : Type} [DecidableEq K]

section Add
variable [Add M]

def bump (k : K) (x : M) : List (K × M) → List (K × M)
  | [] => [(k,x)]
  | e::m => if e.1=k then (k,e.2+x)::m else e::bump k x m

lemma bump_keys (k : K) (x : M) (m : List (K × M)) : (bump k x m).map Prod.fst =
    if k ∈ m.map Prod.fst then m.map Prod.fst else m.map Prod.fst++[k] := by
  induction m with
  | nil => simp [bump]
  | cons e m ih =>
    by_cases h : e.1=k
    · simp [bump,h]
    · simp only [bump,if_neg h,map_cons,ih,mem_cons,Ne.symm h,false_or]
      split_ifs <;> simp

def add (t : Tally K M) (k : K) (x : M) : Tally K M where
  entries := bump k x t.entries
  nodup := by
    rw [bump_keys]
    split_ifs with h
    · exact t.nodup
    · exact t.nodup.append (nodup_singleton k) (disjoint_singleton.mpr h)

def empty : Tally K M := ⟨[],nodup_nil⟩

def of {α : Type} (key : α → K) (weight : α → M) (l : List α) : Tally K M :=
  l.foldl (fun t a => t.add (key a) (weight a)) empty

end Add

def keys (t : Tally K M) : List K := t.entries.map Prod.fst

omit [DecidableEq K] in
lemma nodup_entries (t : Tally K M) : t.entries.Nodup := t.nodup.of_map

variable [AddCommMonoid M]

def look (k : K) : List (K × M) → M
  | [] => 0
  | e::m => if e.1=k then e.2 else look k m

def get (t : Tally K M) (k : K) : M := look k t.entries

lemma look_bump (k : K) (x : M) (k' : K) (m : List (K × M)) :
    look k' (bump k x m) = if k'=k then look k m+x else look k' m := by
  induction m with
  | nil => by_cases h : k = k' <;> simp [bump,look,h,eq_comm]
  | cons e m ih =>
    by_cases h : e.1=k
    · by_cases h' : k = k' <;> simp [bump,look,h,h',eq_comm]
    · simp only [bump,if_neg h,look,ih]
      by_cases h' : k'=k
      · simp [h',h]
      · simp [h']

lemma look_eq_of_mem {m : List (K × M)} (hnodup : (m.map Prod.fst).Nodup) {e : K × M} (he : e∈m) :
    look e.1 m = e.2 := by
  induction m with
  | nil => cases he
  | cons e' m ih =>
    rw [map_cons,nodup_cons] at hnodup
    obtain rfl | he := mem_cons.mp he
    · simp [look]
    · have hne : e'.1≠e.1 := fun heq => hnodup.1 (heq ▸ mem_map_of_mem he)
      simp [look,hne,ih hnodup.2 he]

lemma mem_keys_add (t : Tally K M) (k : K) (x : M) {k' : K} :
    k' ∈ (t.add k x).keys ↔ k'=k ∨ k'∈t.keys := by
  change k' ∈ (bump k x t.entries).map Prod.fst ↔ k'=k ∨ k' ∈ t.entries.map Prod.fst
  rw [bump_keys]
  split_ifs with h
  · exact ⟨.inr,fun hor => hor.elim (fun heq => heq ▸ h) fun h => h⟩
  · rw [mem_append,mem_singleton,or_comm]

lemma get_add (t : Tally K M) (k : K) (x : M) (k' : K) :
    (t.add k x).get k' = if k'=k then t.get k+x else t.get k' := look_bump k x k' t.entries

lemma get_of_mem (t : Tally K M) {e : K × M} (he : e∈t.entries) :
    t.get e.1 = e.2 := look_eq_of_mem t.nodup he

section List
variable {α : Type} (key : α → K) (weight : α → M)

def weigh (l : List α) (k : K) : M := ((l.filter (key · = k)).map weight).sum

lemma weigh_append (l l' : List α) (k : K) :
    weigh key weight (l++l') k = weigh key weight l k+weigh key weight l' k := by
  simp [weigh]

lemma weigh_cons (a : α) (l : List α) (k : K) :
    weigh key weight (a::l) k = (if key a=k then weight a else 0)+weigh key weight l k := by
  by_cases h : key a = k <;> simp [weigh,h]

@[simp] lemma weigh_nil (k : K) : weigh key weight [] k = 0 := rfl

lemma of_append_singleton (l : List α) (a : α) :
    of key weight (l++[a]) = (of key weight l).add (key a) (weight a) := by
  simp [of]

lemma mem_keys_of (l : List α) {k : K} : k ∈ (of key weight l).keys ↔ k ∈ l.map key := by
  induction l using List.reverseRecOn with
  | nil => rfl
  | append_singleton l a ih =>
    rw [of_append_singleton,mem_keys_add,ih,map_append,mem_append,or_comm]
    simp

lemma get_of (l : List α) (k : K) : (of key weight l).get k = weigh key weight l k := by
  induction l using List.reverseRecOn with
  | nil => rfl
  | append_singleton l a ih =>
    rw [of_append_singleton,get_add]
    by_cases h : k = key a
    · subst h
      simp [ih,weigh]
    · simp [ih,weigh,h,Ne.symm h]

lemma entries_of_perm (l : List α) :
    (of key weight l).entries.Perm ((l.map key).dedup.map fun k => (k,weigh key weight l k)) := by
  have hnodup : ((l.map key).dedup.map fun k => (k,weigh key weight l k)).Nodup :=
    (l.map key).nodup_dedup.map fun _ _ h => (Prod.mk.inj h).1
  rw [perm_ext_iff_of_nodup (of key weight l).nodup_entries hnodup]
  intro e
  rw [mem_map]
  constructor
  · intro he
    have hkey : e.1 ∈ (of key weight l).keys := mem_map_of_mem he
    refine ⟨e.1,mem_dedup.mpr ((mem_keys_of key weight l).mp hkey),?_⟩
    rw [← get_of,get_of_mem _ he]
  · rintro ⟨k,hk,rfl⟩
    obtain ⟨e,he,rfl⟩ := mem_map.mp ((mem_keys_of key weight l).mpr (mem_dedup.mp hk))
    rwa [← get_of,get_of_mem _ he]

end List

lemma weigh_one (l : List K) (k : K) : weigh (fun k => k) (fun _ => 1) l k = l.count k := by
  induction l with
  | nil => rfl
  | cons a l ih => by_cases h : a = k <;> simp [weigh_cons,ih,h,Nat.add_comm]

end Tally

end Pglens.Lib
