import Mathlib.Data.Finset.Filter
import Mathlib.Data.Finset.Insert
import Mathlib.Data.Finset.Erase

/-! A map is its lookup function with the finite set of its keys. Unlike `Finmap` it can be changed
at all keys at once, which is what a sweep over a map does, and two maps are compared entry by entry
with any comparison of values. -/
namespace Pglens.Lib
open List

universe u v

structure FinMap (K : Type u) (V : Type v) where
  get : K → Option V
  keys : Finset K
  mem_keys : ∀ k, k∈keys ↔ (get k).isSome = true

namespace FinMap
variable {K : Type u} {V : Type v} [DecidableEq K]

omit [DecidableEq K] in
@[ext] lemma ext {m m' : FinMap K V} (h : ∀ k, m.get k=m'.get k) : m=m' := by
  obtain ⟨g,ks,hk⟩ := m
  obtain ⟨g',ks',hk'⟩ := m'
  obtain rfl : g=g' := funext h
  obtain rfl : ks=ks' := Finset.ext fun k => (hk k).trans (hk' k).symm
  rfl

def empty : FinMap K V := ⟨fun _ => none,∅,by simp⟩

def set (m : FinMap K V) (k : K) (v : V) : FinMap K V where
  get k' := if k'=k then some v else m.get k'
  keys := insert k m.keys
  mem_keys k' := by by_cases h : k' = k <;> simp [h,m.mem_keys]

def erase (m : FinMap K V) (k : K) : FinMap K V where
  get k' := if k'=k then none else m.get k'
  keys := m.keys.erase k
  mem_keys k' := by by_cases h : k' = k <;> simp [h,m.mem_keys]

def sweep (m : FinMap K V) (f : V → Option V) : FinMap K V where
  get k := (m.get k).bind f
  keys := m.keys.filter fun k => ((m.get k).bind f).isSome = true
  mem_keys k := by cases h : m.get k <;> simp [h,m.mem_keys]

def filter (m : FinMap K V) (p : K → V → Bool) : FinMap K V where
  get k := (m.get k).filter (p k)
  keys := m.keys.filter fun k => ((m.get k).filter (p k)).isSome = true
  mem_keys k := by cases h : m.get k <;> simp [h,m.mem_keys]

def update (m : FinMap K V) (f : K → V → V) : FinMap K V where
  get k := (m.get k).map (f k)
  keys := m.keys
  mem_keys k := by simp [m.mem_keys]

/-- Go's maps.EqualFunc: the same keys, with values that compare equal. -/
def equalFunc (eq : V → V → Bool) (m m' : FinMap K V) : Bool :=
  decide (m.keys=m'.keys) && decide (∀ k∈m.keys, ∀ v ∈ m.get k, ∀ v' ∈ m'.get k, eq v v'=true)

omit [DecidableEq K] in
@[simp] lemma get_empty (k : K) : (empty : FinMap K V).get k = none := rfl

@[simp] lemma get_set_self (m : FinMap K V) (k : K) (v : V) : (m.set k v).get k = some v := by
  simp [set]

variable {k k' : K} {α : Type*}

lemma get_set_of_ne (m : FinMap K V) (v : V) (h : k'≠k) :
    (m.set k v).get k' = m.get k' := by simp [set,h]

lemma get_foldl_set (keys : List K) (v : V) (m : FinMap K V) (k : K) :
    (keys.foldl (fun m k => m.set k v) m).get k = if k∈keys then some v else m.get k := by
  induction keys generalizing m with
  | nil => simp
  | cons k' keys ih =>
    rw [foldl_cons,ih]
    by_cases h : k=k'
    · simp [h]
    · simp [h,get_set_of_ne]

lemma get_foldl_set_of_notMem (key : α → K) (value : α → V) {l : List α} (hk : k ∉ l.map key)
    (m : FinMap K V) : (l.foldl (fun m a => m.set (key a) (value a)) m).get k = m.get k := by
  induction l generalizing m with
  | nil => rfl
  | cons b l ih =>
    rw [map_cons,mem_cons,not_or] at hk
    rw [foldl_cons,ih hk.2,get_set_of_ne _ _ hk.1]

lemma get_foldl_set_of_mem (key : α → K) (value : α → V) {l : List α} (hnodup : (l.map key).Nodup)
    {a : α} (ha : a∈l) (m : FinMap K V) :
    (l.foldl (fun m a => m.set (key a) (value a)) m).get (key a) = some (value a) := by
  induction l generalizing m with
  | nil => cases ha
  | cons b l ih =>
    rw [map_cons,nodup_cons] at hnodup
    rw [foldl_cons]
    obtain rfl | ha := mem_cons.mp ha
    · rw [get_foldl_set_of_notMem key value hnodup.1,get_set_self]
    · exact ih hnodup.2 ha _

lemma getD_foldl_push {W : Type*} (key : α → K) (value : α → W) (l : List α)
    (m : FinMap K (List W)) (k : K) :
    ((l.foldl (fun m a => m.set (key a) ((m.get (key a)).getD []++[value a])) m).get k).getD [] =
      (m.get k).getD []++(l.filter fun a => key a=k).map value := by
  induction l generalizing m with
  | nil => simp
  | cons a l ih =>
    rw [foldl_cons,ih]
    by_cases h : key a = k
    · subst h
      simp
    · rw [get_set_of_ne _ _ (Ne.symm h),filter_cons_of_neg (by simpa using h)]

@[simp] lemma get_erase_self (m : FinMap K V) (k : K) : (m.erase k).get k = none := by
  simp [erase]

lemma get_erase_of_ne (m : FinMap K V) (h : k'≠k) :
    (m.erase k).get k' = m.get k' := by simp [erase,h]

omit [DecidableEq K] in
@[simp] lemma get_sweep (m : FinMap K V) (f : V → Option V) (k : K) :
    (m.sweep f).get k = (m.get k).bind f := rfl

omit [DecidableEq K] in
@[simp] lemma get_update (m : FinMap K V) (f : K → V → V) (k : K) :
    (m.update f).get k = (m.get k).map (f k) := rfl

omit [DecidableEq K] in
@[simp] lemma get_filter (m : FinMap K V) (p : K → V → Bool) (k : K) :
    (m.filter p).get k = (m.get k).filter (p k) := rfl

lemma equalFunc_refl {eq : V → V → Bool} (heq : ∀ v, eq v v=true) (m : FinMap K V) :
    equalFunc eq m m = true := by
  simp only [equalFunc,decide_true,Bool.true_and,decide_eq_true_eq]
  intro k _ v hv v' hv'
  obtain rfl : v=v' := Option.some.inj (hv.symm.trans hv')
  exact heq v

end FinMap

end Pglens.Lib
