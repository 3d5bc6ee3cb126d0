import Mathlib.Data.List.Basic
import Mathlib.Data.Nat.Notation

/-! A framing tells from the front of a stream how long its first frame is, once that frame is
complete. A stream is then its complete frames and a rest in which no frame is complete, and cutting
a stream of frames anywhere leaves the frames that end before the cut. -/
namespace Pglens.Lib
open List

universe u

structure Framing (α : Type u) where
  /-- The length of the frame in front, `none` while it is incomplete. -/
  len : List α → Option ℕ
  pos : ∀ {s n}, len s = some n → 0<n
  le : ∀ {s n}, len s = some n → n ≤ s.length
  ext : ∀ {s n} (t : List α), len s = some n → len (s++t) = some n
  take : ∀ {s n}, len s = some n → len (s.take n) = some n

namespace Framing
variable {α : Type u} (F : Framing α)

def Complete (f : List α) : Prop := F.len f = some f.length

def Stuck (s : List α) : Prop := F.len s = none

variable {F}

lemma stuck_nil : F.Stuck [] := by
  cases h : F.len [] with
  | none => exact h
  | some n =>
    have hpos := F.pos h
    have hle := F.le h
    simp at hle
    omega

variable {f s : List α} {n fuel : ℕ} {fs : List (List α)}

lemma Complete.length_pos (h : F.Complete f) : 0<f.length := F.pos h

lemma complete_take (h : F.len s=some n) : F.Complete (s.take n) := by
  rw [Complete,F.take h,length_take_of_le (F.le h)]

lemma Complete.stuck_take (h : F.Complete f) (hn : n<f.length) : F.Stuck (f.take n) := by
  cases hl : F.len (f.take n) with
  | none => exact hl
  | some k =>
    have hf : F.len f = some k := by
      conv_lhs => rw [← take_append_drop n f]
      exact F.ext _ hl
    have hk := F.le hl
    rw [h] at hf
    cases hf
    rw [length_take] at hk
    omega

lemma length_le_flatten (hall : ∀ f∈fs, F.Complete f) : fs.length≤fs.flatten.length := by
  induction fs with
  | nil => simp
  | cons f fs ih =>
    have hpos := (hall f (by simp)).length_pos
    have hrest := ih fun g hg => hall g (by simp [hg])
    rw [flatten_cons,length_append,length_cons]
    omega

/-- The complete frames in front of a stream, at most `fuel` of them, and the rest. -/
def split (F : Framing α) : ℕ → List α → List (List α) × List α
  | 0,s => ([],s)
  | fuel+1,s =>
    match F.len s with
    | none => ([],s)
    | some n => (s.take n::(F.split fuel (s.drop n)).1,(F.split fuel (s.drop n)).2)

lemma split_spec (F : Framing α) (h : s.length≤fuel) :
    s = (F.split fuel s).1.flatten++(F.split fuel s).2 ∧
      (∀ f ∈ (F.split fuel s).1, F.Complete f) ∧ F.Stuck (F.split fuel s).2 := by
  induction fuel generalizing s with
  | zero =>
    obtain rfl := eq_nil_of_length_eq_zero (Nat.le_zero.mp h)
    exact ⟨rfl,by simp [split],stuck_nil⟩
  | succ fuel ih =>
    cases hl : F.len s with
    | none =>
      simp only [split,hl]
      exact ⟨rfl,by simp,hl⟩
    | some n =>
      have hpos := F.pos hl
      obtain ⟨h1,h2,h3⟩ := ih (s := s.drop n) (by rw [length_drop]; omega)
      simp only [split,hl]
      refine ⟨?_,?_,h3⟩
      · rw [flatten_cons,append_assoc,← h1,take_append_drop]
      · simpa using ⟨complete_take hl,h2⟩

lemma split_frames (hall : ∀ f∈fs, F.Complete f) {r : List α} (hr : F.Stuck r)
    (hfuel : fs.length≤fuel) : F.split fuel (fs.flatten++r) = (fs,r) := by
  induction fs generalizing fuel with
  | nil =>
    cases fuel with
    | zero => rfl
    | succ fuel =>
      have hlen : F.len r = none := hr
      simp only [split,flatten_nil,nil_append,hlen]
  | cons f fs ih =>
    obtain ⟨fuel,rfl⟩ : ∃ k, fuel = k+1 := ⟨fuel-1,by simp at hfuel; omega⟩
    have hlen : F.len (f++(fs.flatten++r)) = some f.length := F.ext _ (hall f (by simp))
    have hrest := ih (fun g hg => hall g (by simp [hg])) (show fs.length≤fuel by simpa using hfuel)
    rw [flatten_cons,append_assoc]
    simp only [split,hlen,take_left',drop_left',hrest]

lemma exists_split (F : Framing α) (s : List α) :
    ∃ (fs : List (List α)) (r : List α), s = fs.flatten++r ∧ (∀ f∈fs, F.Complete f) ∧ F.Stuck r :=
  ⟨_,_,F.split_spec (Nat.le_refl s.length)⟩

lemma exists_cut (hall : ∀ f∈fs, F.Complete f) (n : ℕ) :
    ∃ k r, k≤fs.length ∧ fs.flatten.take n = (fs.take k).flatten++r ∧ F.Stuck r ∧
      ∀ j, j≤fs.length → ((fs.take j).flatten.length ≤ n ↔ j≤k) := by
  induction fs generalizing n with
  | nil => exact ⟨0,[],Nat.le_refl 0,by simp,stuck_nil,by simp⟩
  | cons f fs ih =>
    have hf : F.Complete f := hall f (by simp)
    have hpos := hf.length_pos
    by_cases hn : f.length≤n
    · obtain ⟨k,r,hk,htake,hr,hiff⟩ := ih (fun g hg => hall g (by simp [hg])) (n-f.length)
      refine ⟨k+1,r,by simpa using hk,?_,hr,fun j hj => ?_⟩
      · rw [flatten_cons,take_append,take_of_length_le hn,htake,take_succ_cons,
          flatten_cons,append_assoc]
      · cases j with
        | zero => simp
        | succ j =>
          have := hiff j (by simpa using hj)
          rw [take_succ_cons,flatten_cons,length_append]
          omega
    · refine ⟨0,f.take n,by simp,?_,hf.stuck_take (by omega),fun j hj => ?_⟩
      · rw [flatten_cons,take_append_of_le_length (by omega)]
        rfl
      · cases j with
        | zero => simp
        | succ j =>
          rw [take_succ_cons,flatten_cons,length_append]
          omega

end Framing

end Pglens.Lib
