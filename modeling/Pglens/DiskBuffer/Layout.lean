import Pglens.DiskBuffer.Recovery
import Pglens.DiskBuffer.Ops

/-! The records of all segments, in order, are one log. A ghost state numbers them through the life
of the directory: the frames removed so far, and those of each segment file. Positions in files
become numbers in the log, which segment removal and rolling leave alone. -/
namespace Pglens.DiskBuffer
open Pglens.Lib List

/-- The frames of one segment file, from an offset on. -/
structure Layout where
  id : ℕ
  base : ℕ
  frames : List (List UInt8)

namespace Layout

def size (l : Layout) : ℕ := l.base+l.frames.flatten.length

/-- A frame of the segment starts at the offset, or the last one ends there. -/
def Boundary (l : Layout) (off : ℕ) : Prop :=
  ∃ fs gs, l.frames = fs++gs ∧ off = l.base+fs.flatten.length

end Layout

/-- How many of some frames start before an offset, the first of them at `start`. -/
def startsBefore (off : ℕ) : ℕ → List (List UInt8) → ℕ
  | _,[] => 0
  | start,f::fs => if start<off then startsBefore off (start+f.length) fs+1 else 0

def Layout.before (c : ℕ × ℕ) (l : Layout) : ℕ :=
  if l.id<c.1 then l.frames.length
  else if l.id=c.1 then startsBefore c.2 l.base l.frames
  else 0

/-- The log of a directory. `written` has every frame ever written in full, `acked` the
numbers of those acknowledged while they were stored, `lost` those a retention policy
removed before they were. -/
structure Ghost where
  removed : List (List UInt8)
  segs : List Layout
  written : List (List UInt8)
  acked : Finset ℕ
  lost : Finset ℕ

namespace Ghost

def first (g : Ghost) : ℕ := g.removed.length

def history (g : Ghost) : List (List UInt8) := g.removed++g.segs.flatMap Layout.frames

def number (g : Ghost) (c : ℕ × ℕ) : ℕ := g.first+(g.segs.map (Layout.before c)).sum

def lostBy (g : Ghost) (l : Layout) : Option Reason → Finset ℕ
  | none => g.lost
  | some _ =>
    g.lost ∪ ((Finset.range l.frames.length).image (g.first+·)).filter (· ∉ g.acked)

/-- What an effect does to the log: a write of a whole frame extends it, and a removal
takes the frames of the oldest segment out of store. -/
def apply (g : Ghost) : Effect → Ghost
  | .create id => { g with segs := g.segs++[⟨id,0,[]⟩] }
  | .write id bytes =>
    if recordLen bytes = some bytes.length then
      { g with
        segs := g.segs.map fun l =>
          if l.id=id then { l with frames := l.frames++[bytes] } else l
        written := g.written++[bytes] }
    else g
  | .remove id reason =>
    match g.segs with
    | [] => g
    | l::segs => if l.id=id then
        { g with
          removed := g.removed++l.frames
          segs := segs
          lost := g.lostBy l reason }
      else g
  | .truncate _ _ => g
  | .saveAcked _ => g
  | .removeAcked => g

end Ghost

section Positions
variable {c : ℕ × ℕ}

lemma startsBefore_le (off start : ℕ) (fs : List (List UInt8)) :
    startsBefore off start fs ≤ fs.length := by
  induction fs generalizing start with
  | nil => simp [startsBefore]
  | cons f fs ih =>
    have := ih (start+f.length)
    rw [startsBefore,length_cons]
    split_ifs <;> omega

lemma startsBefore_zero (start : ℕ) (fs : List (List UInt8)) : startsBefore 0 start fs = 0 := by
  cases fs <;> simp [startsBefore]

lemma startsBefore_boundary {fs gs : List (List UInt8)} (hpos : ∀ f∈fs, 0<f.length)
    (start : ℕ) : startsBefore (start+fs.flatten.length) start (fs++gs) = fs.length := by
  induction fs generalizing start with
  | nil => cases gs <;> simp [startsBefore]
  | cons f fs ih =>
    have hf := hpos f (by simp)
    have hrest := ih (fun g hg => hpos g (by simp [hg])) (start+f.length)
    rw [cons_append,startsBefore,flatten_cons,length_append,if_pos (by omega),
      ← Nat.add_assoc,hrest,length_cons]

lemma startsBefore_snoc (fs : List (List UInt8)) (f : List UInt8) (off start : ℕ)
    (h : off ≤ start+fs.flatten.length) :
    startsBefore off start (fs++[f]) = startsBefore off start fs := by
  induction fs generalizing start with
  | nil =>
    simp only [flatten_nil,length_nil,Nat.add_zero] at h
    simp [startsBefore]
    omega
  | cons g fs ih =>
    rw [flatten_cons,length_append] at h
    rw [cons_append,startsBefore,startsBefore,ih (start+g.length) (by omega)]

lemma Layout.before_le (l : Layout) : l.before c ≤ l.frames.length := by
  unfold Layout.before
  split_ifs
  · exact Nat.le_refl _
  · exact startsBefore_le _ _ _
  · exact Nat.zero_le _

lemma Layout.before_of_lt {l : Layout} (h : c.1<l.id) : l.before c = 0 := by
  rw [Layout.before,if_neg (by omega),if_neg (by omega)]

lemma Layout.before_of_gt {l : Layout} (h : l.id<c.1) : l.before c = l.frames.length := by
  rw [Layout.before,if_pos h]

lemma sum_before_of_lt {ls : List Layout} (h : ∀ l∈ls, c.1<l.id) :
    (ls.map (Layout.before c)).sum = 0 := by
  induction ls with
  | nil => rfl
  | cons l ls ih =>
    rw [map_cons,sum_cons,Layout.before_of_lt (h l (by simp)),ih fun l' hl => h l' (by simp [hl])]

lemma Ghost.first_le_number (g : Ghost) (c : ℕ × ℕ) : g.first ≤ g.number c :=
  Nat.le_add_right _ _

lemma length_history (g : Ghost) :
    g.history.length = g.first+(g.segs.map fun l => l.frames.length).sum := by
  simp [Ghost.history,Ghost.first,length_flatMap]

lemma Ghost.number_le (g : Ghost) (c : ℕ × ℕ) : g.number c ≤ g.history.length := by
  rw [length_history,Ghost.number]
  apply Nat.add_le_add_left
  induction g.segs with
  | nil => exact Nat.le_refl _
  | cons l ls ih =>
    have := l.before_le (c := c)
    simp only [map_cons,sum_cons]
    omega

end Positions

@[simp] lemma apply_create (g : Ghost) (id : ℕ) :
    g.apply (.create id) = { g with segs := g.segs++[⟨id,0,[]⟩] } := rfl

@[simp] lemma first_create (g : Ghost) (id : ℕ) : (g.apply (.create id)).first = g.first := rfl

variable {g : Ghost} {l : Layout} {segs ls ms : List Layout}

lemma apply_remove (h : g.segs=l::segs)
    (reason : Option Reason) : g.apply (.remove l.id reason) = { g with
      removed := g.removed++l.frames
      segs := segs
      lost := g.lostBy l reason } := by
  simp [Ghost.apply,h]

lemma segs_remove (h : g.segs=l::segs)
    (reason : Option Reason) : (g.apply (.remove l.id reason)).segs = segs := by
  rw [apply_remove h]

lemma number_create (g : Ghost) (id : ℕ) (c : ℕ × ℕ) :
    (g.apply (.create id)).number c = g.number c := by
  have : (⟨id,0,[]⟩ : Layout).before c = 0 := by
    simp [Layout.before,startsBefore]
  simp [Ghost.number,Ghost.first,this]

lemma history_create (g : Ghost) (id : ℕ) : (g.apply (.create id)).history = g.history := by
  simp [Ghost.history]

def Ghost.Sorted (g : Ghost) : Prop := (g.segs.map Layout.id).Pairwise (· < ·)

lemma sum_before_of_gt {c : ℕ × ℕ} (h : ∀ l∈ls, l.id<c.1) :
    (ls.map (Layout.before c)).sum = (ls.map fun l => l.frames.length).sum := by
  induction ls with
  | nil => rfl
  | cons l ls ih =>
    rw [map_cons,sum_cons,Layout.before_of_gt (h l (by simp)),
      ih fun l' hl => h l' (by simp [hl]),map_cons,sum_cons]

lemma number_at (hs : g.Sorted) (h : g.segs=ls++l::ms) (off : ℕ) :
    g.number (l.id,off) =
      g.first+(ls.map fun l => l.frames.length).sum+startsBefore off l.base l.frames := by
  rw [Ghost.Sorted,h,map_append,map_cons,pairwise_append,pairwise_cons] at hs
  obtain ⟨-,⟨hms,-⟩,hls⟩ := hs
  rw [Ghost.number,h,map_append,sum_append,map_cons,sum_cons,
    sum_before_of_gt fun l' hl => hls l'.id (mem_map_of_mem hl) l.id (by simp),
    sum_before_of_lt fun l' hl => hms l'.id (mem_map_of_mem hl),Layout.before,
    if_neg (Nat.lt_irrefl _),if_pos rfl,Nat.add_zero,← Nat.add_assoc]

lemma number_head (hs : g.Sorted) (h : g.segs=l::ms) (off : ℕ) :
    g.number (l.id,off) = g.first+startsBefore off l.base l.frames := by
  rw [number_at hs (by rw [h,nil_append]) off]
  simp

lemma history_at (h : g.segs=ls++l::ms)
    {fs gs : List (List UInt8)} {f : List UInt8} (hframes : l.frames=fs++f::gs) :
    g.history[g.first+(ls.map fun l => l.frames.length).sum+fs.length]? = some f := by
  rw [Ghost.history,h,Nat.add_assoc,Ghost.first,getElem?_append_right (by omega),
    Nat.add_sub_cancel_left,flatMap_append,
    getElem?_append_right (by rw [length_flatMap]; omega),length_flatMap,
    Nat.add_sub_cancel_left,flatMap_cons,hframes]
  simp

lemma number_remove (hs : g.Sorted) (h : g.segs=l::segs) (reason : Option Reason) (c : ℕ × ℕ) :
    (g.apply (.remove l.id reason)).number c =
      max (g.number c) (g.apply (.remove l.id reason)).first := by
  have hlt : ∀ l'∈segs, l.id<l'.id := by
    rw [Ghost.Sorted,h,map_cons,pairwise_cons] at hs
    exact fun l' hl => hs.1 l'.id (mem_map_of_mem hl)
  rw [apply_remove h]
  simp only [Ghost.number,Ghost.first,h,map_cons,sum_cons,length_append]
  by_cases hc : l.id<c.1
  · rw [Layout.before_of_gt hc]
    omega
  · have := l.before_le (c := c)
    rw [sum_before_of_lt fun l' hl => by have := hlt l' hl; omega]
    omega

lemma first_remove (h : g.segs=l::segs) (reason : Option Reason) :
    (g.apply (.remove l.id reason)).first = g.first+l.frames.length := by
  rw [apply_remove h]
  simp [Ghost.first]

lemma history_remove (h : g.segs=l::segs)
    (reason : Option Reason) : (g.apply (.remove l.id reason)).history = g.history := by
  rw [apply_remove h]
  simp [Ghost.history,h]

end Pglens.DiskBuffer
