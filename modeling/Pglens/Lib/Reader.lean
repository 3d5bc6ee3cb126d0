import Mathlib.Data.List.Basic
import Mathlib.Data.Nat.Notation

/-! A Read takes the length of its buffer and returns bytes and possibly an error. A reader of a
finite stream hands the stream out front to back, in parts of any length that fits, reports the end
only behind the last byte, and does so after finitely many reads. The end may come with the last
bytes or on its own. -/
namespace Pglens.Lib

structure Answer (α ε : Type) where
  data : List α
  err : Option ε
  deriving DecidableEq, Repr

abbrev Reader (α ε σ : Type) := σ → ℕ → Answer α ε × σ

namespace Reader
variable {α ε σ : Type} (r : Reader α ε σ)

/-- Reads with buffers of the given lengths, up to the first error: all bytes, and the error. -/
def reads : σ → List ℕ → Answer α ε × σ
  | s,[] => (⟨[],none⟩,s)
  | s,n::ns =>
    match (r s n).1.err with
    | some e => (⟨(r s n).1.data,some e⟩,(r s n).2)
    | none => (⟨(r s n).1.data++(reads (r s n).2 ns).1.data,(reads (r s n).2 ns).1.err⟩,(reads (r s n).2 ns).2)

end Reader

/-- A reader of a finite stream that ends in `eof`. -/
structure FiniteReader (α ε σ : Type) (eof : ε) where
  read : Reader α ε σ
  /-- The bytes still to come. -/
  rest : σ → List α
  /-- A bound on the reads before the end. -/
  rank : σ → ℕ
  fits : ∀ s n, (read s n).1.data.length ≤ n
  read_rest : ∀ s n, 0<n → rest s = (read s n).1.data++rest (read s n).2
  eof_of_err : ∀ s n, (read s n).1.err ≠ none → (read s n).1.err = some eof ∧ rest (read s n).2 = []
  rank_le : ∀ s n, rank (read s n).2 ≤ rank s
  rank_lt : ∀ s n, 0<n → (read s n).1.err = none → rank (read s n).2 < rank s

/-- The reader that hands out given pieces, the last one with the end or without it. -/
def readPiece {α ε : Type} (eof : ε) (early : Bool) : Reader α ε (List (List α))
  | [],_ => (⟨[],some eof⟩,[])
  | p::ps,n =>
    if p.length≤n then (⟨p,if early && ps.isEmpty then some eof else none⟩,ps)
    else (⟨p.take n,none⟩,p.drop n::ps)

section Piece
variable {α ε : Type} {eof : ε} {early : Bool} {p : List α} {ps : List (List α)} {n : ℕ}

lemma readPiece_whole (h : p.length≤n) : readPiece eof early (p::ps) n =
    (⟨p,if early && ps.isEmpty then some eof else none⟩,ps) := if_pos h

lemma readPiece_part (h : ¬p.length≤n) : readPiece eof early (p::ps) n =
    (⟨p.take n,none⟩,p.drop n::ps) := if_neg h

end Piece

/-- Every list of pieces, empty ones among them, is a way to split their stream. -/
def pieces (α : Type) {ε : Type} (eof : ε) (early : Bool) : FiniteReader α ε (List (List α)) eof where
  read := readPiece eof early
  rest := List.flatten
  rank ps := ps.flatten.length+ps.length
  fits ps n := by
    cases ps with
    | nil => simp [readPiece]
    | cons p ps =>
      by_cases h : p.length≤n
      · rwa [readPiece_whole h]
      · rw [readPiece_part h]
        exact List.length_take_le n p
  read_rest ps n _ := by
    cases ps with
    | nil => simp [readPiece]
    | cons p ps =>
      by_cases h : p.length≤n
      · rw [readPiece_whole h,List.flatten_cons]
      · rw [readPiece_part h,List.flatten_cons,List.flatten_cons,← List.append_assoc,List.take_append_drop]
  eof_of_err ps n h := by
    cases ps with
    | nil => simp [readPiece]
    | cons p ps =>
      by_cases hle : p.length≤n
      · rw [readPiece_whole hle] at h ⊢
        by_cases hearly : (early && ps.isEmpty) = true
        · have hnil : ps=[] := by simpa using (Bool.and_eq_true_iff.mp hearly).2
          exact ⟨if_pos hearly,by rw [hnil]; rfl⟩
        · exact absurd (if_neg hearly) h
      · rw [readPiece_part hle] at h
        exact absurd rfl h
  rank_le ps n := by
    cases ps with
    | nil => simp [readPiece]
    | cons p ps =>
      by_cases h : p.length≤n
      · rw [readPiece_whole h]
        simp
        omega
      · rw [readPiece_part h]
        simp
  rank_lt ps n hn h := by
    cases ps with
    | nil => simp [readPiece] at h
    | cons p ps =>
      by_cases h : p.length≤n
      · rw [readPiece_whole h]
        simp
        omega
      · rw [readPiece_part h]
        simp
        omega

end Pglens.Lib
