import Pglens.Lib.Reader
import Mathlib.Data.Int.Order.Basic
import Mathlib.Order.Lattice

/-! budgetReader of internal/server, as the ingest handler uses it: the JSON decoder reads through
it as far as it wants, and the handler then drains what is left. The probe past the budget takes a
byte, so an oversized body shows either to the decoder or to the drain. -/
namespace Pglens.Server
open Pglens.Lib List

inductive ReadError
  | eof
  | bodyTooLarge
  deriving DecidableEq, Repr

/-- A budgetReader over the state of the reader behind it. -/
structure BudgetReader (σ : Type) where
  r : σ
  budget : ℤ

def BudgetReader.read {σ : Type} (under : Reader UInt8 ReadError σ) : Reader UInt8 ReadError (BudgetReader σ) :=
  fun b p =>
    if b.budget≤0 then
      let (a,s) := under b.r 1
      (⟨[],if 0<a.data.length then some .bodyTooLarge else a.err⟩,{ b with r := s })
    else
      let (a,s) := under b.r (if b.budget<p then b.budget.toNat else p)
      (a,⟨s,b.budget-a.data.length⟩)

/-- The handler's check of the two errors. -/
def bodyRefused (decode drain : Answer UInt8 ReadError) : Bool :=
  decode.err == some .bodyTooLarge || drain.err == some .bodyTooLarge

section Spending
variable {σ : Type} (R : FiniteReader UInt8 ReadError σ .eof)

/-- What reads through a budget have come to: past the budget, or the bytes delivered are the front
of the stream, the budget is what they leave, and an error is the end. -/
structure Spends (b : BudgetReader σ) (a : Answer UInt8 ReadError) (b' : BudgetReader σ) : Prop where
  refused : a.err = some .bodyTooLarge → max b.budget 0 < (R.rest b.r).length
  delivered : a.err ≠ some .bodyTooLarge → R.rest b.r = a.data++R.rest b'.r
  left : a.err ≠ some .bodyTooLarge → max b'.budget 0+a.data.length = max b.budget 0
  ended : a.err≠none → a.err ≠ some .bodyTooLarge → R.rest b'.r = []

variable {R}

lemma err_ne_tooLarge (s : σ) (n : ℕ) : (R.read s n).1.err ≠ some .bodyTooLarge := by
  intro h
  have heof := (R.eof_of_err s n (by rw [h]; simp)).1
  rw [h] at heof
  cases heof

variable {b : BudgetReader σ} {n : ℕ}

lemma read_probe (hb : b.budget≤0) (n : ℕ) : BudgetReader.read R.read b n =
    (⟨[],if 0<(R.read b.r 1).1.data.length then some .bodyTooLarge else (R.read b.r 1).1.err⟩,
      { b with r := (R.read b.r 1).2 }) := if_pos hb

lemma read_within (hb : ¬b.budget≤0) (hn : 0<n) :
    ∃ m : ℕ, 0 < m ∧ (m : ℤ) ≤ b.budget ∧
      BudgetReader.read R.read b n =
          ((R.read b.r m).1,⟨(R.read b.r m).2,b.budget-(R.read b.r m).1.data.length⟩) := by
  refine ⟨if b.budget<n then b.budget.toNat else n,?_,?_,if_neg hb⟩
  · split_ifs <;> omega
  · split_ifs <;> omega

lemma read_spends (b : BudgetReader σ) (hn : 0<n) :
    Spends R b (BudgetReader.read R.read b n).1 (BudgetReader.read R.read b n).2 := by
  by_cases hb : b.budget≤0
  · rw [read_probe hb]
    have hrest := R.read_rest b.r 1 Nat.one_pos
    by_cases hdata : 0 < (R.read b.r 1).1.data.length
    · rw [if_pos hdata]
      refine ⟨fun _ => ?_,fun h => absurd rfl h,fun h => absurd rfl h,fun _ h => absurd rfl h⟩
      rw [hrest,length_append]
      omega
    · rw [if_neg hdata]
      have hnil := eq_nil_of_length_eq_zero (Nat.eq_zero_of_not_pos hdata)
      rw [hnil] at hrest
      exact ⟨fun h => absurd h (err_ne_tooLarge _ _),fun _ => hrest,fun _ => by simp,
        fun h _ => (R.eof_of_err b.r 1 h).2⟩
  · obtain ⟨m,hm,hle,heq⟩ := read_within (R := R) hb hn
    rw [heq]
    have hfits := R.fits b.r m
    refine ⟨fun h => absurd h (err_ne_tooLarge _ _),fun _ => R.read_rest b.r m hm,fun _ => ?_,
      fun h _ => (R.eof_of_err b.r m h).2⟩
    simp only
    omega

lemma Spends.trans {b₁ b₂ : BudgetReader σ} {a a' : Answer UInt8 ReadError} (h : Spends R b a b₁)
    (hnone : a.err=none) (h' : Spends R b₁ a' b₂) : Spends R b ⟨a.data++a'.data,a'.err⟩ b₂ := by
  have hok : a.err ≠ some .bodyTooLarge := by rw [hnone]; simp
  have hrest := h.delivered hok
  have hleft := h.left hok
  refine ⟨fun hbig => ?_,fun hsmall => ?_,fun hsmall => ?_,h'.ended⟩
  · have hlt := h'.refused hbig
    rw [hrest,length_append]
    omega
  · rw [hrest,h'.delivered hsmall,append_assoc]
  · have hleft' := h'.left hsmall
    simp only [length_append]
    omega

end Spending

section Ending
variable {σ : Type} {R : FiniteReader UInt8 ReadError σ .eof}

lemma read_rank (b : BudgetReader σ) {n : ℕ} (hn : 0<n) :
    R.rank (BudgetReader.read R.read b n).2.r ≤ R.rank b.r ∧
      ((BudgetReader.read R.read b n).1.err=none → R.rank (BudgetReader.read R.read b n).2.r<R.rank b.r) := by
  by_cases hb : b.budget≤0
  · rw [read_probe hb]
    refine ⟨R.rank_le _ _,fun h => R.rank_lt _ _ Nat.one_pos ?_⟩
    by_cases hdata : 0 < (R.read b.r 1).1.data.length
    · simp [hdata] at h
    · simpa [hdata] using h
  · obtain ⟨m,hm,-,heq⟩ := read_within (R := R) hb hn
    rw [heq]
    exact ⟨R.rank_le _ _,R.rank_lt _ _ hm⟩

lemma reads_spec (b : BudgetReader σ) {ns : List ℕ} (hpos : ∀ n∈ns, 0<n) :
    let r := Reader.reads (BudgetReader.read R.read) b ns
    Spends R b r.1 r.2 ∧ R.rank r.2.r ≤ R.rank b.r ∧ (R.rank b.r<ns.length → r.1.err≠none) := by
  induction ns generalizing b with
  | nil => exact ⟨⟨by simp [Reader.reads],fun _ => rfl,fun _ => by simp [Reader.reads],
      fun h => absurd rfl h⟩,le_rfl,by simp⟩
  | cons n ns ih =>
    have hread := read_spends (R := R) b (hpos n mem_cons_self)
    obtain ⟨hle,hlt⟩ := read_rank (R := R) b (hpos n mem_cons_self)
    obtain ⟨hspends,hrest,hend⟩ := ih (BudgetReader.read R.read b n).2
      fun m hm => hpos m (mem_cons_of_mem n hm)
    rw [Reader.reads]
    cases herr : (BudgetReader.read R.read b n).1.err with
    | none =>
      refine ⟨hread.trans herr hspends,hrest.trans hle,fun hmany => hend ?_⟩
      have := hlt herr
      rw [length_cons] at hmany
      omega
    | some e =>
      simp only
      exact ⟨by rwa [← herr],hle,by simp⟩

end Ending

/-- However the stream is split into reads, wherever the decoder stops and whatever buffers it and
the drain use, the body is refused exactly if it is longer than the budget, and otherwise decoder
and drain together get all of it. A drain that reads often enough comes to its end. -/
theorem budget_exact {σ : Type} (R : FiniteReader UInt8 ReadError σ .eof) (s : σ) (budget : ℤ)
    (decoder drain : List ℕ) (hdecoder : ∀ n∈decoder, 0<n) (hdrain : ∀ n∈drain, 0<n) :
    let decoded := Reader.reads (BudgetReader.read R.read) ⟨s,budget⟩ decoder
    let drained := Reader.reads (BudgetReader.read R.read) decoded.2 drain
    (R.rank s<drain.length → drained.1.err≠none) ∧
    (drained.1.err≠none →
      (bodyRefused decoded.1 drained.1=true ↔ max budget 0<(R.rest s).length) ∧
      ((R.rest s).length ≤ max budget 0 → decoded.1.data++drained.1.data=R.rest s)) := by
  intro decoded drained
  have hfirst : Spends R ⟨s,budget⟩ decoded.1 decoded.2 := (reads_spec _ hdecoder).1
  have hthen : Spends R decoded.2 drained.1 drained.2 := (reads_spec _ hdrain).1
  refine ⟨fun hmany => (reads_spec _ hdrain).2.2 ((reads_spec _ hdecoder).2.1.trans_lt hmany),fun hended => ?_⟩
  by_cases hbig : decoded.1.err = some .bodyTooLarge
  · have hlong := hfirst.refused hbig
    exact ⟨iff_of_true (by simp [bodyRefused,hbig]) hlong,fun hle => absurd hlong (not_lt.mpr hle)⟩
  have hrest : R.rest s = decoded.1.data++R.rest decoded.2.r := hfirst.delivered hbig
  have hleft : max decoded.2.budget 0+decoded.1.data.length = max budget 0 := hfirst.left hbig
  by_cases hbig' : drained.1.err = some .bodyTooLarge
  · have hlong : max budget 0 < (R.rest s).length := by
      have hlt := hthen.refused hbig'
      rw [hrest,length_append]
      omega
    exact ⟨iff_of_true (by simp [bodyRefused,hbig']) hlong,fun hle => absurd hlong (not_lt.mpr hle)⟩
  · have hall : R.rest s = decoded.1.data++drained.1.data := by
      rw [hrest,hthen.delivered hbig',hthen.ended hended hbig',append_nil]
    have hleft' := hthen.left hbig'
    refine ⟨iff_of_false (by simp [bodyRefused,hbig,hbig']) ?_,fun _ => hall.symm⟩
    rw [hall,length_append]
    omega

/-- A body of two bytes within a budget of two, split by its reader, and one of three beyond it: the
decoder stops behind the first byte. -/
theorem budget_exact_two :
    let within := Reader.reads (BudgetReader.read (pieces UInt8 ReadError.eof true).read) ⟨[[1],[2]],2⟩ [1]
    let beyond := Reader.reads (BudgetReader.read (pieces UInt8 ReadError.eof true).read) ⟨[[1],[2,3]],2⟩ [1]
    let drain := fun b => (Reader.reads (BudgetReader.read (pieces UInt8 ReadError.eof true).read) b [8,8,8,8,8,8]).1
    within.1.data++(drain within.2).data = [1,2] ∧ bodyRefused beyond.1 (drain beyond.2) = true :=
  ⟨((budget_exact (pieces UInt8 ReadError.eof true) [[1],[2]] 2 [1] [8,8,8,8,8,8] (by decide) (by decide)).2
      (by decide)).2 (by decide),
    ((budget_exact (pieces UInt8 ReadError.eof true) [[1],[2,3]] 2 [1] [8,8,8,8,8,8] (by decide) (by decide)).2
      (by decide)).1.mpr (by decide)⟩

end Pglens.Server
