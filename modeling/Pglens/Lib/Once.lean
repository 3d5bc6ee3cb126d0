import Mathlib.Algebra.GroupWithZero.Nat
import Mathlib.Data.List.Chain
import Mathlib.Data.List.Count

/-! A mark is set before a write, and taken back when the write fails. While a spell lasts, each
entry finds the mark that the one before it left. Together such entries write at most once, and
exactly once if one of them, when a write is due, gets through. -/
namespace Pglens.Lib
open List

section Marks
variable {α : Type} {due gets : α → Prop} {found left : α → Bool} {wrote : α → ℕ}

/-- What an entry does with a mark: nothing when it is set or no write is due; else it writes, or it
fails to and leaves no mark. -/
structure Marks (due gets : α → Prop) (found left : α → Bool) (wrote : α → ℕ) (a : α) : Prop where
  rests : found a = true ∨ ¬due a → wrote a = 0 ∧ left a = found a
  tries : found a = false → due a → wrote a = 1 ∧ left a = true ∨ wrote a = 0 ∧ left a = false ∧ ¬gets a

lemma Marks.congr {a : α} (h : Marks due gets found left wrote a) {due' : α → Prop}
    (hdue : due' a ↔ due a) : Marks due' gets found left wrote a :=
  ⟨fun hidle => h.rests (hidle.imp_right (mt hdue.mpr)),fun hfound hd => h.tries hfound (hdue.mp hd)⟩

lemma Marks.once {as : List α} (h : ∀ a∈as, Marks due gets found left wrote a)
    (hchain : as.IsChain fun a b => found b=left a) {mark : Bool}
    (hfirst : ∀ a∈as.head?, found a=mark) :
    (as.map wrote).sum+mark.toNat ≤ 1 ∧ (∀ a∈as, 0<wrote a → due a) ∧
      ((∃ a∈as, due a ∧ gets a) → (as.map wrote).sum+mark.toNat=1) := by
  induction as generalizing mark with
  | nil => simpa using Bool.toNat_le mark
  | cons a as ih =>
    obtain ⟨ha,has⟩ := forall_mem_cons.mp h
    obtain ⟨hnext,hchain⟩ := isChain_cons.mp hchain
    obtain rfl : found a = mark := hfirst a rfl
    obtain ⟨hle,hdue,hone⟩ := ih has hchain hnext
    have hrest : ∀ b : α, b ∈ a::as → due b ∧ gets b → b≠a →
        (as.map wrote).sum+(left a).toNat = 1 := by
      intro b hb hgets hne
      exact hone ⟨b,(mem_cons.mp hb).resolve_left hne,hgets⟩
    simp only [map_cons,sum_cons]
    by_cases hidle : found a = true ∨ ¬due a
    · obtain ⟨hzero,hleft⟩ := ha.rests hidle
      rw [hleft] at hle hrest
      refine ⟨by omega,?_,?_⟩
      · simpa [hzero] using hdue
      · rintro ⟨b,hb,hgets⟩
        by_cases hba : b=a
        · subst hba
          have hset : found b = true := hidle.resolve_right (not_not_intro hgets.1)
          simp only [hset,Bool.toNat_true] at hle ⊢
          omega
        · have := hrest b hb hgets hba
          omega
    · rw [not_or,not_not,Bool.not_eq_true] at hidle
      obtain ⟨hwrote,hleft⟩ | ⟨hwrote,hleft,hnot⟩ := ha.tries hidle.1 hidle.2
      all_goals
        rw [hleft] at hle hrest
        simp only [hwrote,hidle.1,Bool.toNat_true,Bool.toNat_false] at hle hrest ⊢
      · refine ⟨by omega,?_,fun _ => by omega⟩
        intro b hb hpos
        obtain rfl | hb := mem_cons.mp hb
        · exact hidle.2
        · exact hdue b hb hpos
      · refine ⟨by omega,?_,?_⟩
        · intro b hb hpos
          obtain rfl | hb := mem_cons.mp hb
          · exact hidle.2
          · exact hdue b hb hpos
        · rintro ⟨b,hb,hgets⟩
          have := hrest b hb hgets fun heq => hnot (heq ▸ hgets.2)
          omega

end Marks

section Keyed
variable {σ α β γ κ : Type} {f : σ → α → List β × σ} (proj : σ → γ) {own : β → Bool}
  {keyOf : α → κ} {key : κ}

abbrev collect (f : σ → α → List β × σ) (start : List β × σ) (items : List α) : List β × σ :=
  items.foldl (fun acc a => (acc.1++(f acc.2 a).1,(f acc.2 a).2)) start

lemma collect_of_other
    (hother : ∀ s a, keyOf a ≠ key → proj (f s a).2=proj s ∧ (f s a).1.countP own=0)
    {items : List α} (hnone : ∀ a∈items, keyOf a ≠ key) (start : List β × σ) :
    proj (collect f start items).2 = proj start.2 ∧
      (collect f start items).1.countP own = start.1.countP own := by
  induction items generalizing start with
  | nil => exact ⟨rfl,rfl⟩
  | cons a items ih =>
    obtain ⟨ha,hnone⟩ := forall_mem_cons.mp hnone
    obtain ⟨hproj,hcount⟩ := hother start.2 a ha
    obtain ⟨hproj',hcount'⟩ := ih hnone (start.1++(f start.2 a).1,(f start.2 a).2)
    refine ⟨hproj'.trans hproj,hcount'.trans ?_⟩
    rw [countP_append,hcount,Nat.add_zero]

lemma collect_of_mem
    (hother : ∀ s a, keyOf a ≠ key → proj (f s a).2=proj s ∧ (f s a).1.countP own=0)
    {items : List α} (hnodup : (items.map keyOf).Nodup) {a : α} (ha : a∈items)
    (hkey : keyOf a=key) (start : List β × σ) :
    ∃ s, proj s = proj start.2 ∧ proj (collect f start items).2 = proj (f s a).2 ∧
      (collect f start items).1.countP own = start.1.countP own+(f s a).1.countP own := by
  induction items generalizing start with
  | nil => cases ha
  | cons b items ih =>
    rw [map_cons,nodup_cons] at hnodup
    obtain rfl | ha := mem_cons.mp ha
    · have hnone : ∀ c∈items, keyOf c ≠ key := fun c hc heq =>
        hnodup.1 (mem_map.mpr ⟨c,hc,heq.trans hkey.symm⟩)
      obtain ⟨hproj,hcount⟩ := collect_of_other proj hother hnone (start.1++(f start.2 a).1,(f start.2 a).2)
      exact ⟨start.2,rfl,hproj,by rw [← countP_append]; exact hcount⟩
    · have hb : keyOf b ≠ key := fun heq => hnodup.1 (mem_map.mpr ⟨a,ha,hkey.trans heq.symm⟩)
      obtain ⟨hproj,hcount⟩ := hother start.2 b hb
      obtain ⟨s,hs,hproj',hcount'⟩ := ih hnodup.2 ha (start.1++(f start.2 b).1,(f start.2 b).2)
      refine ⟨s,hs.trans hproj,hproj',hcount'.trans ?_⟩
      rw [countP_append,hcount,Nat.add_zero]

end Keyed

end Pglens.Lib
