import Pglens.Explain.Scanner
import Mathlib.Data.List.TakeWhile

/-! Each reader of the scanner, written as a recursion on the bytes from its index on, and the proof
that the reader by index computes it: it never reads out of range, and it stops where what is left
of the text is the value of the recursion. -/
namespace Pglens.Explain
open Pglens.Lib List Option Text

def indexOf (text rest : Text) : ℕ := text.length-rest.length

variable {text rest s m t : Text} {i d : ℕ} {p : UInt8 → Bool} {b : UInt8}

lemma drop_indexOf (h : rest <:+ text) : text.drop (indexOf text rest) = rest :=
  (suffix_iff_eq_drop.mp h).symm

lemma indexOf_nil (text : Text) : indexOf text [] = text.length := rfl

lemma indexOf_drop (h : text.drop i=rest) (hi : i≤text.length) : indexOf text rest = i := by
  rw [indexOf,← h,length_drop]
  omega

lemma indexOf_le (text rest : Text) : indexOf text rest ≤ text.length := Nat.sub_le _ _

lemma skipWhile_indexOf (p : UInt8 → Bool) (h : text.drop i=s)
    (hi : i≤text.length) : Text.skipWhile text p i = some (indexOf text (s.dropWhile p)) := by
  have hle := ( takeWhile_prefix p (l := text.drop i)).length_le
  rw [length_drop] at hle
  rw [skipWhile_eq,← h,← drop_takeWhile,indexOf_drop rfl (by omega)]

lemma slice_eq {a b : ℕ} (h : text.drop a=m++rest) (ha : a≤text.length)
    (hb : b=a+m.length) : Text.slice text a b = some m := by
  have hlen := congrArg List.length h
  rw [length_drop,length_append] at hlen
  rw [Text.slice,if_pos (by omega),h,hb,Nat.add_sub_cancel_left,take_left]

def afterString (escaped : Bool) : Text → Text
  | [] => []
  | [_] => []
  | b::c::s =>
    if b=backslash then if escaped then afterString escaped s else afterString escaped (c::s)
    else if b=quote then if c=quote then afterString escaped s else c::s
    else afterString escaped (c::s)

lemma skipStringLiteral_eq (text : Text) (i : ℕ) (escaped : Bool) :
    skipStringLiteral text i escaped =
      some (indexOf text (afterString escaped (text.drop (i+1)))) := by
  refine loop_eq (fun _ => True) (fun j => text.length-j)
    (fun j => indexOf text (afterString escaped (text.drop j))) (fun j _ => ?_) trivial (by omega)
  match h : text.drop j with
  | [] =>
    rw [if_neg (by simpa using h)]
    simp [Toward,h,afterString,indexOf]
  | [b] =>
    obtain ⟨hlen,hget,hdrop⟩ := Text.drop_cons h
    have hdrop2 : text.drop (j+2) = [] := by simp [hlen]
    rw [if_pos (by omega),hget,within_eq,hdrop]
    simp only [bind_eq_bind,bind_some,head?_nil,any_none]
    grind [Toward,afterString,indexOf]
  | b::c::s =>
    obtain ⟨hlen,hget,hdrop⟩ := Text.drop_cons h
    obtain ⟨-,-,hdrop2⟩ := Text.drop_cons hdrop
    rw [if_pos (by omega),hget,within_eq,hdrop]
    simp only [bind_eq_bind,bind_some,head?_cons,any_some]
    grind [Toward,afterString,indexOf]

def afterFirst (p : UInt8 → Bool) (s : Text) : Text := (s.dropWhile fun b => !p b).tail

lemma afterFirst_of_none (h : ∀ b∈s, p b=false) : afterFirst p s = [] := by
  rw [afterFirst,dropWhile_eq_nil_iff.mpr (by simpa using h),tail_nil]

lemma afterFirst_append (hm : ∀ c∈m, p c=false)
    (hb : p b=true) : afterFirst p (m++b::t) = t := by
  rw [afterFirst,dropWhile_append_of_pos (by simpa using hm)]
  simp [hb]

lemma afterFirst_skip (hm : ∀ c∈m, p c=false) : afterFirst p (m++t) = afterFirst p t := by
  rw [afterFirst,dropWhile_append_of_pos (by simpa using hm),afterFirst]

lemma afterFirst_length (p : UInt8 → Bool) (s : Text) : (afterFirst p s).length ≤ s.length-1 := by
  rw [afterFirst,length_tail]
  have hle := (dropWhile_suffix (fun b => !p b) (l := s)).length_le
  omega

lemma skipLineComment_eq (hi : i≤text.length) :
    skipLineComment text i = some (indexOf text (afterFirst (· == newline) (text.drop i))) := by
  rw [skipLineComment,Text.sliceFrom,if_pos hi,bind_eq_bind,bind_some,Text.indexByte]
  obtain ⟨hidx,hall⟩ | ⟨m,b,t,hs,hb,hm,hidx⟩ := findIdx?_cases (· == newline) (text.drop i)
  · rw [hidx,afterFirst_of_none hall,indexOf_nil]
  · have hlen := congrArg List.length hs
    rw [hidx,hs,afterFirst_append hm hb,indexOf]
    simp only [length_drop,length_append,length_cons] at hlen
    simp only [Option.some.injEq]
    omega

def afterBlock (depth : ℤ) : Text → Option Text
  | [] => none
  | [_] => none
  | b::c::s =>
    if b=slash ∧ c=star then afterBlock (depth+1) s
    else if b=star ∧ c=slash then if depth-1 = 0 then some s else afterBlock (depth-1) s
    else afterBlock depth (c::s)

lemma afterBlock_suffix {depth : ℤ} {s rest : Text} (h : afterBlock depth s=some rest) :
    rest <:+ s := by
  match s with
  | [] => cases h
  | [_] => cases h
  | b::c::s =>
    have hcs : s <:+ b::c::s := (suffix_cons c s).trans (suffix_cons b _)
    rw [afterBlock] at h
    split_ifs at h
    · exact (afterBlock_suffix h).trans hcs
    · exact some.inj h ▸ hcs
    · exact (afterBlock_suffix h).trans hcs
    · exact (afterBlock_suffix h).trans (suffix_cons b _)
  termination_by s.length

lemma skipBlockComment_eq (text : Text) (i : ℕ) :
    skipBlockComment text i = some (indexOf text ((afterBlock 0 (text.drop i)).getD [])) := by
  unfold skipBlockComment
  refine loop_eq (fun _ => True) (fun s : ℕ × ℤ => text.length-s.1)
    (fun s => indexOf text ((afterBlock s.2 (text.drop s.1)).getD []))
    (fun (j,depth) _ => ?_) trivial (by simp only; omega)
  dsimp only
  match h : text.drop j with
  | [] =>
    have hle := drop_eq_nil_iff.mp h
    rw [if_neg (by omega)]
    simp [Toward,h,afterBlock,indexOf]
  | [b] =>
    obtain ⟨hlen,-,-⟩ := Text.drop_cons h
    rw [if_neg (by simp at hlen; omega)]
    simp [Toward,h,afterBlock,indexOf]
  | b::c::s =>
    obtain ⟨hlen,hget,hdrop⟩ := Text.drop_cons h
    obtain ⟨hlen2,hget2,hdrop2⟩ := Text.drop_cons hdrop
    rw [if_pos (by omega),hget,hget2]
    simp only [bind_eq_bind,bind_some]
    grind [Toward,afterBlock,indexOf]

/-- A text that closes a comment nested `d` deep with its last byte, and not before. An opener
and a closer are read from left to right, so neither starts at the second byte of the other. -/
inductive Inside : ℕ → Text → Prop
  | last : Inside 1 [star,slash]
  | opens {d : ℕ} {s : Text} : Inside (d+2) s → Inside (d+1) (slash::star::s)
  | closes {d : ℕ} {s : Text} : Inside (d+1) s → Inside (d+2) (star::slash::s)
  | byte {d : ℕ} {b : UInt8} {s : Text} (hopen : ¬[slash,star] <+: b::s) (hclose : ¬[star,slash] <+: b::s) :
    Inside d s → Inside d (b::s)

def BlockComment (c : Text) : Prop := ∃ body, c = slash::star::body ∧ Inside 1 body

lemma afterBlock_opens (depth : ℤ) (s : Text) :
    afterBlock depth (slash::star::s) = afterBlock (depth+1) s := by
  rw [afterBlock,if_pos ⟨rfl,rfl⟩]

lemma afterBlock_closes (depth : ℤ) (s : Text) :
    afterBlock depth (star::slash::s) = if depth-1 = 0 then some s else afterBlock (depth-1) s := by
  rw [afterBlock,if_neg (by decide),if_pos ⟨rfl,rfl⟩]

lemma afterBlock_byte (depth : ℤ) (hopen : ¬[slash,star] <+: b::s)
    (hclose : ¬[star,slash] <+: b::s) : afterBlock depth (b::s) = afterBlock depth s := by
  cases s with
  | nil => rfl
  | cons c s =>
    rw [afterBlock,if_neg,if_neg]
    · rintro ⟨rfl,rfl⟩
      exact hclose (by simp)
    · rintro ⟨rfl,rfl⟩
      exact hopen (by simp)

lemma pair_prefix_append {c d : UInt8} (hs : s≠[]) (rest : Text) :
    [c,d] <+: b::(s++rest) ↔ [c,d] <+: b::s := by
  cases s with
  | nil => exact absurd rfl hs
  | cons e s => simp

lemma Inside.ne_nil (h : Inside d s) : s≠[] := by
  cases h <;> simp

lemma Inside.afterBlock (h : Inside d s) (rest : Text) :
    Explain.afterBlock d (s++rest) = some rest := by
  induction h with
  | last => rfl
  | opens _ ih =>
    rw [cons_append,cons_append,afterBlock_opens]
    exact_mod_cast ih
  | @closes d s _ ih =>
    have hdepth : ((d+2 : ℕ) : ℤ)-1 = ((d+1 : ℕ) : ℤ) := by omega
    rw [cons_append,cons_append,afterBlock_closes,hdepth,if_neg (by omega)]
    exact ih
  | @byte d b s hopen hclose h ih =>
    rw [cons_append,afterBlock_byte]
    · exact ih
    · rwa [pair_prefix_append h.ne_nil]
    · rwa [pair_prefix_append h.ne_nil]

lemma inside_of_afterBlock {d : ℕ} {s rest : Text} (h : afterBlock (d+1 : ℕ) s=some rest) :
    ∃ c, s = c++rest ∧ Inside (d+1) c := by
  match s with
  | [] => cases h
  | [_] => cases h
  | b::c::s =>
    rw [afterBlock] at h
    split_ifs at h with hopen hclose hzero
    · obtain ⟨rfl,rfl⟩ := hopen
      obtain ⟨t,rfl,ht⟩ := inside_of_afterBlock (d := d+1) (by exact_mod_cast h)
      exact ⟨slash::star::t,rfl,.opens ht⟩
    · obtain ⟨rfl,rfl⟩ := hclose
      obtain rfl : d=0 := by omega
      obtain rfl := some.inj h
      exact ⟨[star,slash],rfl,.last⟩
    · obtain ⟨rfl,rfl⟩ := hclose
      obtain ⟨e,rfl⟩ : ∃ e, d = e+1 := Nat.exists_eq_succ_of_ne_zero (by omega)
      have hdepth : ((e+1+1 : ℕ) : ℤ)-1 = ((e+1 : ℕ) : ℤ) := by omega
      rw [hdepth] at h
      obtain ⟨t,rfl,ht⟩ := inside_of_afterBlock h
      exact ⟨star::slash::t,rfl,.closes ht⟩
    · obtain ⟨t,ht,hin⟩ := inside_of_afterBlock h
      refine ⟨b::t,by rw [ht]; rfl,.byte ?_ ?_ hin⟩
      · rw [← pair_prefix_append hin.ne_nil rest,← ht]
        simpa [eq_comm] using hopen
      · rw [← pair_prefix_append hin.ne_nil rest,← ht]
        simpa [eq_comm] using hclose
  termination_by s.length

def afterDelim (delim s : Text) : Text := ((Text.index delim s).map fun k => s.drop (k+delim.length)).getD []

/-- What follows a parameter or a dollar-quoted string, from behind its dollar. -/
def afterDollar (s : Text) : Text :=
  if s.head?.any digit then s.dropWhile digit
  else if (s.dropWhile tagByte).head? = some dollar then
    afterDelim (dollar::s.takeWhile tagByte++[dollar]) (s.dropWhile tagByte).tail
  else s

lemma index_le {sub : Text} {k : ℕ} (h : Text.index sub s=some k) : k+sub.length ≤ s.length := by
  induction s generalizing k with
  | nil =>
    rw [Text.index] at h
    split_ifs at h with hsub
    obtain rfl := some.inj h
    simp [hsub]
  | cons b s ih =>
    rw [Text.index] at h
    split_ifs at h with hpre
    · obtain rfl := some.inj h
      simpa using (List.isPrefixOf_iff_prefix.mp hpre).length_le
    · obtain ⟨k,hk,rfl⟩ := map_eq_some_iff.mp h
      have := ih hk
      rw [length_cons]
      omega

lemma sliceFrom_eq (h : text.drop i=rest) (hi : i≤text.length) :
    Text.sliceFrom text i = some rest := by
  rw [Text.sliceFrom,if_pos hi,h]

lemma index_afterDelim {body delim : Text} (h : text.drop i=body) (hi : i≤text.length) :
    (match Text.index delim body with
      | some stop => some (i+stop+delim.length)
      | none => some text.length) = some (indexOf text (afterDelim delim body)) := by
  have hlen := congrArg List.length h
  rw [length_drop] at hlen
  rw [afterDelim]
  cases hidx : Text.index delim body with
  | none => rfl
  | some k =>
    have hle := index_le hidx
    simp only [map_some,getD_some,indexOf,length_drop,Option.some.injEq]
    omega

lemma skipDollar_eq (h : text.drop i=dollar::s) :
    skipDollar text i = some (indexOf text (afterDollar s)) := by
  obtain ⟨hlen,-,hdrop⟩ := Text.drop_cons h
  have hsuffix : s.dropWhile tagByte <:+ text :=
    (dropWhile_suffix _).trans (hdrop ▸ drop_suffix (i+1) text)
  have hself : indexOf text s = i+1 := by rw [indexOf]; omega
  rw [skipDollar,within_eq,hdrop,skipWhile_indexOf digit hdrop (by omega),
    skipWhile_indexOf tagByte hdrop (by omega),afterDollar]
  simp only [bind_eq_bind,bind_some,within_eq,drop_indexOf hsuffix]
  by_cases hdigit : s.head?.any digit
  · rw [if_pos hdigit,if_pos hdigit]
  rw [if_neg hdigit,if_neg hdigit]
  match hrest : s.dropWhile tagByte with
  | [] => rw [if_neg (by simp),if_neg (by simp),hself]
  | c::body =>
    by_cases hc : c=dollar
    · have hsplit : text.drop i = (dollar::s.takeWhile tagByte++[dollar])++body := by
        rw [h,append_assoc,singleton_append,cons_append,← hc,← hrest,takeWhile_append_dropWhile]
      have hlens := congrArg List.length hsplit
      simp only [length_drop,length_append,length_cons,length_nil] at hlens
      have hj : indexOf text (c::body)+1 = i+(dollar::s.takeWhile tagByte++[dollar]).length := by
        simp only [indexOf,length_cons,length_append,length_nil]
        omega
      have hbody : text.drop (indexOf text (c::body)+1) = body := by
        rw [hj,← drop_drop,hsplit,drop_left]
      have hle : indexOf text (c::body)+1 ≤ text.length := by rw [indexOf,length_cons]; omega
      rw [if_pos (by simp [hc]),if_pos (by simp [hc]),slice_eq hsplit (by omega) hj,bind_some,
        sliceFrom_eq hbody hle,bind_some]
      exact index_afterDelim hbody hle
    · rw [if_neg (by simpa using hc),if_neg (by simpa using hc),hself]

end Pglens.Explain
