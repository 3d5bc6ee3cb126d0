import Mathlib.Data.List.Find
import Mathlib.Data.List.Lex
import Mathlib.Data.List.Sort
import Mathlib.Data.List.TakeWhile
import Mathlib.Data.UInt
import Pglens.Lib.Loop

/-! A Go string is its bytes. Here are the functions of the strings package that read one as a list:
the replacer, the cut at a byte, and the order. -/
namespace Pglens.Lib
open List

abbrev Text := List UInt8

instance byteOrder : LinearOrder UInt8 := LinearOrder.lift' UInt8.toNat fun _ _ => UInt8.toNat_inj.mp

instance : LawfulBEq Text := inferInstance
instance : IsTrans Text (· ≤ ·) := inferInstance
instance : Std.Antisymm fun s t : Text => s≤t := inferInstance
instance : Std.Total fun s t : Text => s≤t := inferInstance

namespace Text

/-- strings.Cut at one byte. -/
def cut (sep : UInt8) (s : Text) : Option (Text × Text) :=
  if sep∈s then some (s.takeWhile (· != sep),(s.dropWhile (· != sep)).tail) else none

variable {sep : UInt8} {s s' t t' : Text}

lemma cut_append (h : sep ∉ s) (t : Text) : cut sep (s++sep::t) = some (s,t) := by
  have hall : ∀ b∈s, (b != sep) = true := by
    intro b hb
    simpa using fun heq : b = sep => h (heq ▸ hb)
  rw [cut,if_pos (by simp),takeWhile_append_of_pos hall,dropWhile_append_of_pos hall]
  simp

lemma append_sep_inj (h : sep ∉ s) (h' : sep ∉ s')
    (heq : s++sep::t=s'++sep::t') : s=s' ∧ t=t' := by
  have hcut : some (s,t) = some (s',t') := by
    rw [← cut_append h,heq,cut_append h']
  simpa using hcut

lemma append_sep_cases (heq : s++sep::t=s'++sep::t') :
    (s=s' ∧ t=t') ∨ (∃ m, s'=s++sep::m ∧ t=m++sep::t') ∨
      ∃ m, s = s'++sep::m ∧ t' = m++sep::t := by
  obtain ⟨rest,hs,ht⟩ | ⟨rest,hs,ht⟩ := append_eq_append_iff.mp heq
  · cases rest with
    | nil =>
      rw [append_nil] at hs
      exact .inl ⟨hs.symm,(List.cons.inj ht).2⟩
    | cons b m =>
      obtain ⟨rfl,hm⟩ := List.cons.inj ht
      exact .inr (.inl ⟨m,hs,hm⟩)
  · cases rest with
    | nil =>
      rw [append_nil] at hs
      exact .inl ⟨hs,(List.cons.inj ht).2.symm⟩
    | cons b m =>
      obtain ⟨rfl,hm⟩ := List.cons.inj ht
      exact .inr (.inr ⟨m,hs,hm⟩)

lemma append_cons_cases {b c : UInt8} {m m' : Text} (h : m++b::t=m'++c::t') (hc : c ∉ m) :
    (m=m' ∧ b=c ∧ t=t') ∨ ∃ n, m' = m++b::n ∧ t = n++c::t' := by
  obtain ⟨n,hm,ht⟩ | ⟨n,hm,ht⟩ := append_eq_append_iff.mp h
  · cases n with
    | nil =>
      rw [append_nil] at hm
      exact .inl ⟨hm.symm,(List.cons.inj ht).1,(List.cons.inj ht).2⟩
    | cons d n =>
      obtain ⟨rfl,hn⟩ := List.cons.inj ht
      exact .inr ⟨n,hm,hn⟩
  · cases n with
    | nil =>
      rw [append_nil] at hm
      exact .inl ⟨hm,(List.cons.inj ht).1.symm,(List.cons.inj ht).2.symm⟩
    | cons d n =>
      obtain ⟨rfl,-⟩ := List.cons.inj ht
      exact absurd (by simp [hm]) hc

/-- The loop of a Replacer, with the number of bytes that the last match still covers. -/
def replaceFrom (pairs : List (Text × Text)) : ℕ → Text → Text
  | _, [] => []
  | skip+1, _::s => replaceFrom pairs skip s
  | 0, b::s => match pairs.find? fun p => p.1.isPrefixOf (b::s) with
    | some p => p.2++replaceFrom pairs (p.1.length-1) s
    | none => b::replaceFrom pairs 0 s

/-- strings.Replacer: at each place the first of the pairs that matches, and no match overlaps
another. -/
def replace (pairs : List (Text × Text)) (s : Text) : Text := replaceFrom pairs 0 s

def image (pairs : List (Text × Text)) (b : UInt8) : Text :=
  ((pairs.find? fun p => p.1 == [b]).map Prod.snd).getD [b]

section Replace
variable {pairs : List (Text × Text)}

lemma replace_cons_of_none {b : UInt8} {s : Text} (h : ∀ p∈pairs, p.1.isPrefixOf (b::s)=false) :
    replace pairs (b::s) = b::replace pairs s := by
  have hnone : (pairs.find? fun p => p.1.isPrefixOf (b::s)) = none :=
    find?_eq_none.mpr fun p hp => by simp [h p hp]
  simp only [replace,replaceFrom,hnone]

lemma replace_eq_flatMap (h : ∀ p∈pairs, p.1.length=1) (s : Text) :
    replace pairs s = s.flatMap (image pairs) := by
  induction s with
  | nil => rfl
  | cons b s ih =>
    have hfind : (pairs.find? fun p => p.1.isPrefixOf (b::s)) = pairs.find? fun p => p.1 == [b] := by
      refine find?_congr fun p hp => ?_
      obtain ⟨c,hc⟩ := length_eq_one_iff.mp (h p hp)
      simp [hc,List.isPrefixOf]
    rw [flatMap_cons,← ih,image,replace,replaceFrom,hfind]
    cases hp : pairs.find? fun p => p.1 == [b] with
    | none => rfl
    | some p => simp [replace,h p (mem_of_find?_eq_some hp)]

end Replace

def ascii (s : String) : Text := s.toList.map fun c => c.toNat.toUInt8

section Utf8

def utf8 (s : String) : Text := s.toByteArray.data.toList

lemma utf8_append (s t : String) : utf8 (s++t) = utf8 s++utf8 t := by
  simp [utf8,String.toByteArray_append,ByteArray.data_append]

lemma utf8_injective : Function.Injective utf8 := by
  intro s t h
  exact String.toByteArray_inj.mp (ByteArray.ext (Array.toList_inj.mp h))

lemma utf8_ofList (cs : List Char) :
    utf8 (String.ofList cs) = cs.flatMap String.utf8EncodeChar := by
  rw [utf8,String.toByteArray_ofList]
  simp [List.utf8Encode]

def decimal (n : ℤ) : Text := utf8 (toString n)

lemma decimal_eq (n : ℤ) :
    decimal n = if 0≤n then utf8 n.toNat.repr else 0x2d::utf8 (-n).toNat.repr := by
  rw [decimal,Int.toString_eq_repr,Int.repr_eq_if]
  split_ifs
  · rfl
  · rw [utf8_append]
    rfl

lemma decimal_ne_nil (n : ℤ) : decimal n ≠ [] := by
  intro h
  have hempty : toString n = "" := utf8_injective h
  rw [Int.toString_eq_repr,Int.repr_eq_if] at hempty
  split_ifs at hempty
  · exact Nat.repr_ne_empty hempty
  · simpa using congrArg String.length hempty

lemma utf8EncodeChar_of_isDigit {c : Char} (h : c.isDigit=true) :
    String.utf8EncodeChar c = [c.toNat.toUInt8] := by
  have hle : c.toNat≤57 := (Char.isDigit_iff_toNat.mp h).2
  have hlt : ¬127<c.toNat := by omega
  simp [String.utf8EncodeChar,hlt]

lemma mem_utf8_repr {n : ℕ} {b : UInt8} (h : b ∈ utf8 n.repr) : 0x30 ≤ b.toNat ∧ b.toNat≤0x39 := by
  rw [Nat.repr_eq_ofList_toDigits,utf8_ofList] at h
  obtain ⟨c,hc,hb⟩ := mem_flatMap.mp h
  have hdigit := Nat.isDigit_of_mem_toDigits (by decide) (by decide) hc
  have hle : 48≤c.toNat ∧ c.toNat≤57 := Char.isDigit_iff_toNat.mp hdigit
  rw [utf8EncodeChar_of_isDigit hdigit,mem_singleton] at hb
  have hmod : b.toNat = c.toNat % 256 := by
    rw [hb]
    exact UInt8.toNat_ofNat'
  omega

lemma mem_decimal {n : ℤ} {b : UInt8} (h : b ∈ decimal n) :
    b = 0x2d ∨ 0x30≤b.toNat ∧ b.toNat≤0x39 := by
  rw [decimal_eq] at h
  split_ifs at h
  · exact .inr (mem_utf8_repr h)
  · obtain hsign | hdigits := mem_cons.mp h
    · exact .inl hsign
    · exact .inr (mem_utf8_repr hdigits)

lemma utf8_repr_injective {m n : ℕ} (h : utf8 m.repr=utf8 n.repr) : m=n := by
  have hdigits : Nat.toDigits 10 m = Nat.toDigits 10 n := by
    have heq := utf8_injective h
    rw [Nat.repr_eq_ofList_toDigits,Nat.repr_eq_ofList_toDigits] at heq
    exact String.ofList_injective heq
  have hread := congrArg (Nat.ofDigitChars 10 · 0) hdigits
  simpa only [Nat.ofDigitChars_ten_toDigits] using hread

lemma decimal_injective : Function.Injective decimal := by
  have hsign : ∀ (m n : ℕ), utf8 m.repr ≠ 0x2d::utf8 n.repr := by
    intro m n h
    have hmem := mem_utf8_repr (n := m) (b := 0x2d) (by simp [h])
    exact absurd hmem.1 (by decide)
  intro m n h
  rw [decimal_eq,decimal_eq] at h
  split_ifs at h
  · have := utf8_repr_injective h
    omega
  · exact absurd h (hsign _ _)
  · exact absurd h.symm (hsign _ _)
  · have := utf8_repr_injective (List.cons.inj h).2
    omega

end Utf8

/-- The slice from `a` to `b`, which panics out of range. -/
def slice (s : Text) (a b : ℕ) : Option Text :=
  if a≤b ∧ b ≤ s.length then some ((s.drop a).take (b-a)) else none

/-- The slice from `a` to the end. -/
def sliceFrom (s : Text) (a : ℕ) : Option Text := if a ≤ s.length then some (s.drop a) else none

def indexByte (s : Text) (b : UInt8) : Option ℕ := s.findIdx? (· == b)

def index (sub : Text) : Text → Option ℕ
  | [] => if sub=[] then some 0 else none
  | b::s => if sub.isPrefixOf (b::s) then some 0 else (index sub s).map (·+1)

def trim (s cutset : Text) : Text :=
  ((s.dropWhile (cutset.contains ·)).reverse.dropWhile (cutset.contains ·)).reverse

lemma trim_eq_nil {cutset : Text} : trim s cutset = [] ↔ ∀ b∈s, b∈cutset := by
  rw [trim,reverse_eq_nil_iff,dropWhile_eq_nil_iff]
  constructor
  · intro h
    have hnil : s.dropWhile (cutset.contains ·) = [] := by
      by_contra hne
      have hhead := head_dropWhile_not (fun b => cutset.contains b) hne
      rw [h _ (mem_reverse.mpr (head_mem hne))] at hhead
      cases hhead
    simpa using dropWhile_eq_nil_iff.mp hnil
  · intro h b hb
    simpa using h b ((dropWhile_suffix _).mem (mem_reverse.mp hb))

def within (s : Text) (i : ℕ) (p : UInt8 → Bool) : Option Bool :=
  if i<s.length then s[i]?.map p else some false

def skipWhile (s : Text) (p : UInt8 → Bool) (i : ℕ) : Option ℕ :=
  loop (fun j => do if ← within s j p then some (.again (j+1)) else some (.leave j)) (s.length+1) i

lemma findIdx?_cases (p : UInt8 → Bool) (s : Text) :
    (s.findIdx? p=none ∧ ∀ b∈s, p b=false) ∨
      ∃ m b t, s = m++b::t ∧ p b = true ∧ (∀ c∈m, p c=false) ∧ s.findIdx? p = some m.length := by
  induction s with
  | nil => exact .inl ⟨rfl,by simp⟩
  | cons c s ih =>
    cases hc : p c with
    | true => exact .inr ⟨[],c,s,rfl,hc,by simp,by simp [findIdx?_cons,hc]⟩
    | false =>
      obtain ⟨hnone,hall⟩ | ⟨m,b,t,rfl,hb,hm,hidx⟩ := ih
      · exact .inl ⟨by simp [findIdx?_cons,hc,hnone],by simpa [hc] using hall⟩
      · exact .inr ⟨c::m,b,t,rfl,hb,by simpa [hc] using hm,by simp [findIdx?_cons,hc,hidx]⟩

section Index
variable {s rest : Text} {i : ℕ} {b : UInt8} {p : UInt8 → Bool}

lemma drop_cons (h : s.drop i=b::rest) :
    s.length = i+rest.length+1 ∧ s[i]? = some b ∧ s.drop (i+1) = rest := by
  refine ⟨?_,?_,?_⟩
  · have hlen := congrArg List.length h
    rw [length_drop,length_cons] at hlen
    omega
  · rw [← head?_drop,h,head?_cons]
  · rw [← drop_drop,h,drop_one,tail_cons]

lemma within_eq (s : Text) (i : ℕ) (p : UInt8 → Bool) :
    within s i p = some ((s.drop i).head?.any p) := by
  cases h : s.drop i with
  | nil =>
    rw [within,if_neg (by simpa using h)]
    rfl
  | cons b rest =>
    obtain ⟨hlen,hget,-⟩ := drop_cons h
    rw [within,if_pos (by omega),hget]
    rfl

lemma skipWhile_eq (s : Text) (p : UInt8 → Bool) (i : ℕ) :
    skipWhile s p i = some (i+((s.drop i).takeWhile p).length) := by
  refine loop_eq (fun _ => True) (fun j => s.length-j) (fun j => j+((s.drop j).takeWhile p).length)
    (fun j _ => ?_) trivial (by omega)
  rw [within_eq]
  cases h : s.drop j with
  | nil => simp [Toward,h]
  | cons b rest =>
    obtain ⟨hlen,-,hdrop⟩ := drop_cons h
    cases hp : p b with
    | false => simp [Toward,h,hp]
    | true =>
      simp [Toward,h,hp,hdrop]
      omega

lemma drop_takeWhile (s : Text) (p : UInt8 → Bool) (i : ℕ) :
    s.drop (i+((s.drop i).takeWhile p).length) = (s.drop i).dropWhile p := by
  rw [← drop_drop]
  nth_rewrite 2 [← takeWhile_append_dropWhile (p := p) (l := s.drop i)]
  exact drop_left

lemma slice_takeWhile (hi : i ≤ s.length) :
    slice s i (i+((s.drop i).takeWhile p).length) = some ((s.drop i).takeWhile p) := by
  have hprefix : (s.drop i).takeWhile p <+: s.drop i := takeWhile_prefix p
  have hle := hprefix.length_le
  rw [length_drop] at hle
  rw [slice,if_pos (by omega),Nat.add_sub_cancel_left,← prefix_iff_eq_take.mp hprefix]

end Index

section Contains

def containsText (s sub : Text) : Bool := (index sub s).isSome

lemma containsText_iff {s sub : Text} : containsText s sub = true ↔ sub <:+: s := by
  induction s with
  | nil => simp [containsText,index]
  | cons b s ih =>
    rw [infix_cons_iff,← ih,containsText,index]
    split
    · next h => simp [List.isPrefixOf_iff_prefix.mp h]
    · next h => simp [containsText,mt isPrefixOf_iff_prefix.mpr h]

end Contains

section Space

/-- The runes of unicode.IsSpace, in UTF-8. -/
def spaceRunes : List Text :=
  [[0x09],[0x0a],[0x0b],[0x0c],[0x0d],[0x20],[0xc2,0x85],[0xc2,0xa0],[0xe1,0x9a,0x80],
    [0xe2,0x80,0x80],[0xe2,0x80,0x81],[0xe2,0x80,0x82],[0xe2,0x80,0x83],[0xe2,0x80,0x84],
    [0xe2,0x80,0x85],[0xe2,0x80,0x86],[0xe2,0x80,0x87],[0xe2,0x80,0x88],[0xe2,0x80,0x89],
    [0xe2,0x80,0x8a],[0xe2,0x80,0xa8],[0xe2,0x80,0xa9],[0xe2,0x80,0xaf],[0xe2,0x81,0x9f],
    [0xe3,0x80,0x80]]

def spaceBytes : Text := spaceRunes.flatten

/-- A text that begins and ends with a byte of no space. -/
structure Tight (s : Text) : Prop where
  head : ∃ b t, s = b::t ∧ b ∉ spaceBytes
  last : ∃ t b, s = t++[b] ∧ b ∉ spaceBytes

end Space

section Rewrite

/-- A loop over a string that writes something for each byte it comes to: what is written, and how many of the
bytes behind it are read with it. The number is that of the bytes still to be passed over. -/
def rewriteFrom (read : UInt8 → Text → Text × ℕ) : ℕ → Text → Text
  | _, [] => []
  | skip+1, _::s => rewriteFrom read skip s
  | 0, b::s => (read b s).1++rewriteFrom read (read b s).2 s

def rewrite (read : UInt8 → Text → Text × ℕ) (s : Text) : Text := rewriteFrom read 0 s

variable {read : UInt8 → Text → Text × ℕ}

lemma rewriteFrom_eq (k : ℕ) (s : Text) : rewriteFrom read k s = rewrite read (s.drop k) := by
  induction s generalizing k with
  | nil => simp [rewrite,rewriteFrom]
  | cons b s ih =>
    cases k with
    | zero => rfl
    | succ k => exact ih k

@[simp] lemma rewrite_nil : rewrite read [] = [] := rfl

lemma rewrite_cons (b : UInt8) (s : Text) :
    rewrite read (b::s) = (read b s).1++rewrite read (s.drop (read b s).2) := by
  rw [rewrite,rewriteFrom,rewriteFrom_eq]

lemma rewrite_append_of_kept {s : Text} (h : ∀ b∈s, ∀ t, read b t=([b],0)) (t : Text) :
    rewrite read (s++t) = s++rewrite read t := by
  induction s with
  | nil => rfl
  | cons b s ih =>
    rw [cons_append,rewrite_cons,h b (by simp),drop_zero,ih fun c hc => h c (by simp [hc])]
    rfl

/-- Nothing is read across a byte: what is behind it does not matter before it. -/
structure Fence (read : UInt8 → Text → Text × ℕ) (q : UInt8) : Prop where
  kept : ∀ t, read q t = ([q],0)
  blind : ∀ b s t, read b (s++q::t) = read b (s++[q])
  short : ∀ b s, (read b (s++[q])).2 ≤ s.length+1

lemma Fence.rewrite_append {q : UInt8} (h : Fence read q) (s t : Text) :
    rewrite read (s++q::t) = rewrite read (s++[q])++rewrite read t := by
  induction hlen : s.length using Nat.strong_induction_on generalizing s with
  | _ n ih =>
    cases s with
    | nil => simp [rewrite_cons,h.kept]
    | cons b s =>
      have hshort := h.short b s
      rw [cons_append,cons_append,rewrite_cons,rewrite_cons,h.blind,append_assoc]
      congr 1
      generalize (read b (s++[q])).2 = k at hshort
      obtain hk | rfl := Nat.le_succ_iff.mp hshort
      · rw [drop_append_of_le_length hk,drop_append_of_le_length hk]
        refine ih (s.drop k).length ?_ (s.drop k) rfl
        rw [length_drop,← hlen,length_cons]
        omega
      · simp [drop_append,drop_eq_nil_of_le]

end Rewrite

end Text

end Pglens.Lib
