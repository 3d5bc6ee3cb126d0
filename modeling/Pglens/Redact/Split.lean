import Pglens.Redact.Rendering

/-! A word joined from string constants is found when nothing that keepBytes keeps stands between
the constants, in one of the readings. No reading reads across a quote, so that a text falls apart
at its quotes. -/
namespace Pglens.Redact
open Pglens.Lib Pglens.Explain List Text Nat

section Quotes
variable {base : ℕ}

lemma readDigitsFrom_quote (limit value n : ℕ) (s t : Text) :
    readDigitsFrom base limit value n (s++quote::t) = readDigitsFrom base limit value n (s++[quote]) ∧
      (readDigitsFrom base limit value n (s++[quote])).2 ≤ n+s.length := by
  have hquote : digitValue base quote = none := rfl
  induction s generalizing limit value n with
  | nil =>
    cases limit with
    | zero => exact ⟨rfl,le_refl n⟩
    | succ limit => simp [readDigitsFrom,hquote]
  | cons c s ih =>
    cases limit with
    | zero => exact ⟨rfl,le_add_right n _⟩
    | succ limit =>
      cases hd : digitValue base c with
      | none => simp [readDigitsFrom,hd]
      | some d =>
        obtain ⟨heq,hle⟩ := ih limit (value*base+d) (n+1)
        simp only [cons_append,readDigitsFrom,hd,length_cons]
        exact ⟨heq,by omega⟩

lemma readDigits_quote (limit base : ℕ) (s t : Text) :
    readDigits (s++quote::t) limit base = readDigits (s++[quote]) limit base ∧
      (readDigits (s++[quote]) limit base).2 ≤ s.length := by
  obtain ⟨heq,hle⟩ := readDigitsFrom_quote limit 0 0 s t
  exact ⟨heq,by rw [readDigits]; omega⟩

lemma head?_quote (s t : Text) : (s++quote::t).head? = (s++[quote]).head? := by
  cases s with
  | nil => rfl
  | cons c s => rfl

/-- An escape that a decoding reads does not go past a quote. -/
structure StopsAtQuote (escape : UInt8 → Text → Text × ℕ) : Prop where
  atQuote : ∀ t, escape quote t = ([quote],1)
  blind : ∀ c s t, escape c (s++quote::t) = escape c (s++[quote])
  short : ∀ c s, (escape c (s++[quote])).2 ≤ s.length+1

lemma stopsAtQuote_escapeOf : StopsAtQuote escapeOf where
  atQuote t := by
    rw [escapeOf,if_neg (by decide),if_neg (by decide),if_neg (by simp [quote,letterX]),if_neg (by decide)]
  blind c s t := by
    have hoctal := (readDigits_quote 3 8 (c::s) t).1
    rw [cons_append,cons_append] at hoctal
    simp only [escapeOf,hoctal,head?_quote s t,(readDigits_quote _ 16 s t).1]
  short c s := by
    have hoctal := (readDigits_quote 3 8 (c::s) []).2
    have hhex := fun limit => (readDigits_quote limit 16 s []).2
    rw [cons_append,length_cons] at hoctal
    rw [escapeOf]
    split_ifs
    · exact le_add_left 1 _
    · exact hoctal
    · exact succ_le_succ (hhex 2)
    · grind
    · grind
    · exact le_add_left 1 _

lemma stopsAtQuote_unicodeOf : StopsAtQuote unicodeOf where
  atQuote t := rfl
  blind c s t := by
    by_cases hc : c=plus
    · simp only [unicodeOf,if_pos hc,drop_succ_cons,drop_zero,(readDigits_quote 6 16 s t).1]
    · have hread := (readDigits_quote 4 16 (c::s) t).1
      rw [cons_append,cons_append] at hread
      simp only [unicodeOf,if_neg hc,drop_zero,hread]
  short c s := by
    by_cases hc : c=plus
    · have hread := (readDigits_quote 6 16 s []).2
      simp only [unicodeOf,if_pos hc,drop_succ_cons,drop_zero]
      split_ifs
      · dsimp only
        omega
      · exact le_add_left 1 _
    · have hread := (readDigits_quote 4 16 (c::s) []).2
      simp only [unicodeOf,if_neg hc,drop_zero]
      split_ifs
      · simpa using hread
      · exact le_add_left 1 _

variable {escape : UInt8 → Text → Text × ℕ}

lemma StopsAtQuote.fence (h : StopsAtQuote escape) :
    Text.Fence (round escape) quote where
  kept := round_of_ne (by decide)
  blind b s t := by
    cases s with
    | nil => simp only [nil_append,round,h.atQuote]
    | cons c s => simp only [cons_append,round,h.blind]
  short b s := by
    cases s with
    | nil =>
      simp only [nil_append,round,h.atQuote]
      split_ifs <;> simp
    | cons c s =>
      have hshort := h.short c s
      simp only [cons_append,round,length_cons]
      split_ifs
      · exact zero_le _
      · omega

/-- A reading that falls apart at the quotes of a text and keeps what has no backslash. -/
structure Apart (reading : Text → Text) : Prop where
  atQuote : reading [quote] = [quote]
  split : ∀ s t, reading (s++quote::t) = reading (s++[quote])++reading t
  keep : ∀ s t, backslash ∉ s → reading (s++t) = s++reading t

lemma apart_rewrite (h : StopsAtQuote escape) :
    Apart (rewrite (round escape)) where
  atQuote := rewrite_round_of_plain (by decide)
  split := h.fence.rewrite_append
  keep s t hs := rewrite_append_of_kept (fun b hb => round_of_ne fun heq => hs (heq ▸ hb)) t

lemma apart_of_mem {reading : Text → Text} (h : reading∈readings) : Apart reading := by
  simp only [readings,mem_cons,not_mem_nil,or_false] at h
  obtain rfl | rfl | rfl := h
  · exact ⟨rfl,fun s t => (append_cons s quote t),fun s t _ => rfl⟩
  · rw [funext decodeEscapeString_eq]
    exact apart_rewrite stopsAtQuote_escapeOf
  · rw [funext decodeUnicodeString_eq]
    exact apart_rewrite stopsAtQuote_unicodeOf

end Quotes

section Constants

/-- A string constant without escapes: plain, or with an E before it. -/
structure Constant where
  mark : Text
  value : Text
  hmark : mark ∈ [[],[0x45],[0x65]]
  hquote : quote ∉ value
  hbackslash : backslash ∉ value

def Constant.text (c : Constant) : Text := c.mark++quote::(c.value++[quote])

def joined (parts : List (Text × Constant)) : Text := parts.flatMap fun p => p.1++p.2.text

/-- What is between a constant and the one before it, with the opening quote. -/
def opening (p : Text × Constant) : Text := p.1++(p.2.mark++[quote])

lemma keepBytes_append (s t : Text) (uri : Bool) :
    keepBytes (s++t) uri = keepBytes s uri++keepBytes t uri :=
  filterMap_append

variable {reading : Text → Text}

lemma Apart.keepBytes_constant (h : Apart reading) (before : Text) (c : Constant) (rest : Text) :
    keepBytes (reading (before++(c.text++rest))) false =
      keepBytes (reading (opening (before,c))) false ++
          (keepBytes c.value false++keepBytes (reading rest) false) := by
  have htext : before++(c.text++rest) = (before++c.mark)++quote::(c.value++quote::rest) := by
    simp [Constant.text]
  have hclose := h.split [] rest
  rw [nil_append,nil_append,h.atQuote] at hclose
  rw [htext,h.split,h.keep _ _ c.hbackslash,hclose,opening,append_assoc,keepBytes_append,keepBytes_append,
    keepBytes_append]
  rfl

lemma Apart.keepBytes_joined (h : Apart reading) {parts : List (Text × Constant)}
    (hopening : ∀ p∈parts, keepBytes (reading (opening p)) false=[]) (rest : Text) :
    keepBytes (reading (joined parts++rest)) false =
      keepBytes (parts.flatMap fun p => p.2.value) false++keepBytes (reading rest) false := by
  induction parts with
  | nil => rfl
  | cons p parts ih =>
    obtain ⟨hp,hopening⟩ := forall_mem_cons.mp hopening
    have htext : joined (p::parts)++rest = p.1++(p.2.text++(joined parts++rest)) := by simp [joined]
    rw [htext,h.keepBytes_constant,hp,ih hopening,flatMap_cons,keepBytes_append]
    simp

/-- A word built from constants is found when in one of the readings no letter or digit stands
between them. -/
theorem split_word_found {word : Text} (hword : word∈credentialWords) (before rest : Text) (first : Constant)
    {parts : List (Text × Constant)}
    (hbuilt : word <:+: keepBytes (first.value++parts.flatMap fun p => p.2.value) false)
    (hapart : ∃ reading∈readings, ∀ p∈parts, keepBytes (reading (opening p)) false=[]) :
    mayHoldCredential (before++(first.text++(joined parts++rest))) = true := by
  obtain ⟨reading,hreading,hopening⟩ := hapart
  have h := apart_of_mem hreading
  refine mayHoldCredential_of_reading hreading ?_
  have hkept : word <:+: keepBytes (reading (before++(first.text++(joined parts++rest)))) false := by
    rw [h.keepBytes_constant,h.keepBytes_joined hopening,← append_assoc (keepBytes first.value false),
      ← keepBytes_append]
    exact (hbuilt.trans (prefix_append _ _).isInfix).trans (suffix_append _ _).isInfix
  rw [showsSign,Bool.or_eq_true]
  exact .inl (any_eq_true.mpr ⟨word,hword,containsText_iff.mpr hkept⟩)

def pass : Constant := ⟨[],[0x70,0x61,0x73,0x73],by decide,by decide,by decide⟩
def word (mark : Text) (h : mark ∈ [[],[0x45],[0x65]]) : Constant :=
  ⟨mark,[0x77,0x6f,0x72,0x64],h,by decide,by decide⟩

-- The operator, a comment and a line break between the constants.
theorem split_word_found_behind_comment :
    mayHoldCredential ([]++(pass.text++(joined [(ascii " || /* - */\n",word [] (by decide))]++[]))) = true :=
  split_word_found (show ascii "password" ∈ credentialWords by decide) [] [] pass (by decide +kernel)
    ⟨id,by simp [readings],by decide +kernel⟩

/-- The E of an escape string stays between the pieces. -/
theorem split_word_missed :
    ascii "password" <:+: pass.value++(word [0x45] (by decide)).value ∧
      mayHoldCredential (pass.text++joined [(ascii " || ",word [0x45] (by decide))]) = false := by
  decide +kernel

end Constants

end Pglens.Redact
