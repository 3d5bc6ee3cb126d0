import Pglens.Redact.Credential

/-! The ways to write a text with the escapes of an escape string or of a Unicode string. Each
decoding reads back what was written, so that no choice of escapes hides a sign. -/
namespace Pglens.Redact
open Pglens.Lib Pglens.Explain List Text

section Digits
variable {base : ℕ}

def numeral (base : ℕ) (ds : Text) : ℕ := ds.foldl (fun v c => v*base+((digitValue base c).getD 0)) 0

def Digits (base : ℕ) (ds : Text) : Prop := ∀ c∈ds, (digitValue base c).isSome

lemma readDigitsFrom_eq {ds rest : Text} (hds : Digits base ds) {limit : ℕ}
    (hlimit : ds.length≤limit)
    (hend : ds.length<limit → ∀ c∈rest.head?, digitValue base c=none) (value n : ℕ) :
    readDigitsFrom base limit value n (ds++rest) =
      (ds.foldl (fun v c => v*base+((digitValue base c).getD 0)) value,n+ds.length) := by
  induction ds generalizing limit value n with
  | nil =>
    cases limit with
    | zero => rfl
    | succ limit =>
      cases rest with
      | nil => rfl
      | cons c rest => simp [readDigitsFrom,hend (by simp) c (by simp)]
  | cons c ds ih =>
    obtain ⟨d,hd⟩ := Option.isSome_iff_exists.mp (hds c (by simp))
    cases limit with
    | zero => simp at hlimit
    | succ limit =>
      simp only [length_cons,Nat.add_le_add_iff_right,Nat.add_lt_add_iff_right] at hlimit hend
      rw [cons_append,readDigitsFrom,hd]
      dsimp only
      rw [ih (fun b hb => hds b (by simp [hb])) hlimit hend,foldl_cons,hd,length_cons]
      simp only [Option.getD_some,Prod.mk.injEq,true_and]
      omega

lemma readDigits_eq {ds : Text} (rest : Text) (hds : Digits base ds) {limit : ℕ}
    (hlimit : ds.length≤limit) (hend : ds.length<limit → ∀ c∈rest.head?, digitValue base c=none) :
    readDigits (ds++rest) limit base = (numeral base ds,ds.length) := by
  rw [readDigits,readDigitsFrom_eq hds hlimit hend,Nat.zero_add,numeral]

end Digits

section Renderings

/-- A text written with the escapes of an escape string. -/
inductive EscapeRendering : Text → Text → Prop
  | nil : EscapeRendering [] []
  | plain {c P Q} : EscapeRendering P Q → EscapeRendering (c::P) (c::Q)
  | octal {c P Q} (ds : Text) (hds : Digits 8 ds) (hlen : 1≤ds.length ∧ ds.length≤3)
    (hvalue : (numeral 8 ds).toUInt8=c)
    (hend : ds.length<3 → ∀ b∈Q.head?, digitValue 8 b=none) :
    EscapeRendering P Q → EscapeRendering (c::P) (backslash::ds++Q)
  | hex {c P Q} (ds : Text) (hds : Digits 16 ds) (hlen : 1≤ds.length ∧ ds.length≤2)
    (hvalue : (numeral 16 ds).toUInt8=c)
    (hend : ds.length<2 → ∀ b∈Q.head?, digitValue 16 b=none) :
    EscapeRendering P Q → EscapeRendering (c::P) (backslash::letterX::ds++Q)
  | rune {c P Q} (u : UInt8) (ds : Text) (hds : Digits 16 ds)
    (hlen : u=letterU ∧ ds.length=4 ∨ u=capitalU ∧ ds.length=8) (hvalue : numeral 16 ds=c.toNat) :
    EscapeRendering P Q → EscapeRendering (c::P) (backslash::u::ds++Q)
  | itself {c P Q} (hcontrol : c ∉ controlLetters) (hletter : c ∉ [letterX,letterU,capitalU])
    (hoctal : octalDigit c=false) : EscapeRendering P Q → EscapeRendering (c::P) (backslash::c::Q)

/-- A text written with the escapes of a Unicode string. -/
inductive UnicodeRendering : Text → Text → Prop
  | nil : UnicodeRendering [] []
  | plain {c P Q} : UnicodeRendering P Q → UnicodeRendering (c::P) (c::Q)
  | four {c P Q} (ds : Text) (hds : Digits 16 ds) (hlen : ds.length=4) (hvalue : numeral 16 ds=c.toNat) :
    UnicodeRendering P Q → UnicodeRendering (c::P) (backslash::ds++Q)
  | six {c P Q} (ds : Text) (hds : Digits 16 ds) (hlen : ds.length=6) (hvalue : numeral 16 ds=c.toNat) :
    UnicodeRendering P Q → UnicodeRendering (c::P) (backslash::plus::ds++Q)

end Renderings

section Rounds
variable {escape : UInt8 → Text → Text × ℕ}

lemma round_of_ne {c : UInt8} (hc : c≠backslash) (t : Text) : round escape c t = ([c],0) := by
  cases t with
  | nil => rfl
  | cons d s => exact if_pos hc

lemma rewrite_round_of_plain {text : Text} (h : backslash ∉ text) :
    rewrite (round escape) text = text := by
  have hkept : ∀ b∈text, ∀ t, round escape b t = ([b],0) := fun b hb => round_of_ne fun heq => h (heq ▸ hb)
  simpa using rewrite_append_of_kept hkept []

lemma decodeEscapeString_eq (text : Text) :
    decodeEscapeString text = rewrite (round escapeOf) text := by
  by_cases h : backslash∈text
  · rw [decodeEscapeString,if_pos h]
  · rw [decodeEscapeString,if_neg h,rewrite_round_of_plain h]

lemma decodeUnicodeString_eq (text : Text) :
    decodeUnicodeString text = rewrite (round unicodeOf) text := by
  by_cases h : backslash∈text
  · rw [decodeUnicodeString,if_pos h]
  · rw [decodeUnicodeString,if_neg h,rewrite_round_of_plain h]

lemma rewrite_round_plain {c : UInt8} (hc : c≠backslash) (Q : Text) :
    rewrite (round escape) (c::Q) = c::rewrite (round escape) Q := by
  rw [rewrite_cons,round_of_ne hc]
  rfl

lemma rewrite_round_escape {c d : UInt8} {ds Q : Text} (h : escape d (ds++Q)=([c],ds.length+1)) :
    rewrite (round escape) (backslash::d::ds++Q) = c::rewrite (round escape) Q := by
  have hround : round escape backslash (d::(ds++Q)) = ([c],ds.length+1) := by
    rw [round,if_neg (not_not_intro rfl),h]
  rw [cons_append,cons_append,rewrite_cons,hround]
  simp

end Rounds

section Escapes
variable {ds Q : Text} {c d : UInt8}

lemma octal_digit (h : (digitValue 8 c).isSome) : octalDigit c = true ∧ c ∉ controlLetters := by
  have hall : ∀ n : Fin 256, (digitValue 8 (.ofFin n)).isSome → octalDigit (.ofFin n) = true ∧
      UInt8.ofFin n ∉ controlLetters := by decide +kernel
  exact hall c.toFin h

lemma hex_digit (h : (digitValue 16 c).isSome) : (hexValue c).isSome ∧ c≠plus := by
  have hall : ∀ n : Fin 256, (digitValue 16 (.ofFin n)).isSome →
      (hexValue (.ofFin n)).isSome ∧ UInt8.ofFin n ≠ plus := by decide +kernel
  exact hall c.toFin h

lemma runeBytes_ascii (hc : c<0x80) : runeBytes c.toNat = [c] ∧ validRune c.toNat = true := by
  have hlt : c.toNat<128 := UInt8.lt_iff_toNat_lt.mp hc
  rw [runeBytes,if_pos (by omega),validRune]
  simp
  omega

lemma escapeOf_octal (hds : Digits 8 (d::ds)) (hlen : (d::ds).length ≤ 3)
    (hend : (d::ds).length<3 → ∀ b∈Q.head?, digitValue 8 b=none) :
    escapeOf d (ds++Q) = ([(numeral 8 (d::ds)).toUInt8],ds.length+1) := by
  have hread := readDigits_eq Q hds hlen hend
  obtain ⟨hoctal,hcontrol⟩ := octal_digit (hds d (by simp))
  rw [escapeOf,if_neg hcontrol,if_pos hoctal]
  rw [cons_append] at hread
  rw [hread]
  rfl

lemma escapeOf_hex (hds : Digits 16 ds) (hlen : 1≤ds.length ∧ ds.length≤2)
    (hend : ds.length<2 → ∀ b∈Q.head?, digitValue 16 b=none) :
    escapeOf letterX (ds++Q) = ([(numeral 16 ds).toUInt8],ds.length+1) := by
  have hhex : (ds++Q).head?.any (fun d => (hexValue d).isSome) = true := by
    cases ds with
    | nil => simp at hlen
    | cons d ds => exact (hex_digit (hds d (by simp))).1
  rw [escapeOf,if_neg (by decide),if_neg (by decide),if_pos ⟨rfl,hhex⟩,readDigits_eq Q hds hlen.2 hend]

lemma escapeOf_rune {u : UInt8} (hds : Digits 16 ds)
    (hlen : u=letterU ∧ ds.length=4 ∨ u=capitalU ∧ ds.length=8) :
    escapeOf u (ds++Q) = (runeBytes (numeral 16 ds),ds.length+1) := by
  have hkind : u ∉ controlLetters ∧ octalDigit u = false ∧ u≠letterX ∧ (u=letterU ∨ u=capitalU) ∧
      ds.length = if u=capitalU then 8 else 4 := by
    obtain ⟨rfl,hlen⟩ | ⟨rfl,hlen⟩ := hlen
    all_goals exact ⟨by decide,by decide,by decide,by decide,hlen⟩
  obtain ⟨hcontrol,hoctal,hx,hu,hwidth⟩ := hkind
  have hread := readDigits_eq Q hds (le_of_eq hwidth) (fun h => absurd hwidth (Nat.ne_of_lt h))
  rw [escapeOf,if_neg hcontrol,if_neg (by simp [hoctal]),if_neg (by simp [hx]),if_pos hu]
  simp only [hread]
  rw [if_neg (by simp [← hwidth])]

lemma escapeOf_itself (hcontrol : c ∉ controlLetters) (hletter : c ∉ [letterX,letterU,capitalU])
    (hoctal : octalDigit c=false) : escapeOf c Q = ([c],1) := by
  simp only [mem_cons,not_mem_nil,or_false,not_or] at hletter
  obtain ⟨hx,hu,hU⟩ := hletter
  rw [escapeOf,if_neg hcontrol,if_neg (by simp [hoctal]),if_neg (by simp [hx]),if_neg (by simp [hu,hU])]

lemma unicodeOf_four (hc : c<0x80) (hds : Digits 16 (d::ds)) (hlen : (d::ds).length=4)
    (hvalue : numeral 16 (d::ds)=c.toNat) : unicodeOf d (ds++Q) = ([c],ds.length+1) := by
  have hread := readDigits_eq Q hds (le_of_eq hlen) (by omega)
  obtain ⟨hbytes,hvalid⟩ := runeBytes_ascii hc
  rw [cons_append,hvalue] at hread
  simp only [unicodeOf,if_neg (hex_digit (hds d (by simp))).2,drop_zero,hread,hlen,hvalid,hbytes]
  simp [← hlen]

lemma unicodeOf_six (hc : c<0x80) (hds : Digits 16 ds) (hlen : ds.length=6)
    (hvalue : numeral 16 ds=c.toNat) : unicodeOf plus (ds++Q) = ([c],ds.length+1) := by
  have hread := readDigits_eq Q hds (le_of_eq hlen) (by omega)
  obtain ⟨hbytes,hvalid⟩ := runeBytes_ascii hc
  rw [hvalue] at hread
  simp only [unicodeOf,if_true,drop_succ_cons,drop_zero,hread,hlen,hvalid,hbytes]
  simp

end Escapes

section Found
variable {P Q : Text}

lemma EscapeRendering.decode (h : EscapeRendering P Q) (hP : ∀ c∈P, c<0x80 ∧ c≠backslash) :
    rewrite (round escapeOf) Q = P := by
  induction h with
  | nil => rfl
  | @plain c P Q _ ih =>
    obtain ⟨hc,hP⟩ := forall_mem_cons.mp hP
    rw [rewrite_round_plain hc.2,ih hP]
  | @octal c P Q ds hds hlen hvalue hend _ ih =>
    obtain ⟨-,hP⟩ := forall_mem_cons.mp hP
    cases ds with
    | nil => simp at hlen
    | cons d ds =>
      have hescape := escapeOf_octal hds hlen.2 hend
      rw [hvalue] at hescape
      rw [rewrite_round_escape hescape,ih hP]
  | @hex c P Q ds hds hlen hvalue hend _ ih =>
    obtain ⟨-,hP⟩ := forall_mem_cons.mp hP
    have hescape := escapeOf_hex hds hlen hend
    rw [hvalue] at hescape
    rw [rewrite_round_escape hescape,ih hP]
  | @rune c P Q u ds hds hlen hvalue _ ih =>
    obtain ⟨hc,hP⟩ := forall_mem_cons.mp hP
    have hescape := escapeOf_rune (Q := Q) hds hlen
    rw [hvalue,(runeBytes_ascii hc.1).1] at hescape
    rw [rewrite_round_escape hescape,ih hP]
  | @itself c P Q hcontrol hletter hoctal _ ih =>
    obtain ⟨-,hP⟩ := forall_mem_cons.mp hP
    have hstep : rewrite (round escapeOf) ([backslash,c]++Q) = c::rewrite (round escapeOf) Q :=
      rewrite_round_escape (escapeOf_itself hcontrol hletter hoctal)
    rw [cons_append,singleton_append] at hstep
    rw [hstep,ih hP]

lemma UnicodeRendering.decode (h : UnicodeRendering P Q) (hP : ∀ c∈P, c<0x80 ∧ c≠backslash) :
    rewrite (round unicodeOf) Q = P := by
  induction h with
  | nil => rfl
  | @plain c P Q _ ih =>
    obtain ⟨hc,hP⟩ := forall_mem_cons.mp hP
    rw [rewrite_round_plain hc.2,ih hP]
  | @four c P Q ds hds hlen hvalue _ ih =>
    obtain ⟨hc,hP⟩ := forall_mem_cons.mp hP
    cases ds with
    | nil => simp at hlen
    | cons d ds => rw [rewrite_round_escape (unicodeOf_four hc.1 hds hlen hvalue),ih hP]
  | @six c P Q ds hds hlen hvalue _ ih =>
    obtain ⟨hc,hP⟩ := forall_mem_cons.mp hP
    rw [rewrite_round_escape (unicodeOf_six hc.1 hds hlen hvalue),ih hP]

lemma mayHoldCredential_of_reading {reading : Text → Text} (h : reading∈readings) {query : Text}
    (hsign : showsSign (reading query)=true) : mayHoldCredential query = true :=
  any_eq_true.mpr ⟨reading,h,hsign⟩

/-- No choice of escapes hides a sign. -/
theorem sign_found_in_rendering (hascii : ∀ c∈P, c<0x80) (hplain : backslash ∉ P) (hsign : showsSign P=true)
    (h : EscapeRendering P Q ∨ UnicodeRendering P Q) : mayHoldCredential Q = true := by
  have hP : ∀ c∈P, c<0x80 ∧ c≠backslash := fun c hc => ⟨hascii c hc,fun heq => hplain (heq ▸ hc)⟩
  obtain h | h := h
  · refine mayHoldCredential_of_reading (show decodeEscapeString∈readings by simp [readings]) ?_
    rw [decodeEscapeString_eq,h.decode hP,hsign]
  · refine mayHoldCredential_of_reading (show decodeUnicodeString∈readings by simp [readings]) ?_
    rw [decodeUnicodeString_eq,h.decode hP,hsign]

-- The word secret, with an octal, a hex, a rune and a plain escape in it.
theorem sign_found_in_mixed_escapes :
    mayHoldCredential (backslash::[0x31,0x36,0x33]++(backslash::letterX::[0x36,0x35] ++
      (backslash::letterU::[0x30,0x30,0x36,0x33]++[0x72,0x65,0x74]))) = true := by
  refine sign_found_in_rendering (P := [0x73,0x65,0x63,0x72,0x65,0x74])
    (by decide +kernel) (by decide +kernel) (by decide +kernel)
    (.inl (.octal _ ?_ (by decide +kernel) (by decide +kernel) (by decide +kernel)
        (.hex _ ?_ (by decide +kernel) (by decide +kernel) (by decide +kernel)
      (.rune _ _ ?_ (by decide +kernel) (by decide +kernel) (.plain (.plain (.plain .nil)))))))
  all_goals
    simp only [Digits]
    decide +kernel

end Found

end Pglens.Redact
