import Pglens.Explain.Calls

/-! The tokens that PostgreSQL's lexer finds in a statement, with whitespace and comments among
them, how they are spelled, and which calls they write. A string with an escape prefix is the word E
and an escape literal tight behind it, and a number with a signed exponent is two numbers with the
sign between them. -/
namespace Pglens.Explain
open Pglens.Lib List Prod

def doubled (q : UInt8) (s : Text) : Text := s.flatMap fun b => if b=q then [q,q] else [b]

inductive Part
  | word (c : UInt8) (w : Text) (hc : identStart c=true) (hw : ∀ b∈w, identByte b=true)
  | quoted (value : Text)

inductive Piece
  | byte (b : UInt8) (hquote : b≠quote) (hbackslash : b≠backslash)
  | escape (b : UInt8)
  | quotes

def Piece.text : Piece → Text
  | .byte b _ _ => [b]
  | .escape b => [backslash,b]
  | .quotes => [quote,quote]

def delimiter (tag : Text) : Text := dollar::tag++[dollar]

def punctuation (b : UInt8) : Bool :=
  0x21 ≤ b && b ≤ 0x7e && !identByte b && b != quote && b != doubleQuote

inductive Token
  | space (b : UInt8) (h : isSpace b=true)
  /-- A line comment up to a newline. A carriage return in it ends the comment, and there are only
  blanks and further line comments between that and the newline. -/
  | lineComment (body : Text) (hnewline : newline ∉ body)
    (hreturn : ∀ m t, body=m++carriageReturn::t →
      t.dropWhile isSpace=[] ∨ [hyphen,hyphen] <+: t.dropWhile isSpace)
  /-- A line comment and the carriage return that ends it. -/
  | returnComment (body : Text) (hbody : ∀ b∈body, b≠newline ∧ b≠carriageReturn)
  | blockComment (body : Text) (h : Inside 1 body)
  /-- A literal in single quotes, by its value. -/
  | string (value : Text)
  /-- What stands behind the E of an escape string. -/
  | escaped (pieces : List Piece)
  | dollarString (tag body : Text) (htag : ∀ b∈tag, tagByte b=true)
    (hstart : ∀ b∈tag.head?, digit b=false)
    (hfirst : ∀ k<body.length, ¬delimiter tag <+: (body++delimiter tag).drop k)
  /-- A number, with what the scanner takes into it. -/
  | number (c : UInt8) (w : Text) (hc : digit c=true) (hw : ∀ b∈w, numberByte b=true)
  | parameter (c : UInt8) (w : Text) (hc : digit c=true) (hw : ∀ b∈w, digit b=true)
  | name (p : Part)
  | punct (b : UInt8) (h : punctuation b=true)
  | cast

@[simp]
def Part.letter (c : UInt8) (hc : identStart c=true) : Part := .word c [] hc (by simp)

@[simp]
def Part.f : Part := .letter 0x66 rfl

@[simp]
def Token.opening : Token := .punct openParen rfl

lemma kinds (b : UInt8) :
    (isSpace b=true → nameStart b=false ∧ punctuation b=false ∧ identByte b=false) ∧
    (digit b=true → nameStart b=false ∧ punctuation b=false ∧ isSpace b=false) ∧
    (punctuation b=true → nameStart b=false ∧ isSpace b=false) := by
  have hall : ∀ n : Fin 256,
      (isSpace (.ofFin n)=true → nameStart (.ofFin n)=false ∧ punctuation (.ofFin n)=false ∧
        identByte (.ofFin n)=false) ∧
      (digit (.ofFin n)=true → nameStart (.ofFin n)=false ∧ punctuation (.ofFin n)=false ∧
        isSpace (.ofFin n)=false) ∧
      (punctuation (.ofFin n)=true → nameStart (.ofFin n)=false ∧ isSpace (.ofFin n)=false) := by
    decide +kernel
  exact hall b.toFin

section Spelling

def Part.head : Part → UInt8
  | .word c _ _ _ => c
  | .quoted _ => doubleQuote

lemma Part.nameStart_head (p : Part) : nameStart p.head = true := by
  cases p with
  | word c w hc hw => simp [Part.head,nameStart,hc]
  | quoted value => rfl

def Part.tail : Part → Text
  | .word _ w _ _ => w
  | .quoted value => doubled doubleQuote value++[doubleQuote]

def Token.head : Token → UInt8
  | .space b _ => b
  | .lineComment _ _ _ => hyphen
  | .returnComment _ _ => hyphen
  | .blockComment _ _ => slash
  | .string _ => quote
  | .escaped _ => quote
  | .dollarString _ _ _ _ _ => dollar
  | .number c _ _ _ => c
  | .parameter _ _ _ _ => dollar
  | .name p => p.head
  | .punct b _ => b
  | .cast => colon

def Token.tail : Token → Text
  | .space _ _ => []
  | .lineComment body _ _ => hyphen::body++[newline]
  | .returnComment body _ => hyphen::body++[carriageReturn]
  | .blockComment body _ => star::body
  | .string value => doubled quote value++[quote]
  | .escaped pieces => pieces.flatMap Piece.text++[quote]
  | .dollarString tag body _ _ _ => tag++dollar::body++delimiter tag
  | .number _ w _ _ => w
  | .parameter c w _ _ => c::w
  | .name p => p.tail
  | .punct _ _ => []
  | .cast => [colon]

def Token.text (t : Token) : Text := t.head::t.tail

def spell (ts : List Token) : Text := ts.flatMap Token.text

@[simp] lemma spell_nil : spell [] = [] := rfl

@[simp] lemma spell_cons (t : Token) (ts : List Token) :
    spell (t::ts) = t.head::(t.tail++spell ts) := rfl

lemma spell_append (ts us : List Token) : spell (ts++us) = spell ts++spell us := flatMap_append

end Spelling

/-- What keeps a token apart from its neighbours: the bytes before it, last first, and those behind
it do not make another token of it. -/
def Token.Fits (before rest : Text) : Token → Prop
  | .string _ => escapes before = false ∧ rest.head? ≠ some quote
  | .escaped _ => escapes before = true ∧ rest.head? ≠ some quote
  | .number _ _ _ _ => ∀ b∈rest.head?, identByte b = false
  | .parameter _ _ _ _ => ∀ b∈rest.head?, digit b = false
  | .name (.word _ _ _ _) => ∀ b∈rest.head?, identByte b = false
  | .name (.quoted _) => rest.head? ≠ some doubleQuote
  | .punct b _ => ¬[hyphen,hyphen] <+: b::rest ∧ ¬[slash,star] <+: b::rest ∧ ¬[colon,colon] <+: b::rest
  | _ => True

/-- PostgreSQL lexes the text of the sequence into its tokens. -/
def Lexed (before : Text) : List Token → Prop
  | [] => True
  | t::ts => t.Fits before (spell ts) ∧ Lexed (t.text.reverse++before) ts

section Meaning
variable (toLower : Text → Text)

def Part.value : Part → Text
  | .word c w _ _ => toLower (c::w)
  | .quoted value => value

def chain : List Token → List Part
  | .punct b _::.name p::ts => if b=dot then p::chain ts else []
  | _ => []

def opensCall : List Token → Bool
  | .space _ _::ts => opensCall ts
  | .punct b _::_ => b == openParen
  | _ => false

/-- The calls that a token sequence writes, of the tokens behind the first `skip`: the dotted names
that an opening parenthesis follows. What is read as a type name behind a cast is no call. -/
def callsFrom (typeLength : List Token → ℕ) : ℕ → List Token → List FuncRef
  | _, [] => []
  | skip+1, _::ts => callsFrom typeLength skip ts
  | 0, t::ts => match t with
    | .name p =>
      let parts := chain ts
      (if opensCall (ts.drop (2*parts.length)) then [refOf ((p::parts).map (Part.value toLower))] else []) ++
        callsFrom typeLength (2*parts.length) ts
    | .cast => callsFrom typeLength (typeLength ts) ts
    | _ => callsFrom typeLength 0 ts

end Meaning

section Readers
variable {rest : Text}

lemma afterString_end (escaped : Bool) (h : rest.head? ≠ some quote) :
    afterString escaped (quote::rest) = rest := by
  cases rest with
  | nil => rfl
  | cons d rest =>
    have hd : d≠quote := by simpa using h
    rw [afterString,if_neg (by decide),if_pos rfl,if_neg hd]

lemma afterString_quotes (escaped : Bool) (s : Text) :
    afterString escaped (quote::quote::s) = afterString escaped s := by
  rw [afterString,if_neg (by decide),if_pos rfl,if_pos rfl]

lemma afterString_escape (b : UInt8) (s : Text) :
    afterString true (backslash::b::s) = afterString true s := by
  rw [afterString,if_pos rfl,if_pos rfl]

lemma afterString_byte {escaped : Bool} {b : UInt8} (hquote : b≠quote)
    (hescape : escaped=true → b≠backslash) (s : Text) :
    afterString escaped (b::s) = afterString escaped s := by
  cases s with
  | nil => rfl
  | cons c s =>
    rw [afterString]
    by_cases hb : b=backslash
    · have hplain : ¬escaped=true := fun he => hescape he hb
      rw [if_pos hb,if_neg hplain]
    · rw [if_neg hb,if_neg hquote]

lemma afterString_plain (value : Text) (h : rest.head? ≠ some quote) :
    afterString false (doubled quote value++quote::rest) = rest := by
  induction value with
  | nil => exact afterString_end false h
  | cons b value ih =>
    rw [doubled,flatMap_cons,← doubled]
    by_cases hb : b=quote
    · rw [if_pos hb]
      exact (afterString_quotes false _).trans ih
    · rw [if_neg hb]
      exact (afterString_byte hb (by simp) _).trans ih

lemma afterString_pieces (pieces : List Piece) (h : rest.head? ≠ some quote) :
    afterString true (pieces.flatMap Piece.text++quote::rest) = rest := by
  induction pieces with
  | nil => exact afterString_end true h
  | cons piece pieces ih =>
    rw [flatMap_cons,append_assoc]
    cases piece with
    | byte b hquote hbackslash => exact (afterString_byte hquote (fun _ => hbackslash) _).trans ih
    | escape b => exact (afterString_escape b _).trans ih
    | quotes => exact (afterString_quotes true _).trans ih

lemma dropWhile_passed {p : UInt8 → Bool} {w s : Text} (hw : ∀ b∈w, p b=true)
    (h : ∀ b∈s.head?, p b=false) : (w++s).dropWhile p = s ∧ (w++s).takeWhile p = w := by
  rw [dropWhile_append_of_pos hw,takeWhile_append_of_pos hw]
  cases s with
  | nil => simp
  | cons b s =>
    have hb := h b rfl
    simp [hb]

lemma afterDollar_parameter {c : UInt8} {w : Text} (hc : digit c=true)
    (hw : ∀ b∈w, digit b=true) (h : ∀ b∈rest.head?, digit b=false) :
    afterDollar (c::w++rest) = rest := by
  have hdigits : ∀ b ∈ c::w, digit b = true := by simpa using ⟨hc,hw⟩
  rw [afterDollar,if_pos (by simpa using hc)]
  exact (dropWhile_passed hdigits h).1

lemma index_first {delim body : Text} (hne : delim≠[])
    (h : ∀ k<body.length, ¬delim <+: (body++delim).drop k) :
    Text.index delim (body++(delim++rest)) = some body.length := by
  induction body with
  | nil =>
    obtain ⟨d,t,rfl⟩ := exists_cons_of_ne_nil hne
    rw [nil_append,cons_append,Text.index,if_pos (by simp)]
    rfl
  | cons b body ih =>
    have hhead : ¬delim <+: b::(body++(delim++rest)) := by
      intro hpre
      have hshort : b::body++delim <+: b::(body++(delim++rest)) := ⟨rest,by simp⟩
      exact h 0 (by simp) (prefix_of_prefix_length_le hpre hshort (by simp; omega))
    rw [cons_append,Text.index,if_neg (by simpa using hhead),ih fun k hk => h (k+1) (by simpa using hk)]
    rfl

lemma afterDollar_string {tag body : Text} (htag : ∀ b∈tag, tagByte b=true)
    (hstart : ∀ b∈tag.head?, digit b=false)
    (hfirst : ∀ k<body.length, ¬delimiter tag <+: (body++delimiter tag).drop k) :
    afterDollar (tag++dollar::body++delimiter tag++rest) = rest := by
  have hassoc : tag++dollar::body++delimiter tag++rest =
      tag++dollar::(body++(delimiter tag++rest)) := by simp
  have hpassed := dropWhile_passed (s := dollar::(body++(delimiter tag++rest))) htag (by simp; decide)
  have hdigit : ¬(tag++dollar::(body++(delimiter tag++rest))).head?.any digit = true := by
    cases tag with
    | nil => exact Bool.false_ne_true
    | cons b tag => simpa using hstart b rfl
  rw [hassoc,afterDollar,if_neg hdigit,hpassed.1,hpassed.2,if_pos head?_cons,tail_cons,← delimiter,afterDelim,
    index_first (by simp [delimiter]) hfirst]
  simp

end Readers

section Steps
variable {toLower : Text → Text} {before rest : Text} {c : UInt8} {t : Token} {ts : List Token}

lemma lexStep_plain (hquote : c≠quote) (hline : ¬[hyphen,hyphen] <+: c::rest)
    (hblock : ¬[slash,star] <+: c::rest) (hcast : ¬[colon,colon] <+: c::rest)
    (hident : identByte c=false) (hname : c≠doubleQuote) :
    lexStep toLower false before c rest = (none,rest) := by
  have hpair : ∀ d e : UInt8, ¬[d,e] <+: c::rest → ¬(c=d ∧ rest.head?=some e) := by
    rintro d e hpre ⟨rfl,hhead⟩
    obtain ⟨t,rfl⟩ := head?_eq_some_iff.mp hhead
    exact hpre (by simp)
  simp only [identByte,Bool.or_eq_false_iff] at hident
  obtain ⟨⟨hstart,hdigit⟩,hdollar⟩ := hident
  rw [lexStep,if_neg hquote,if_neg (hpair _ _ hline),if_neg (hpair _ _ hblock),if_neg (by simpa using hdollar),
    if_neg (hpair _ _ hcast),if_neg (by simp [hdigit]),if_neg (by simp [nameStart,hname,hstart])]

/-- A token that is no name and no cast is passed in one step. -/
theorem lexStep_token (hfits : t.Fits before rest) (hname : ∀ p, t ≠ .name p) (hcast : t≠.cast)
    (hreturn : ∀ body h, t ≠ .returnComment body h)
    (hdot : ∀ c w hc hw, t = .number c w hc hw → rest.head? ≠ some dot) :
    lexStep toLower false before t.head (t.tail++rest) = (none,rest) := by
  cases t with
  | space b h =>
    have hplain : b≠quote ∧ b≠hyphen ∧ b≠slash ∧ b≠colon ∧ identByte b = false ∧
        b ≠ doubleQuote := by
      simp only [isSpace,Bool.or_eq_true,beq_iff_eq] at h
      obtain (((rfl | rfl) | rfl) | rfl) | rfl := h <;> decide
    obtain ⟨hquote,hhyphen,hslash,hcolon,hident,hdouble⟩ := hplain
    have hpair : ∀ d e : UInt8, b≠d → ¬[d,e] <+: b::rest := fun d e hd hpre =>
      hd (cons_prefix_cons.mp hpre).1.symm
    exact lexStep_plain hquote (hpair _ _ hhyphen) (hpair _ _ hslash) (hpair _ _ hcolon) hident hdouble
  | lineComment body hnewline hreturn =>
    have hbody : ∀ b ∈ hyphen::hyphen::body, (b == newline) = false := by
      simp only [mem_cons,beq_eq_false_iff_ne]
      rintro b (rfl | rfl | hb)
      · decide
      · decide
      · exact fun heq => hnewline (heq ▸ hb)
    rw [Token.head,Token.tail,cons_append,cons_append,lexStep_lineComment,append_assoc]
    exact congrArg (mk none) (afterFirst_append (m := hyphen::hyphen::body) hbody (by decide))
  | returnComment body h => exact absurd rfl (hreturn body h)
  | blockComment body h =>
    rw [Token.head,Token.tail,cons_append,lexStep_blockComment,afterBlock_opens]
    exact congrArg (mk none) (congrArg (·.getD []) (h.afterBlock rest))
  | string value =>
    rw [Token.head,Token.tail,lexStep_string,hfits.1,append_assoc]
    exact congrArg (mk none) (afterString_plain value hfits.2)
  | escaped pieces =>
    rw [Token.head,Token.tail,lexStep_string,hfits.1,append_assoc]
    exact congrArg (mk none) (afterString_pieces pieces hfits.2)
  | dollarString tag body htag hstart hfirst =>
    rw [Token.head,Token.tail,lexStep_dollar]
    exact congrArg (mk none) (afterDollar_string htag hstart hfirst)
  | number c w hc hw =>
    have hne : ∀ d : UInt8, digit d = false → c≠d := fun d hd heq => by simp [← heq,hc] at hd
    have hnext : ∀ b∈rest.head?, numberByte b = false := by
      intro b hb
      have hbdot : b≠dot := fun heq => hdot c w hc hw rfl (heq ▸ hb)
      simp [numberByte,hfits b hb,hbdot]
    rw [Token.head,Token.tail,lexStep,if_neg (hne _ (by decide)),if_neg (fun hand => hne _ (by decide) hand.1),
      if_neg (fun hand => hne _ (by decide) hand.1),if_neg (hne _ (by decide)),
      if_neg (fun hand => hne _ (by decide) hand.1),if_pos hc,(dropWhile_passed hw hnext).1]
  | parameter c w hc hw =>
    rw [Token.head,Token.tail,lexStep_dollar]
    exact congrArg (mk none) (afterDollar_parameter hc hw hfits)
  | name p => exact absurd rfl (hname p)
  | punct b h =>
    simp only [punctuation,Bool.and_eq_true,Bool.not_eq_true',bne_iff_ne] at h
    exact lexStep_plain h.1.2 hfits.1 hfits.2.1 hfits.2.2 h.1.1.2 h.2
  | cast => exact absurd rfl hcast

lemma quotedPart_doubled (value : Text) (h : rest.head? ≠ some doubleQuote) :
    quotedPart (doubled doubleQuote value++doubleQuote::rest) = (value,rest) := by
  induction value with
  | nil =>
    cases rest with
    | nil => rfl
    | cons d rest =>
      have hd : d≠doubleQuote := by simpa using h
      rw [doubled,flatMap_nil,nil_append,quotedPart,if_pos rfl,if_neg hd]
  | cons b value ih =>
    rw [doubled,flatMap_cons,← doubled,append_assoc]
    by_cases hb : b=doubleQuote
    · rw [if_pos hb,cons_append,cons_append,nil_append,quotedPart,if_pos rfl,if_pos rfl,ih,hb]
    · obtain ⟨d,t,hd⟩ : ∃ d t, doubled doubleQuote value++doubleQuote::rest = d::t := by
        cases doubled doubleQuote value <;> simp
      rw [if_neg hb,singleton_append,hd,quotedPart,if_neg hb,← hd,ih]

lemma namePart_part (p : Part) (h : (Token.name p).Fits before rest) :
    ∃ quoted, namePart toLower false (p.head::(p.tail++rest)) = some (p.value toLower,quoted,rest) := by
  cases p with
  | word c w hc hw =>
    have hne : c≠doubleQuote := fun heq => by rw [heq] at hc; exact absurd hc (by decide)
    have hall : ∀ b ∈ c::w, identByte b = true := by simpa using ⟨identByte_of_identStart hc,hw⟩
    have hpassed := dropWhile_passed hall h
    rw [cons_append] at hpassed
    refine ⟨false,?_⟩
    rw [Part.head,Part.tail,namePart,if_neg hne,if_pos hc,hpassed.1,hpassed.2]
    rfl
  | quoted value =>
    refine ⟨true,?_⟩
    rw [Part.head,Part.tail,namePart,if_pos rfl,append_assoc,singleton_append,quotedPart_doubled value h]
    rfl

lemma Token.eq_name (h : nameStart t.head=true) : ∃ p, t = .name p := by
  cases t with
  | name p => exact ⟨p,rfl⟩
  | space b hb => exact absurd h (by simp [Token.head,(kinds b).1 hb])
  | number c w hc hw => exact absurd h (by simp [Token.head,(kinds c).2.1 hc])
  | punct b hb => exact absurd h (by simp [Token.head,(kinds b).2.2 hb])
  | _ => exact absurd h Bool.false_ne_true

lemma Token.eq_punct {b : UInt8} (h : t.head=b) (hb : punctuation b=true)
    (hopen : b≠hyphen ∧ b≠slash ∧ b≠colon) : t = .punct b hb := by
  subst h
  cases t with
  | punct b hb => rfl
  | space b hb' => exact absurd hb (by simp [Token.head,(kinds b).1 hb'])
  | number c w hc hw => exact absurd hb (by simp [Token.head,(kinds c).2.1 hc])
  | name p => exact absurd p.nameStart_head (by simp [(kinds p.head).2.2 hb])
  | lineComment body hnewline hreturn => exact absurd rfl hopen.1
  | returnComment body h => exact absurd rfl hopen.1
  | blockComment body h => exact absurd rfl hopen.2.1
  | cast => exact absurd rfl hopen.2.2
  | _ => exact absurd hb Bool.false_ne_true

lemma nextPart_spell (ts : List Token) :
    (∃ hb q us, ts = .punct dot hb::.name q::us ∧ nextPart (spell ts)=some (spell (.name q::us))) ∨
      (chain ts=[] ∧ nextPart (spell ts)=none) := by
  cases hnext : nextPart (spell ts) with
  | none =>
    refine .inr ⟨?_,rfl⟩
    rcases ts with _ | ⟨t,_ | ⟨u,us⟩⟩
    · rfl
    · cases t <;> rfl
    · rw [chain.eq_def]
      split
      · next b hb q vs heq =>
        obtain ⟨rfl,rfl,rfl⟩ : t = .punct b hb ∧ u = .name q ∧ us=vs := by simpa using heq
        refine if_neg fun hdot => ?_
        simp [Token.head,Token.tail,nextPart,hdot,q.nameStart_head] at hnext
      · rfl
  | some s' =>
    obtain ⟨hdot,d,tail,rfl,hd⟩ := nextPart_eq_some hnext
    left
    cases ts with
    | nil => cases hdot
    | cons t us =>
      rw [spell_cons] at hdot
      obtain ⟨hhead,htail⟩ := List.cons.inj hdot
      obtain rfl := Token.eq_punct hhead (by decide) (by decide)
      rw [Token.tail,nil_append] at htail
      cases us with
      | nil => cases htail
      | cons u us =>
        obtain ⟨q,rfl⟩ : ∃ q, u = .name q := Token.eq_name (by rwa [(List.cons.inj htail).1])
        exact ⟨by decide,q,us,rfl,by rw [htail]⟩

lemma dotted_chain {before : Text} {p : Part} {ts : List Token} (h : Lexed before (.name p::ts))
    (keyword : Bool) :
    dotted toLower false keyword (spell (.name p::ts)) =
      ((p::chain ts).map (Part.value toLower),false,spell (ts.drop (2*(chain ts).length))) := by
  obtain ⟨quoted,hpart⟩ : ∃ quoted, namePart toLower false (spell (.name p::ts)) =
    some (p.value toLower,quoted,spell ts) := namePart_part p h.1
  rw [dotted_of_some _ _ hpart]
  obtain ⟨hb,q,us,rfl,hnext⟩ | ⟨hchain,hnext⟩ := nextPart_spell ts
  · have hchain : chain (.punct dot hb::.name q::us) = q::chain us := by rw [chain,if_pos rfl]
    rw [hnext,hchain]
    simp only [dotted_chain h.2.2,length_cons,Nat.mul_add,drop_succ_cons,map_cons]
  · rw [hnext,hchain]
    rfl
  termination_by ts.length

variable (toLower) in
lemma lexStep_name {p : Part} (h : Lexed before (.name p::ts)) :
    lexStep toLower false before p.head (p.tail++spell ts) =
      (if ((spell (ts.drop (2*(chain ts).length))).dropWhile isSpace).head?=some openParen then
        some (refOf ((p::chain ts).map (Part.value toLower))) else none,spell (ts.drop (2*(chain ts).length))) := by
  have hstart := p.nameStart_head
  have hdotted : dotted toLower false false (p.head::(p.tail++spell ts)) =
      ((p::chain ts).map (Part.value toLower),false,spell (ts.drop (2*(chain ts).length))) := dotted_chain h false
  have hne : ∀ d : UInt8, nameStart d = false → p.head≠d := fun d hd heq => by simp [← heq,hstart] at hd
  have hdigit : ¬digit p.head = true := fun hd => by simp [((kinds p.head).2.1 hd).1] at hstart
  rw [lexStep,if_neg (hne _ (by decide)),if_neg (fun hand => hne _ (by decide) hand.1),
    if_neg (fun hand => hne _ (by decide) hand.1),if_neg (hne _ (by decide)),
    if_neg (fun hand => hne _ (by decide) hand.1),if_neg hdigit,if_pos hstart,hdotted]
  simp only [true_and]

lemma Token.eq_space (h : isSpace t.head=true) : ∃ hb, t = .space t.head hb := by
  cases t with
  | space b hb => exact ⟨hb,rfl⟩
  | number c w hc hw => exact absurd h (by simp [Token.head,(kinds c).2.1 hc])
  | punct b hb => exact absurd h (by simp [Token.head,(kinds b).2.2 hb])
  | name p => exact absurd p.nameStart_head (by simp [((kinds p.head).1 h).1])
  | _ => exact absurd h Bool.false_ne_true

lemma opensCall_iff (ts : List Token) :
    ((spell ts).dropWhile isSpace).head? = some openParen ↔ opensCall ts = true := by
  induction ts with
  | nil => simp [opensCall]
  | cons t ts ih =>
    rw [spell_cons]
    by_cases hspace : isSpace t.head = true
    · obtain ⟨hb,ht⟩ := Token.eq_space hspace
      have htail : t.tail=[] := by rw [ht]; rfl
      have hopens : opensCall (t::ts) = opensCall ts := by rw [ht,opensCall]
      rw [dropWhile_cons_of_pos hspace,htail,nil_append,hopens]
      exact ih
    · rw [dropWhile_cons_of_neg hspace,head?_cons,Option.some.injEq]
      constructor
      · intro hhead
        rw [Token.eq_punct hhead (by decide) (by decide)]
        rfl
      · intro hopens
        cases t with
        | punct b hb => simpa [opensCall,Token.head] using hopens
        | space b hb => exact absurd hb hspace
        | _ => cases hopens

lemma calls_of_step {s u : Text} {ref : Option FuncRef}
    (hstep : lexStep toLower false before c s=(ref,rest)) (hs : s=u++rest) :
    calls toLower false before (c::s) = ref.toList++calls toLower false ((c::u).reverse++before) rest := by
  have htake : (c::s).take ((c::s).length-rest.length) = c::u := by
    rw [hs,← cons_append,length_append,Nat.add_sub_cancel,take_left]
  rw [calls_cons,hstep,htake]

lemma Lexed.drop {before : Text} (h : Lexed before ts) (n : ℕ) :
    Lexed ((spell (ts.take n)).reverse++before) (ts.drop n) := by
  induction n generalizing before ts with
  | zero => exact h
  | succ n ih =>
    cases ts with
    | nil => exact trivial
    | cons t ts =>
      have htail := ih h.2
      rw [take_succ_cons,drop_succ_cons]
      rwa [spell,flatMap_cons,← spell,reverse_append,append_assoc]

end Steps

section Exactness
variable (toLower : Text → Text) (typeLength : List Token → ℕ)

lemma callsFrom_drop (n : ℕ) (ts : List Token) :
    callsFrom toLower typeLength n ts = callsFrom toLower typeLength 0 (ts.drop n) := by
  induction n generalizing ts with
  | zero => rfl
  | succ n ih =>
    cases ts with
    | nil => rfl
    | cons t ts => exact ih ts

def NewlineEnded (ts : List Token) : Prop := ∀ body h, Token.returnComment body h ∉ ts

def NumbersEnd (ts : List Token) : Prop :=
  ∀ c w hc hw us, Token.number c w hc hw::us <:+ ts → (spell us).head? ≠ some dot

def TypesEnd (ts : List Token) : Prop :=
  ∀ us, Token.cast::us <:+ ts → afterType toLower (spell us) = spell (us.drop (typeLength us))

variable {toLower typeLength}

lemma callsFrom_of_plain {t : Token} (hname : ∀ p, t ≠ .name p) (hcast : t≠.cast) (ts : List Token) :
    callsFrom toLower typeLength 0 (t::ts) = callsFrom toLower typeLength 0 ts := by
  cases t with
  | name p => exact absurd rfl (hname p)
  | cast => exact absurd rfl hcast
  | _ => rfl

lemma spell_take_drop (n : ℕ) (ts : List Token) :
    spell ts = spell (ts.take n)++spell (ts.drop n) := by
  rw [← spell_append,take_append_drop]

/-- The scan finds exactly the calls that the tokens write. -/
theorem calls_spell {before : Text} {ts : List Token} (h : Lexed before ts)
    (hlines : NewlineEnded ts) (hnumbers : NumbersEnd ts) (htypes : TypesEnd toLower typeLength ts) :
    calls toLower false before (spell ts) = callsFrom toLower typeLength 0 ts := by
  induction hlen : ts.length using Nat.strong_induction_on generalizing before ts with
  | _ n ih =>
  cases ts with
  | nil => rw [spell_nil,calls]; rfl
  | cons t ts =>
    -- What is left after a step is again a suffix of the sequence, in its place.
    have hrec : ∀ (n : ℕ) (u : Text), Lexed (u.reverse++before) (ts.drop n) →
        calls toLower false (u.reverse++before) (spell (ts.drop n)) =
          callsFrom toLower typeLength 0 (ts.drop n) := by
      intro n u hlexed
      have hsuffix : ts.drop n <:+ t::ts := (drop_suffix n ts).trans (suffix_cons t ts)
      have hlt : (ts.drop n).length < (t::ts).length := by rw [length_drop,length_cons]; omega
      exact ih _ (hlen ▸ hlt) hlexed (fun body hb hmem => hlines body hb (hsuffix.mem hmem))
        (fun c w hc hw us hus => hnumbers c w hc hw us (hus.trans hsuffix))
        (fun us hus => htypes us (hus.trans hsuffix)) rfl
    rw [spell_cons]
    by_cases hname : ∃ p, t = .name p
    · obtain ⟨p,rfl⟩ := hname
      have hdrop := h.2.drop (2*(chain ts).length)
      rw [← append_assoc,← reverse_append] at hdrop
      have hstep := calls_of_step (lexStep_name toLower h) (u := p.tail++spell (ts.take (2*(chain ts).length)))
        (by rw [append_assoc,← spell_take_drop])
      rw [Token.head,Token.tail,hstep,callsFrom,callsFrom_drop]
      congr 1
      · simp only [opensCall_iff]
        split_ifs <;> rfl
      · exact hrec _ _ hdrop
    by_cases hcast : t=.cast
    · subst hcast
      have htype := htypes ts suffix_rfl
      have hdrop := h.2.drop (typeLength ts)
      rw [← append_assoc,← reverse_append] at hdrop
      have hlex : lexStep toLower false before colon (colon::spell ts) = (none,spell (ts.drop (typeLength ts))) := by
        rw [lexStep_cast,htype]
      have hstep := calls_of_step hlex (u := colon::spell (ts.take (typeLength ts)))
        (by rw [cons_append,← spell_take_drop])
      rw [Token.head,Token.tail,singleton_append,hstep,callsFrom,callsFrom_drop]
      exact hrec _ _ hdrop
    · have hlex : lexStep toLower false before t.head (t.tail++spell ts) = (none,spell ts) :=
        lexStep_token h.1 (fun p hp => hname ⟨p,hp⟩) hcast (fun body hb ht => hlines body hb (by simp [ht]))
          (fun c w hc hw ht => hnumbers c w hc hw ts (by rw [ht]))
      rw [calls_of_step hlex rfl,callsFrom_of_plain (fun p hp => hname ⟨p,hp⟩) hcast]
      exact hrec 0 _ h.2

end Exactness

end Pglens.Explain
