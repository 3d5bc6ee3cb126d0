import Pglens.Advisor.Finding

/-! indexColumns of internal/advisor, over the definitions that pg_get_indexdef prints. The code
counts parentheses and commas as bytes; in a definition they may also stand inside a quoted name or
a string literal. -/
namespace Pglens.Advisor
open Pglens.Lib List Option Text

def lparen : UInt8 := 0x28
def rparen : UInt8 := 0x29
def comma : UInt8 := 0x2c
def quote : UInt8 := 0x22
def apostrophe : UInt8 := 0x27
def dot : UInt8 := 0x2e

section Code

end Code

section Grammar

/-- The bytes that a name may have without quotes. -/
def isPlain (b : UInt8) : Bool :=
  decide (0x61≤b.toNat ∧ b.toNat≤0x7a) || decide (0x30≤b.toNat ∧ b.toNat≤0x39) || b == 0x5f

/-- A name as quote_ident writes it: bare, or in quotes that are doubled inside. -/
structure Name where
  value : Text
  quoted : Bool
  bare : quoted=false → ∀ b∈value, isPlain b = true

/-- The text of a quoted name or literal. -/
def quotedText (q : UInt8) (value : Text) : Text :=
  q::(value.flatMap fun b => if b=q then [q,q] else [b])++[q]

def Name.print (n : Name) : Text := if n.quoted then quotedText quote n.value else n.value

/-- The tokens of a key entry, as far as parentheses, commas and quotes matter. -/
inductive Token
  | byte (b : UInt8)
  | ident (value : Text)
  | literal (value : Text)
  | opening
  | closing
  | separator

def Token.print : Token → Text
  | .byte b => [b]
  | .ident value => quotedText quote value
  | .literal value => quotedText apostrophe value
  | .opening => [lparen]
  | .closing => [rparen]
  | .separator => [comma]

/-- The depth behind some tokens; `none` if a parenthesis is closed that was not opened, or if a
comma stands outside of parentheses. -/
def nesting : ℕ → List Token → Option ℕ
  | depth, [] => some depth
  | depth, .opening::ts => nesting (depth+1) ts
  | 0, .closing::_ => none
  | depth+1, .closing::ts => nesting depth ts
  | 0, .separator::_ => none
  | depth+1, .separator::ts => nesting (depth+1) ts
  | depth, _::ts => nesting depth ts

def delimiters : Text := [lparen,rparen,comma,quote,apostrophe]

/-- A key entry of an index: a column or an expression, with its operator class, collation and
order. -/
structure Entry where
  tokens : List Token
  nested : nesting 0 tokens = some 0
  bytes : ∀ b, .byte b ∈ tokens → b ∉ delimiters
  tight : Text.Tight (tokens.flatMap Token.print)

def Entry.print (e : Entry) : Text := e.tokens.flatMap Token.print

/-- An index definition. `rest` is what follows the key entries: included columns, storage
parameters and the predicate. -/
structure Definition where
  unique : Bool
  name : Name
  only : Bool
  schema : Name
  table : Name
  method : Name
  entries : List Entry
  rest : Text
  keyed : entries≠[]

def Definition.head (d : Definition) : Text :=
  utf8 "CREATE "++(if d.unique then utf8 "UNIQUE " else [])++utf8 "INDEX "++d.name.print ++
    utf8 " ON "++(if d.only then utf8 "ONLY " else [])++d.schema.print++dot::d.table.print ++
    utf8 " USING "++d.method.print++utf8 " "

/-- The key entries with commas between them. -/
def body : List Text → Text
  | [] => []
  | [e] => e
  | e::es => e++comma::0x20::body es

def Definition.keys (d : Definition) : List Text := d.entries.map Entry.print

/-- pg_get_indexdef. -/
def Definition.print (d : Definition) : Text := d.head++lparen::(body d.keys++rparen::d.rest)

end Grammar

section Scan

/-- The depth behind a text as the loops count it, in which quotes mean nothing. -/
def shut : ℕ → Text → Option ℕ
  | depth, [] => some depth
  | depth, b::s =>
    if b=lparen then shut (depth+1) s
    else if b=rparen then match depth with
      | 0 => none
      | depth+1 => shut depth s
    else if b=comma ∧ depth=0 then none
    else shut depth s

/-- The text up to the parenthesis that closes one that is open around it. -/
def inside : ℕ → Text → Option Text
  | _, [] => none
  | depth, b::s =>
    if b=lparen then (inside (depth+1) s).map (b::·)
    else if b=rparen then match depth with
      | 0 => some []
      | depth+1 => (inside depth s).map (b::·)
    else (inside depth s).map (b::·)

variable {depth : ℕ} {s t e lead : Text} {c : UInt8}

end Scan

section Exact

lemma mem_quotedText {q b : UInt8} {value : Text} (h : b ∈ quotedText q value) :
    b = q ∨ b∈value := by
  simp only [quotedText,cons_append,mem_cons,mem_append,mem_flatMap,not_mem_nil,or_false] at h
  obtain h | ⟨c,hc,hb⟩ | h := h
  · exact .inl h
  · split_ifs at hb with hcq
    · exact .inl (by simpa using hb)
    · rw [mem_singleton.mp hb]
      exact .inr hc
  · exact .inl h

/-- An entry whose quoted names and literals have neither a parenthesis nor a comma. -/
def Entry.Unmarked (e : Entry) : Prop :=
  ∀ v, (.ident v ∈ e.tokens ∨ .literal v ∈ e.tokens) → lparen ∉ v ∧ rparen ∉ v ∧ comma ∉ v

lemma shut_of_unmarked {s : Text} (h : ∀ b∈s, b≠lparen ∧ b≠rparen ∧ b≠comma) (depth : ℕ)
    (t : Text) : shut depth (s++t) = shut depth t := by
  induction s with
  | nil => rfl
  | cons b s ih =>
    obtain ⟨hl,hr,hc⟩ := h b (by simp)
    rw [cons_append]
    conv_lhs => unfold shut
    rw [if_neg hl,if_neg hr,if_neg fun hcomma => hc hcomma.1]
    exact ih fun c hcs => h c (by simp [hcs])

lemma shut_print {ts : List Token} (hbytes : ∀ b, .byte b ∈ ts → b ∉ delimiters)
    (hquoted : ∀ v, (.ident v ∈ ts ∨ .literal v ∈ ts) → lparen ∉ v ∧ rparen ∉ v ∧ comma ∉ v)
    (depth : ℕ) : shut depth (ts.flatMap Token.print) = nesting depth ts := by
  induction ts generalizing depth with
  | nil => rfl
  | cons tok ts ih =>
    have hrest := ih (fun b hb => hbytes b (by simp [hb]))
      (fun v hv => hquoted v (hv.imp (mem_cons_of_mem _) (mem_cons_of_mem _)))
    have hmarks : ∀ q v, q ∉ [lparen,rparen,comma] → (lparen ∉ v ∧ rparen ∉ v ∧ comma ∉ v) →
        ∀ b ∈ quotedText q v, b≠lparen ∧ b≠rparen ∧ b≠comma := by
      intro q v hq ⟨hl,hr,hc⟩ b hb
      obtain rfl | hb := mem_quotedText hb
      · simpa using hq
      · exact ⟨fun heq => hl (heq ▸ hb),fun heq => hr (heq ▸ hb),fun heq => hc (heq ▸ hb)⟩
    rw [flatMap_cons]
    cases tok with
    | byte b =>
      have hb := hbytes b (by simp)
      rw [Token.print,shut_of_unmarked (s := [b]) (by simp_all [delimiters]),hrest]
      rfl
    | ident v =>
      rw [Token.print,shut_of_unmarked (hmarks quote v (by decide) (hquoted v (by simp))),hrest]
      rfl
    | literal v =>
      rw [Token.print,shut_of_unmarked (hmarks apostrophe v (by decide) (hquoted v (by simp))),hrest]
      rfl
    | opening => exact hrest (depth+1)
    | closing =>
      cases depth with
      | zero => rfl
      | succ depth => exact hrest depth
    | separator =>
      cases depth with
      | zero => rfl
      | succ depth => exact hrest (depth+1)

lemma Entry.Unmarked.shut {e : Entry} (h : e.Unmarked) : shut 0 e.print = some 0 :=
  (shut_print e.bytes h 0).trans e.nested

end Exact

end Pglens.Advisor
