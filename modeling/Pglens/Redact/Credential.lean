import Pglens.Explain.Scanner

/-! MayHoldCredential of internal/redact/redact.go, with the decodings it reads a text under. A text
is the list of its bytes, and the loops of the decodings stand on the part still to be read. -/
namespace Pglens.Redact
open Pglens.Lib Pglens.Explain Text

section Readings

/-- The value of a hex digit. The source returns -1 for any other byte. -/
def hexValue (c : UInt8) : Option ℕ :=
  if 0x30≤c ∧ c≤0x39 then some (c-0x30).toNat
  else if 0x61≤c ∧ c≤0x66 then some ((c-0x61).toNat+10)
  else if 0x41≤c ∧ c≤0x46 then some ((c-0x41).toNat+10)
  else none

def digitValue (base : ℕ) (c : UInt8) : Option ℕ := (hexValue c).filter (· < base)

/-- The loop of readDigits, with the number of digits it may still read. -/
def readDigitsFrom (base : ℕ) : ℕ → ℕ → ℕ → Text → ℕ × ℕ
  | 0, value, n, _ => (value,n)
  | _+1, value, n, [] => (value,n)
  | limit+1, value, n, c::s => match digitValue base c with
    | some d => readDigitsFrom base limit (value*base+d) (n+1) s
    | none => (value,n)

def readDigits (s : Text) (limit base : ℕ) : ℕ × ℕ := readDigitsFrom base limit 0 0 s

/-- The bytes of a rune in UTF-8, as strings.Builder.WriteRune writes them: the replacement
character for what is no rune. -/
def runeBytes (v : ℕ) : Text :=
  if v≤0x7f then [v.toUInt8]
  else if v≤0x7ff then [(0xc0+v/64).toUInt8,(0x80+v%64).toUInt8]
  else if v > 0x10ffff ∨ (0xd800≤v ∧ v≤0xdfff) then [0xef,0xbf,0xbd]
  else if v≤0xffff then [(0xe0+v/4096).toUInt8,(0x80+v/64%64).toUInt8,(0x80+v%64).toUInt8]
  else [(0xf0+v/262144).toUInt8,(0x80+v/4096%64).toUInt8,(0x80+v/64%64).toUInt8,(0x80+v%64).toUInt8]

def validRune (v : ℕ) : Bool := v < 0xd800 || (0xdfff<v && v ≤ 0x10ffff)

def plus : UInt8 := 0x2b
def letterX : UInt8 := 0x78
def letterU : UInt8 := 0x75
def capitalU : UInt8 := 0x55

/-- The letters that stand for a control character behind a backslash. -/
def controlLetters : Text := ascii "bfnrt"

def octalDigit (c : UInt8) : Bool := 0x30 ≤ c && c ≤ 0x37

/-- A round of a decoding on the byte `c` with `rest` behind it: what it writes, and how many bytes of
`rest` it reads. What a backslash means is the decoding's own. -/
def round (escape : UInt8 → Text → Text × ℕ) (c : UInt8) : Text → Text × ℕ
  | [] => ([c],0)
  | d::s => if c≠backslash then ([c],0) else escape d s

/-- The escape of an escape string that `c` starts. -/
def escapeOf (c : UInt8) (s : Text) : Text × ℕ :=
  if c∈controlLetters then ([blank],1)
  else if octalDigit c then
    let (v,n) := readDigits (c::s) 3 8
    ([v.toUInt8],n)
  else if c=letterX ∧ s.head?.any (fun d => (hexValue d).isSome) then
    let (v,n) := readDigits s 2 16
    ([v.toUInt8],n+1)
  else if c=letterU ∨ c=capitalU then
    let width := if c=capitalU then 8 else 4
    let (v,n) := readDigits s width 16
    if n≠width then ([c],1) else (runeBytes v,n+1)
  else ([c],1)

def decodeEscapeString (text : Text) : Text :=
  if backslash∈text then rewrite (round escapeOf) text else text

/-- The escape of a Unicode string that `c` starts. -/
def unicodeOf (c : UInt8) (s : Text) : Text × ℕ :=
  let (width,skip) := if c=plus then (6,1) else (4,0)
  let (v,n) := readDigits ((c::s).drop skip) width 16
  if n=width ∧ validRune v then (runeBytes v,skip+n) else ([c],1)

def decodeUnicodeString (text : Text) : Text :=
  if backslash∈text then rewrite (round unicodeOf) text else text

end Readings

section Signs

def lower (c : UInt8) : Bool := 0x61 ≤ c && c ≤ 0x7a
def upper (c : UInt8) : Bool := 0x41 ≤ c && c ≤ 0x5a

/-- What keepBytes keeps of one byte. -/
def keepByte (uri : Bool) (c : UInt8) : Option UInt8 :=
  if lower c || digit c then some c
  else if upper c then some (c+0x61-0x41)
  else if uri && (c == colon || c == slash) then some c
  else none

def keepBytes (text : Text) (uri : Bool) : Text := text.filterMap (keepByte uri)

def credentialWords : List Text := ["password","passwd","secret","uescape"].map ascii

/-- The texts that the pattern connectionURI matches. -/
def connectionURI : List Text := ["postgres:/","postgresql:/"].map ascii

/-- The body of MayHoldCredential's loop over the readings. -/
def showsSign (text : Text) : Bool :=
  credentialWords.any (containsText (keepBytes text false)) ||
    connectionURI.any (containsText (keepBytes text true))

def readings : List (Text → Text) := [id,decodeEscapeString,decodeUnicodeString]

def mayHoldCredential (query : Text) : Bool := readings.any fun reading => showsSign (reading query)

end Signs

end Pglens.Redact
