import Pglens.Lib.Text
import Mathlib.Logic.Function.Basic

/-! scanCalls of internal/agent/explain_guard.go and the readers it steps with, by index as in the
source. A read or a slice out of range is `none`, and so is a loop that does not end. What
strings.ToLower does to a name is a parameter. -/
namespace Pglens.Explain
open Pglens.Lib Text

section Bytes

def quote : UInt8 := 0x27
def doubleQuote : UInt8 := 0x22
def backslash : UInt8 := 0x5c
def dollar : UInt8 := 0x24
def dot : UInt8 := 0x2e
def comma : UInt8 := 0x2c
def colon : UInt8 := 0x3a
def hyphen : UInt8 := 0x2d
def slash : UInt8 := 0x2f
def star : UInt8 := 0x2a
def openParen : UInt8 := 0x28
def closeParen : UInt8 := 0x29
def openBracket : UInt8 := 0x5b
def closeBracket : UInt8 := 0x5d
def blank : UInt8 := 0x20
def newline : UInt8 := 0x0a
def carriageReturn : UInt8 := 0x0d

def digit (c : UInt8) : Bool := 0x30 ≤ c && c ≤ 0x39

def identStart (c : UInt8) : Bool :=
  c == 0x5f || (0x61 ≤ c && c ≤ 0x7a) || (0x41 ≤ c && c ≤ 0x5a) || 0x80 ≤ c

def identByte (c : UInt8) : Bool := identStart c || digit c || c == dollar

def isSpace (c : UInt8) : Bool := c == blank || c == 0x09 || c == newline || c == carriageReturn || c == 0x0c

/-- A byte of the tag of a dollar-quoted string. -/
def tagByte (c : UInt8) : Bool := c != dollar && identByte c

def numberByte (c : UInt8) : Bool := identByte c || c == dot

def nameStart (c : UInt8) : Bool := c == doubleQuote || identStart c

end Bytes

def skipStringLiteral (text : Text) (i : ℕ) (escaped : Bool) : Option ℕ :=
  loop (fun j => if j<text.length then do
      let c ← text[j]?
      if c=backslash then some (.again (if escaped then j+2 else j+1))
      else if c=quote then
        if ← within text (j+1) (· == quote) then some (.again (j+2)) else some (.leave (j+1))
      else some (.again (j+1))
    else some (.leave text.length)) (text.length+1) (i+1)

def skipLineComment (text : Text) (i : ℕ) : Option ℕ := do
  match indexByte (← sliceFrom text i) newline with
  | some stop => some (i+stop+1)
  | none => some text.length

def skipBlockComment (text : Text) (i : ℕ) : Option ℕ :=
  loop (fun (j,depth) => if j+1<text.length then do
      let c ← text[j]?
      let d ← text[j+1]?
      if c=slash ∧ d=star then some (.again (j+2,depth+1))
      else if c=star ∧ d=slash then
        if depth-1=0 then some (.leave (j+2)) else some (.again (j+2,depth-1))
      else some (.again (j+1,depth))
    else some (.leave text.length)) (text.length+1) (i,(0 : ℤ))

/-- A parameter or a dollar-quoted string. -/
def skipDollar (text : Text) (i : ℕ) : Option ℕ := do
  if ← within text (i+1) digit then skipWhile text digit (i+1)
  else
    let j ← skipWhile text tagByte (i+1)
    if ← within text j (· == dollar) then
      let tag ← slice text i (j+1)
      match index tag (← sliceFrom text (j+1)) with
      | some stop => some (j+1+stop+tag.length)
      | none => some text.length
    else some (i+1)

/-- What readNamePart returns: the part, whether it was quoted, where it ends and whether there
was one. -/
structure NamePart where
  part : Text
  quoted : Bool
  stop : ℕ
  ok : Bool

structure FuncRef where
  schema : Text
  name : Text
  deriving DecidableEq

/-- The loop of readNamePart over a quoted part. -/
def readQuoted (text : Text) (i : ℕ) : Option NamePart :=
  loop (fun (j,b) => if j<text.length then do
      let d ← text[j]?
      if d=doubleQuote then
        if ← within text (j+1) (· == doubleQuote) then some (.again (j+2,b++[doubleQuote]))
        else some (.leave ⟨b,true,j+1,true⟩)
      else some (.again (j+1,b++[d]))
    else some (.leave ⟨b,true,j,true⟩)) (text.length+1) (i+1,[])

section Names
variable (toLower : Text → Text)

def readNamePart (text : Text) (i : ℕ) (deparsed : Bool) : Option NamePart :=
  if text.length ≤ i then some ⟨[],false,i,false⟩
  else do
    let c ← text[i]?
    if c=doubleQuote then readQuoted text i
    else if identStart c then
      let j ← skipWhile text identByte i
      let part ← slice text i j
      some ⟨if deparsed then part else toLower part,false,j,true⟩
    else some ⟨[],false,i,false⟩

/-- The parts of a dotted name. -/
structure Dotted where
  parts : List Text
  keyword : Bool
  stop : ℕ

/-- The loop of readQualifiedName. -/
def readDotted (text : Text) (i : ℕ) (deparsed : Bool) : Option Dotted :=
  loop (fun (i,parts,keyword) => do
    let p ← readNamePart toLower text i deparsed
    if p.ok then
      let keyword := deparsed && !p.quoted && p.part != toLower p.part
      if (← within text p.stop (· == dot)) && (← within text (p.stop+1) nameStart) then
        some (.again (p.stop+1,parts++[p.part],keyword))
      else some (.leave ⟨parts++[p.part],keyword,p.stop⟩)
    else some (.leave ⟨parts,keyword,i⟩)) (text.length+1) (i,[],false)

def refOf : List Text → FuncRef
  | [] => ⟨[],[]⟩
  | [name] => ⟨[],name⟩
  | [schema,name] => ⟨schema,name⟩
  | _::part::parts => refOf (part::parts)

def readQualifiedName (text : Text) (i : ℕ) (deparsed : Bool) : Option (FuncRef × Bool × ℕ) := do
  let d ← readDotted toLower text i deparsed
  some (refOf d.parts,if d.parts=[] then true else d.keyword,d.stop)

def typeNameWords : List Text :=
  ["day","hour","minute","month","precision","second","time","to","varying","with","without","year",
    "zone"].map ascii

def digits : Text := ascii "0123456789"

def modifierBytes : Text := digits++[comma,blank]

/-- Skips (n) or (n,m). -/
def skipTypeModifier (text : Text) (i : ℕ) : Option ℕ := do
  if ← within text i (· == openParen) then
    match indexByte (← sliceFrom text i) closeParen with
    | none => some i
    | some stop =>
      if trim (← slice text (i+1) (i+stop)) modifierBytes ≠ [] then some i
      else some (i+stop+1)
  else some i

/-- The bounds of an array type. The result says whether the type name ends there. -/
def skipArrayBounds (text : Text) (i : ℕ) : Option (Bool × ℕ) :=
  loop (fun i => if i+1<text.length then do
      let c ← text[i]?
      if c=openBracket then
        match indexByte (← sliceFrom text i) closeBracket with
        | none => some (.leave (true,i))
        | some stop =>
          if trim (← slice text (i+1) (i+stop)) digits ≠ [] then some (.leave (true,i))
          else some (.again (i+stop+1))
      else some (.leave (false,i))
    else some (.leave (false,i))) (text.length+1) i

/-- One round of skipTypeName over the words of the type name. -/
def typeRound (text : Text) (i : ℕ) : Option (Round ℕ ℕ) := do
  let i ← skipTypeModifier text i
  let (ends,i) ← skipArrayBounds text i
  if ends then some (.leave i)
  else if ← within text i (· == blank) then
    let k ← skipWhile text identByte (i+1)
    if k = i+1 then some (.leave i)
    else if typeNameWords.contains (toLower (← slice text (i+1) k)) then some (.again k)
    else some (.leave i)
  else some (.leave i)

def skipTypeName (text : Text) (i : ℕ) : Option ℕ := do
  let i ← skipWhile text isSpace i
  let (_,_,i) ← readQualifiedName toLower text i false
  loop (typeRound toLower text) (text.length+1) i

/-- The state of scanCalls: the index, the calls found and the set of them. -/
structure Scan where
  i : ℕ
  refs : List FuncRef
  seen : FuncRef → Bool

/-- Whether an apostrophe at `i` opens a string with backslash escapes. -/
def escapesAt (text : Text) (i : ℕ) : Option Bool :=
  if 0 < i then do
    let e ← text[i-1]?
    if e=0x45 ∨ e=0x65 then
      if i<2 then some true else (text[i-2]?).map fun b => !identByte b
    else some false
  else some false

/-- The case of a name: the calls after it, and where it ends. -/
def scanName (text : Text) (deparsed : Bool) (s : Scan) : Option Scan := do
  let (ref,keyword,stop) ← readQualifiedName toLower text s.i deparsed
  let j ← skipWhile text isSpace stop
  if keyword || !(← within text j (· == openParen)) then some { s with i := stop }
  else if s.seen ref then some { s with i := stop }
  else some { i := stop, refs := s.refs++[ref], seen := Function.update s.seen ref true }

/-- One round of scanCalls. -/
def scanRound (text : Text) (deparsed : Bool) (s : Scan) : Option (Round (List FuncRef) Scan) :=
  if s.i<text.length then do
    let c ← text[s.i]?
    let moved (i : Option ℕ) := i.map fun i => Round.again { s with i := i }
    if c=quote then
      let escaped ← escapesAt text s.i
      moved (skipStringLiteral text s.i escaped)
    else if c == hyphen && (← within text (s.i+1) (· == hyphen)) then
      moved (skipLineComment text s.i)
    else if c == slash && (← within text (s.i+1) (· == star)) then
      moved (skipBlockComment text s.i)
    else if c=dollar then moved (skipDollar text s.i)
    else if c == colon && (← within text (s.i+1) (· == colon)) then
      moved (skipTypeName toLower text (s.i+2))
    else if digit c then moved (skipWhile text numberByte s.i)
    else if nameStart c then (scanName toLower text deparsed s).map Round.again
    else moved (some (s.i+1))
  else some (.leave s.refs)

/-- The calls written in a text, in order of first appearance. -/
def scanCalls (text : Text) (deparsed : Bool) : Option (List FuncRef) :=
  loop (scanRound toLower text deparsed) (text.length+1) ⟨0,[],fun _ => false⟩

end Names

end Pglens.Explain
