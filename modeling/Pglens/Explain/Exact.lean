import Pglens.Explain.Tokens

/-! Over texts without casts, scanCalls returns the dotted names that the tokens of the text follow
by an opening parenthesis; over every text it returns. -/
namespace Pglens.Explain
open Pglens.Lib

def wordDigit (b : UInt8) : Bool := identByte b && b < 0x80 && b != dollar

def plainDigit (b : UInt8) : Bool := digit b || b == 0x5f

/-- What follows the first digit of a number: digits, also of another base and with an exponent, then
perhaps a fraction with an exponent of its own. -/
def Numeral (w : Text) : Prop :=
  ∃ v f, w = v++f ∧ (∀ b∈v, wordDigit b=true) ∧
    (f=[] ∨ ∃ ds ex, f=dot::ds++ex ∧ (∀ b∈ds, plainDigit b=true) ∧
      (ex=[] ∨ ∃ e xs, ex=e::xs ∧ (e=0x45 ∨ e=0x65) ∧ ∀ b∈xs, plainDigit b=true))

/-- The tokens other than casts, with proper numbers and comments that a newline ends. -/
def Token.Plain : Token → Prop
  | .cast => False
  | .returnComment _ _ => False
  | .number _ w _ _ => Numeral w
  | _ => True

def callsOf (toLower : Text → Text) (ts : List Token) : List FuncRef := callsFrom toLower (fun _ => 0) 0 ts

/-- The scan returns exactly the calls that are written, each once and in the order of first appearance,
where no number is directly followed by a dot. On every text and in both modes it returns. -/
theorem scanCalls_exact (toLower : Text → Text) :
    (∀ ts, Lexed [] ts → (∀ t∈ts, t.Plain) → NumbersEnd ts →
      scanCalls toLower (spell ts) false=some (callsOf toLower ts).eraseDups) ∧
    ∀ text deparsed, ∃ refs, scanCalls toLower text deparsed = some refs := by
  constructor
  · intro ts hlexed hplain hnumbers
    have hlines : NewlineEnded ts := fun body h hmem => hplain _ hmem
    have htypes : TypesEnd toLower (fun _ => 0) ts := fun us hus =>
      (hplain .cast (hus.mem (by simp))).elim
    rw [scanCalls_eq,calls_spell hlexed hlines hnumbers htypes,callsOf]
  · intro text deparsed
    exact ⟨_,scanCalls_eq toLower deparsed text⟩

/-- The tokens of x.f ('g('), with a call in the literal. -/
def callWithLiteral : List Token :=
  [.name (.letter 0x78 rfl),.punct dot rfl,.name .f,.space blank rfl,
    .opening,.string [0x67,openParen],.punct closeParen rfl]

theorem scanCalls_with_literal : scanCalls id (spell callWithLiteral) false = some [⟨[0x78],[0x66]⟩] := by
  refine (scanCalls_exact id).1 callWithLiteral ?_ ?_ ?_
  · simp only [callWithLiteral,Part.letter,Part.f,Token.opening,Lexed,Token.Fits]
    decide +kernel
  · simp [callWithLiteral,Token.Plain]
  · intro c w hc hw us hus
    have hmem : Token.number c w hc hw ∈ callWithLiteral := hus.mem (by simp)
    simp [callWithLiteral] at hmem

def dotsBeforeCall : List Token :=
  [.number 0x31 [] rfl (by simp),.punct dot rfl,.punct dot rfl,.name .f,
    .opening,.number 0x32 [] rfl (by simp),.punct closeParen rfl]

/-- A number takes the dots and the name behind it with it, so that the call is missed. -/
theorem scanCalls_misses_call : Lexed [] dotsBeforeCall ∧ (∀ t∈dotsBeforeCall, t.Plain) ∧
    callsOf id dotsBeforeCall = [⟨[],[0x66]⟩] ∧ scanCalls id (spell dotsBeforeCall) false = some [] := by
  have hnumeral : Numeral [] := ⟨[],[],rfl,by simp,.inl rfl⟩
  refine ⟨?_,?_,by decide,by decide +kernel⟩
  · simp only [dotsBeforeCall,Part.letter,Part.f,Token.opening,Lexed,Token.Fits]
    decide +kernel
  · simp [dotsBeforeCall,Token.Plain,hnumeral]

end Pglens.Explain
