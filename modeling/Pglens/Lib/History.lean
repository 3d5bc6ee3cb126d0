/-! A history is a list kept newest first, so what an entry is told by is the list behind it. -/
namespace Pglens.Lib

def AtEach {α : Type} (P : α → List α → Prop) : List α → Prop
  | [] => True
  | a::older => P a older ∧ AtEach P older

end Pglens.Lib
