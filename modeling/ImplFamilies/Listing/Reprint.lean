import ImplFamilies.Grammar.SyntaxError
import ImplFamilies.Signature.Printer
import ImplFamilies.Text.Lines

/-!
Reprinting signatures one after the other in canonical form. A text that is no signature yields a
report that points into it; reports count all texts, so they tell which of them they are about.
-/

namespace ImplFamilies

/-- Where a text is no signature; the origin names the text for a reader. -/
structure ReadingReport where
  text : String
  error : SyntaxError
  origin : String
deriving DecidableEq, Repr

namespace ReadingReport

def label : String := "parsing stopped here"

end ReadingReport

inductive Reprint
  | canonical (text : String)
  | failed (report : ReadingReport)

namespace Reprint

def canonical? : Reprint → Option String
  | .canonical text => some text
  | .failed _ => none

/-- The origin of the text at a place counted from zero. -/
def originOf (source : String) (place : Nat) : String :=
  source ++ " (signature " ++ toString (place + 1) ++ ")"

def ofText (source : String) (place : Nat) (text : String) : Reprint :=
  match Signature.ofText text with
  | .ok signature => .canonical signature.render
  | .error error => .failed ⟨text, error, originOf source place⟩

def ofTexts (source : String) (texts : List String) : List Reprint :=
  texts.zipIdx.map fun (text, place) => ofText source place text

end Reprint

end ImplFamilies
