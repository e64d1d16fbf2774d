import ImplFamilies.Text.Blank

/-!
Lines of a text that hold a signature: one a line, white space at the ends cut off, blank lines
and comments left out.
-/

namespace ImplFamilies.Text

/-- The pieces between line feeds. -/
def splitLines : List Char → List (List Char)
  | [] => [[]]
  | c :: cs =>
    if c = '\n' then [] :: splitLines cs
    else
      match splitLines cs with
      | [] => [[c]]
      | line :: lines => (c :: line) :: lines

/-- The line opens with the mark of comments; an empty mark means that there are none. -/
def isComment (mark line : List Char) : Bool :=
  !mark.isEmpty && mark.isPrefixOf line

def signatureLines (contents mark : String) : List String :=
  (((splitLines contents.toList).map trim).filter fun line =>
    !line.isEmpty && !isComment mark.toList line).map String.ofList

end ImplFamilies.Text
