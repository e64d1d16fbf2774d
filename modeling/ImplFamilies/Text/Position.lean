/-!
Places in a source text. A place is reached by walking over the characters before it: each moves
the offset by its bytes, a line feed starts a line, any other character moves one column on.
-/

namespace ImplFamilies

/-- A place in a text: bytes before it, and its line and column counted from one. -/
structure Position where
  offset : Nat
  line : Nat
  column : Nat
deriving DecidableEq, Repr

namespace Position

def start : Position := ⟨0, 1, 1⟩

/-- The place after one more character. -/
def next (p : Position) (c : Char) : Position :=
  if c = '\n' then ⟨p.offset + c.utf8Size, p.line + 1, 1⟩
  else ⟨p.offset + c.utf8Size, p.line, p.column + 1⟩

/-- The place right after the given characters. -/
def after (cs : List Char) : Position :=
  cs.foldl next start

/-- The place of a character, or of the end when there are fewer. -/
def ofIndex (source : List Char) (index : Nat) : Position :=
  after (source.take index)

@[simp] theorem after_nil : after [] = start := rfl

@[simp] theorem after_concat (cs : List Char) (c : Char) :
    after (cs ++ [c]) = (after cs).next c := by
  simp [after]

/-- Line and column with a colon between them. -/
def render (p : Position) : String :=
  toString p.line ++ ":" ++ toString p.column

end Position

end ImplFamilies
