import ImplFamilies.Grammar.Signatures
import ImplFamilies.Sequence.SortedSet
import ImplFamilies.Text.Position
import ImplFamilies.Text.Quoted

/-!
The one error of a text that does not match the grammar, and reading a text as a whole. The error
names the place where reading stopped, everything that could have stood there, and what stood
there instead.
-/

namespace ImplFamilies

open Grammar

structure SyntaxError where
  position : Position
  /-- In order and without repetitions. -/
  expected : List String
  /-- `none` at the end of the input, and where a whole word was refused. -/
  found : Option Char
  /-- Bytes from the position to the end of what was refused. -/
  length : Nat
deriving DecidableEq, Repr

namespace SyntaxError

def describe : Expectation → String
  | .char c => Text.quoteChar c
  | .endOfInput => "end of input"

def labelTexts : Label → List String
  | .named name => [name]
  | _ => []

/-- Characters and the end of the input first, then a label and a remark, all in one order. -/
def expectations (f : Failure) : List String :=
  Sequence.sortedSet compare (f.expected.map describe ++ labelTexts f.label ++ f.remark.toList)

def ofFailure (source : List Char) (f : Failure) : SyntaxError :=
  let position := Position.ofIndex source f.start
  { position
    expected := expectations f
    found := f.found
    length := (Position.ofIndex source f.stop).offset - position.offset }

def foundText (e : SyntaxError) : Option String :=
  e.found.map Text.quoteChar

def message (e : SyntaxError) : String :=
  "Syntax error at " ++ e.position.render ++ ": expected " ++
    (if e.expected.isEmpty then "something else" else ", ".intercalate e.expected) ++
    ", found " ++ e.foundText.getD "end of input"

def code (_ : SyntaxError) : String :=
  "implfold_syntax::parse_error"

def ofOutcome {α : Type} (source : List Char) : Outcome α → Except SyntaxError α
  | .ok value _ _ => .ok value
  | .fail f => .error (ofFailure source f)

end SyntaxError

/-- Reads a whole text as a signature. -/
def Signature.ofText (text : String) : Except SyntaxError Signature :=
  SyntaxError.ofOutcome text.toList (readSignature text.toList)

/-- Reads a whole text as a type. -/
def Ty.ofText (text : String) : Except SyntaxError Ty :=
  SyntaxError.ofOutcome text.toList (readType text.toList)

end ImplFamilies
