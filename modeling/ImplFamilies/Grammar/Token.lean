import ImplFamilies.Grammar.Rule

/-!
Tokens: punctuation, keywords, identifiers, lifetimes and array lengths. White space may stand
before and after each of them; a keyword must not run on into a longer word.
-/

namespace ImplFamilies.Grammar

def isWordChar (c : Char) : Bool :=
  c.isAlphanum || c == '_'

def isWordStart (c : Char) : Bool :=
  c.isAlpha || c == '_'

namespace Rule

variable {α : Type}

def token (text : String) : Rule Unit :=
  padded (labelled text (literal text.toList))

/-- A whole word: a letter or an underscore, then letters, digits and underscores. -/
def word : Rule (List Char) :=
  ((satisfy isWordStart).andThen (run isWordChar)).map fun (c, cs) => c :: cs

def keyword (text : String) : Rule Unit :=
  padded <| labelled text <| refine
    (fun cs => if cs = text.toList then .ok () else .error none) word

/-- A name; digits may open it, and three dots may stand in its place. -/
def identifier : Rule (List Char) :=
  padded <| labelled "identifier" <|
    (run₁ isWordChar).orElse ((literal "...".toList).map fun _ => "...".toList)

def lifetime : Rule String :=
  padded <| labelled "lifetime" <|
    ((literal ['\'']).keepRight (run₁ isWordChar)).map fun cs => String.ofList ('\'' :: cs)

/-- The number that decimal digits stand for. -/
def numeral (digits : List Char) : Nat :=
  Nat.ofDigitChars 10 digits 0

def lengthOverflow : String :=
  "invalid array length: number too large to fit in target type"

/-- An array length; it must fit in sixty-four bits. -/
def arrayLength : Rule UInt64 :=
  padded <| labelled "integer" <| refine
    (fun cs =>
      if numeral cs < UInt64.size then .ok (UInt64.ofNat (numeral cs))
      else .error (some lengthOverflow))
    (run₁ Char.isDigit)

def between (opening closing : String) (p : Rule α) : Rule α :=
  ((token opening).keepRight p).keepLeft (token closing)

end Rule

end ImplFamilies.Grammar
