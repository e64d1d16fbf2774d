import ImplFamilies.Toml.Blanks
import ImplFamilies.Toml.Digits

/-!
Strings and keys. A string has one line or several, and knows escapes or takes every character as
it stands; a key is bare or quoted, and keys with dots between them lead through tables.
-/

namespace ImplFamilies.Toml

open ImplFamilies.Grammar
open ImplFamilies.Grammar.Rule

/-- The character with a number, unless it is a surrogate or too large. -/
def scalar? (n : Nat) : Except (Option String) Char :=
  if n.isValidChar then .ok (Char.ofNat n) else .error none

def numbered (mark : Char) (length : Nat) : Rule Char :=
  refine (fun digits => scalar? (inBase 16 digits))
    ((literal [mark]).keepRight (exactly length isHexDigit))

def standing (mark meaning : Char) : Rule Char :=
  (literal [mark]).map fun _ => meaning

/-- A backslash and what it stands for. -/
def escape : Rule Char :=
  (literal ['\\']).keepRight <|
    (standing 'b' '\x08').orElse <| (standing 't' '\t').orElse <|
    (standing 'n' '\n').orElse <| (standing 'f' '\x0c').orElse <|
    (standing 'r' '\r').orElse <| (standing '"' '"').orElse <|
    (standing '\\' '\\').orElse <| (numbered 'u' 4).orElse (numbered 'U' 8)

def isPlain (quote c : Char) : Bool :=
  isVisible c && c != quote

def isPlainEscaping (c : Char) : Bool :=
  isPlain '"' c && c != '\\'

def basicString : Rule (List Char) :=
  ((literal ['"']).keepRight (many ((satisfy isPlainEscaping).orElse escape))).keepLeft
    (literal ['"'])

def literalString : Rule (List Char) :=
  ((literal ['\'']).keepRight (run (isPlain '\''))).keepLeft (literal ['\''])

/-- A backslash at the end of a line swallows it and all blanks after it. -/
def lineJoin : Rule (List Char) :=
  ((((literal ['\\']).andThen spaces).andThen newline).andThen
    (many (((satisfy isSpace).map fun _ => ()).orElse newline))).map fun _ => []

def pieceOf (p : Rule Char) : Rule (List Char) :=
  p.map fun c => [c]

def newlinePiece : Rule (List Char) :=
  newline.map fun _ => ['\n']

/-- Not before a quote. -/
def beforeOther (quote : Char) : Rule Unit :=
  (peek (satisfy (· != quote))).map fun _ => ()

/-- One or two quotes inside a text of several lines. -/
def innerQuotes (quote : Char) : Rule (List Char) :=
  (((literal [quote, quote]).keepLeft (beforeOther quote)).map fun _ => [quote, quote]).orElse
    (((literal [quote]).keepLeft (beforeOther quote)).map fun _ => [quote])

/-- Three quotes; up to two more before them still belong to the text. -/
def closingQuotes (quote : Char) : Rule (List Char) :=
  ((literal (List.replicate 5 quote)).map fun _ => [quote, quote]).orElse <|
    ((literal (List.replicate 4 quote)).map fun _ => [quote]).orElse <|
      (literal (List.replicate 3 quote)).map fun _ => []

def longString (quote : Char) (piece : Rule (List Char)) : Rule (List Char) :=
  ((((literal (List.replicate 3 quote)).andThen (optional newline)).keepRight
    (many (piece.orElse (innerQuotes quote)))).andThen (closingQuotes quote)).map
    fun (pieces, last) => pieces.flatten ++ last

def longBasicString : Rule (List Char) :=
  longString '"' <|
    (run₁ isPlainEscaping).orElse <| lineJoin.orElse <| (pieceOf escape).orElse newlinePiece

def longLiteralString : Rule (List Char) :=
  longString '\'' ((run₁ (isPlain '\'')).orElse newlinePiece)

def stringText : Rule String :=
  (longBasicString.orElse <| basicString.orElse <| longLiteralString.orElse literalString).map
    String.ofList

def isBareChar (c : Char) : Bool :=
  c.isAlphanum || c == '_' || c == '-'

def simpleKey : Rule String :=
  (basicString.orElse <| literalString.orElse (run₁ isBareChar)).map String.ofList

/-- More than this many levels of keys or of brackets are refused. -/
def deepest : Nat := 79

/-- Keys with dots between them: those of the tables on the way, and the last. -/
def keyPath : Rule (List String × String) :=
  refine
    (fun keys =>
      match keys.getLast? with
      | some key => if keys.length ≤ deepest then .ok (keys.dropLast, key) else .error none
      | none => .error none)
    (separated₁ ((spaces.keepRight simpleKey).keepLeft spaces) (literal ['.']))

end ImplFamilies.Toml
