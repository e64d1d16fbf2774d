import ImplFamilies.Grammar.Token

/-!
Digits in bases up to sixteen and the numbers they stand for.
-/

namespace ImplFamilies.Toml

open ImplFamilies.Grammar
open ImplFamilies.Grammar.Rule

def digitValue (c : Char) : Nat :=
  if c.isDigit then c.toNat - '0'.toNat
  else if 'a' ≤ c ∧ c ≤ 'f' then c.toNat - 'a'.toNat + 10
  else c.toNat - 'A'.toNat + 10

def isHexDigit (c : Char) : Bool :=
  c.isDigit || ('a' ≤ c && c ≤ 'f') || ('A' ≤ c && c ≤ 'F')

/-- The number that digits of a base stand for. -/
def inBase (base : Nat) (digits : List Char) : Nat :=
  digits.foldl (fun n c => n * base + digitValue c) 0

/-- So many characters of a class. -/
def exactly (n : Nat) (p : Char → Bool) : Rule (List Char) :=
  match n with
  | 0 => fun c => .ok [] c none
  | n + 1 => ((satisfy p).andThen (exactly n p)).map fun (c, cs) => c :: cs

end ImplFamilies.Toml
