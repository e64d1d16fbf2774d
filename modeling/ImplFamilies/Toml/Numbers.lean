import ImplFamilies.Toml.Digits

/-!
Integers and floating-point numbers. An integer fits in sixty-four bits with its sign; a number
too large to be finite has to be written as infinity.
-/

namespace ImplFamilies.Toml

open ImplFamilies.Grammar
open ImplFamilies.Grammar.Rule

/-- Digits of a class; a single underscore may stand between two of them. -/
def digitGroups (p : Char → Bool) : Rule (List Char) :=
  ((satisfy p).andThen
    (many ((satisfy p).orElse ((literal ['_']).keepRight (satisfy p))))).map
    fun (c, cs) => c :: cs

/-- A sign, if any. -/
def sign : Rule (Option Char) :=
  optional (satisfy fun c => c == '+' || c == '-')

/-- A decimal number without leading zeros. -/
def wholeDigits : Rule (List Char) :=
  ((satisfy fun c => '1' ≤ c && c ≤ '9').andThen
    (many ((satisfy Char.isDigit).orElse ((literal ['_']).keepRight (satisfy Char.isDigit))))).map
      (fun (c, cs) => c :: cs) |>.orElse ((satisfy Char.isDigit).map fun c => [c])

/-- A number has to fit in sixty-four bits with a sign. -/
def fitting (n : Int) : Except (Option String) Int :=
  if -9223372036854775808 ≤ n ∧ n ≤ 9223372036854775807 then .ok n else .error none

def basedInteger (opening : Char) (base : Nat) (p : Char → Bool) : Rule Int :=
  refine (fun digits => fitting (inBase base digits))
    ((literal ['0', opening]).keepRight (digitGroups p))

def decimalInteger : Rule Int :=
  refine
    (fun (mark, digits) =>
      fitting (if mark = some '-' then -(inBase 10 digits : Int) else inBase 10 digits))
    (sign.andThen wholeDigits)

def integer : Rule Int :=
  (basedInteger 'x' 16 isHexDigit).orElse <|
    (basedInteger 'o' 8 fun c => '0' ≤ c && c ≤ '7').orElse <|
      (basedInteger 'b' 2 fun c => c == '0' || c == '1').orElse decimalInteger

/-- The parts of a number with a point or an exponent. -/
structure FloatParts where
  negative : Bool
  whole : List Char
  fraction : List Char
  exponent : Int

namespace FloatParts

/-- From here on a number is rounded to infinity. -/
def infinityBound : Nat := Nat.pow 2 1024 - Nat.pow 2 970

/-- The number is too large to be finite. Lengths are compared first, so no large power is taken. -/
def overflows (f : FloatParts) : Bool :=
  let digits := f.whole ++ f.fraction
  let shift := f.exponent - f.fraction.length
  let size := shift + (digits.dropWhile (· == '0')).length
  if inBase 10 digits = 0 then false
  else if size ≤ 308 then false
  else if 310 < size then true
  else if 0 ≤ shift then decide (infinityBound ≤ inBase 10 digits * Nat.pow 10 shift.toNat)
  else decide (infinityBound * Nat.pow 10 (-shift).toNat ≤ inBase 10 digits)

end FloatParts

def exponent : Rule Int :=
  (((satisfy fun c => c == 'e' || c == 'E').keepRight sign).andThen
    (digitGroups Char.isDigit)).map fun (mark, digits) =>
      if mark = some '-' then -(inBase 10 digits : Int) else inBase 10 digits

def fractionDigits : Rule (List Char) :=
  (literal ['.']).keepRight (digitGroups Char.isDigit)

/-- Infinity is written as a word; digits must stay below it. -/
def finiteFloat : Rule Unit :=
  refine
    (fun ((mark, whole), (fraction, exponent)) =>
      let f : FloatParts := ⟨mark == some '-', whole, fraction, exponent⟩
      if f.overflows && !f.negative then .error none else .ok ())
    ((sign.andThen wholeDigits).andThen
      ((exponent.map fun e => ([], e)).orElse
        ((fractionDigits.andThen (optional exponent)).map fun (f, e) => (f, e.getD 0))))

def specialFloat : Rule Unit :=
  (sign.andThen ((literal ['i', 'n', 'f']).orElse (literal ['n', 'a', 'n']))).map fun _ => ()

def float : Rule Unit :=
  finiteFloat.orElse specialFloat

end ImplFamilies.Toml
