import ImplFamilies.Toml.Digits

/-!
Dates, times and offsets from universal time. A date exists in the calendar; a leap second is
allowed.
-/

namespace ImplFamilies.Toml

open ImplFamilies.Grammar
open ImplFamilies.Grammar.Rule

/-- So many digits, with a value between two bounds. -/
def fieldOf (length low high : Nat) : Rule Nat :=
  refine
    (fun digits =>
      if low ≤ inBase 10 digits ∧ inBase 10 digits ≤ high then .ok (inBase 10 digits)
      else .error none)
    (exactly length Char.isDigit)

def daysIn (year month : Nat) : Nat :=
  if month = 2 then
    if year % 4 = 0 ∧ (year % 100 ≠ 0 ∨ year % 400 = 0) then 29 else 28
  else if month = 4 ∨ month = 6 ∨ month = 9 ∨ month = 11 then 30
  else 31

def date : Rule Unit :=
  refine
    (fun ((year, month), day) => if day ≤ daysIn year month then .ok () else .error none)
    ((((fieldOf 4 0 9999).keepLeft (literal ['-'])).andThen
      ((fieldOf 2 1 12).keepLeft (literal ['-']))).andThen (fieldOf 2 1 31))

def time : Rule Unit :=
  ((((((fieldOf 2 0 23).andThen (literal [':'])).andThen (fieldOf 2 0 59)).andThen
    (literal [':'])).andThen (fieldOf 2 0 60)).andThen
    (optional ((literal ['.']).andThen (run₁ Char.isDigit)))).map fun _ => ()

def zone : Rule Unit :=
  ((satisfy fun c => c == 'Z' || c == 'z').map fun _ => ()).orElse <|
    ((((satisfy fun c => c == '+' || c == '-').andThen (fieldOf 2 0 23)).andThen
      (literal [':'])).andThen (fieldOf 2 0 59)).map fun _ => ()

def dateTime : Rule Unit :=
  ((date.andThen (optional
    (((satisfy fun c => c == 'T' || c == 't' || c == ' ').andThen time).andThen
      (optional zone)))).map fun _ => ()).orElse time

end ImplFamilies.Toml
