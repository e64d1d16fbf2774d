/-!
Why a rule of the grammar failed, and which of two failures is told. The one that read further
wins; of two that read equally far, the expectations are put together.
-/

namespace ImplFamilies.Grammar

inductive Expectation
  | char (c : Char)
  | endOfInput
deriving DecidableEq, Repr

/-- The name of what was being read; two different names leave none. -/
inductive Label
  | unset
  | named (name : String)
  | mixed
deriving DecidableEq, Repr

namespace Label

def join : Label → Label → Label
  | .unset, l => l
  | l, .unset => l
  | .named a, .named b => if a = b then .named a else .mixed
  | _, _ => .mixed

/-- A name is put where there is none yet. -/
def orNamed (name : String) : Label → Label
  | .named other => .named other
  | _ => .named name

end Label

/-- All offsets count characters. -/
structure Failure where
  /-- How far the rule had read when it failed. -/
  reach : Nat
  start : Nat
  stop : Nat
  expected : List Expectation
  /-- `none` at the end of the input, and where a whole word was refused. -/
  found : Option Char
  label : Label
  remark : Option String
deriving DecidableEq, Repr

namespace Failure

def joinExpected (a b : List Expectation) : List Expectation :=
  a ++ b.filter (fun e => !a.contains e)

theorem mem_joinExpected {a b : List Expectation} {e : Expectation} :
    e ∈ joinExpected a b ↔ e ∈ a ∨ e ∈ b := by
  by_cases h : e ∈ a <;> simp [joinExpected, h]

/-- The failure that read further; of two equal ones the first, and what the second expected. -/
def furthest (a b : Failure) : Failure :=
  if b.reach < a.reach then a
  else if a.reach < b.reach then b
  else { a with expected := joinExpected a.expected b.expected, label := a.label.join b.label }

theorem reach_furthest (a b : Failure) : (furthest a b).reach = max a.reach b.reach := by
  unfold furthest
  split
  · omega
  · split
    · omega
    · simp only
      omega

def withLabel (name : String) (f : Failure) : Failure :=
  { f with label := f.label.orNamed name }

/-- The later of two failures that rules met on their way to success. -/
def laterHint : Option Failure → Option Failure → Option Failure
  | none, b => b
  | a, none => a
  | some a, some b => some (furthest b a)

end Failure

end ImplFamilies.Grammar
