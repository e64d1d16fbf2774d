import ImplFamilies.Grammar.Failure
import ImplFamilies.Text.Blank

/-!
Rules that read a text from a cursor on. A rule that succeeds also tells the furthest failure it
met on its way, its hint; hints decide what a later failure says and never whether a rule
succeeds.
-/

namespace ImplFamilies.Grammar

structure Cursor where
  /-- Characters already read. -/
  offset : Nat
  rest : List Char
deriving DecidableEq, Repr

inductive Outcome (α : Type)
  | ok (value : α) (cursor : Cursor) (hint : Option Failure)
  | fail (failure : Failure)

abbrev Rule (α : Type) := Cursor → Outcome α

namespace Outcome

/-- What was read and what is left, without the hint. -/
def result? {α : Type} : Outcome α → Option (α × Cursor)
  | .ok value cursor _ => some (value, cursor)
  | .fail _ => none

end Outcome

namespace Cursor

def ofText (source : List Char) : Cursor :=
  ⟨0, source⟩

/-- The failure of a rule that cannot go on at this place. -/
def unexpected (c : Cursor) (expected : List Expectation) : Failure :=
  { reach := c.offset
    start := c.offset
    stop := if c.rest.isEmpty then c.offset else c.offset + 1
    expected
    found := c.rest.head?
    label := .unset
    remark := none }

/-- The cursor after the longest run of characters of a class. -/
def skipWhile (p : Char → Bool) (c : Cursor) : Cursor :=
  ⟨c.offset + (c.rest.takeWhile p).length, c.rest.dropWhile p⟩

end Cursor

namespace Rule

variable {α β γ : Type}

def stop : Rule α := fun c => .fail (c.unexpected [])

def map (f : α → β) (p : Rule α) : Rule β := fun c =>
  match p c with
  | .ok a c₁ hint => .ok (f a) c₁ hint
  | .fail e => .fail e

def andThen (p : Rule α) (q : Rule β) : Rule (α × β) := fun c =>
  match p c with
  | .fail e => .fail e
  | .ok a c₁ hint =>
    match q c₁ with
    | .ok b c₂ hint₂ => .ok (a, b) c₂ (Failure.laterHint hint hint₂)
    | .fail e =>
      match hint with
      | some h => .fail (Failure.furthest e h)
      | none => .fail e

def keepLeft (p : Rule α) (q : Rule β) : Rule α :=
  (p.andThen q).map Prod.fst

def keepRight (p : Rule α) (q : Rule β) : Rule β :=
  (p.andThen q).map Prod.snd

/-- Commits to the first rule that succeeds and forgets why the rules before it failed. -/
def orElse (p q : Rule α) : Rule α := fun c =>
  match p c with
  | .ok a c₁ hint => .ok a c₁ hint
  | .fail e =>
    match q c with
    | .ok a c₁ hint => .ok a c₁ hint
    | .fail e₂ => .fail (Failure.furthest e₂ e)

def optional (p : Rule α) : Rule (Option α) := fun c =>
  match p c with
  | .ok a c₁ hint => .ok (some a) c₁ hint
  | .fail e => .ok none c (some e)

/-- Reads ahead and stays in place. -/
def peek (p : Rule α) : Rule α := fun c =>
  match p c with
  | .ok a _ hint => .ok a c hint
  | .fail e => .fail e

def labelled (name : String) (p : Rule α) : Rule α := fun c =>
  match p c with
  | .ok a c₁ hint => .ok a c₁ (hint.map (Failure.withLabel name))
  | .fail e => .fail (e.withLabel name)

/-- White space is skipped before the rule and, when it succeeds, after it. -/
def padded (p : Rule α) : Rule α := fun c =>
  match p (c.skipWhile Text.isBlank) with
  | .ok a c₁ hint => .ok a (c₁.skipWhile Text.isBlank) hint
  | .fail e => .fail e

/-- A value may be refused with a remark; the failure then spans everything that was read. -/
def refine (f : α → Except (Option String) β) (p : Rule α) : Rule β := fun c =>
  match p c with
  | .fail e => .fail e
  | .ok a c₁ hint =>
    match f a with
    | .ok b => .ok b c₁ hint
    | .error remark =>
      .fail { reach := c₁.offset, start := c.offset, stop := c₁.offset, expected := [],
              found := none, label := .unset, remark }

def satisfy (p : Char → Bool) : Rule Char := fun c =>
  match c.rest with
  | x :: rest => if p x then .ok x ⟨c.offset + 1, rest⟩ none else .fail (c.unexpected [])
  | [] => .fail (c.unexpected [])

/-- The longest run of characters of a class, empty or not. -/
def run (p : Char → Bool) : Rule (List Char) := fun c =>
  let after := c.skipWhile p
  .ok (c.rest.takeWhile p) after (some (after.unexpected []))

/-- The longest run of characters of a class, at least one. -/
def run₁ (p : Char → Bool) : Rule (List Char) := fun c =>
  match c.rest.takeWhile p with
  | [] => .fail (c.unexpected [])
  | _ => run p c

/-- Exactly the given characters. -/
def literal : List Char → Rule Unit
  | [], c => .ok () c none
  | x :: xs, c =>
    match c.rest with
    | y :: rest =>
      if x = y then literal xs ⟨c.offset + 1, rest⟩ else .fail (c.unexpected [.char x])
    | [] => .fail (c.unexpected [.char x])

def endOfInput : Rule Unit := fun c =>
  match c.rest with
  | [] => .ok () c none
  | _ => .fail (c.unexpected [.endOfInput])

/-- Repeats a rule until it fails, at most `n` times. -/
def manyUpTo (p : Rule α) : Nat → Cursor → Option Failure → List α × Cursor × Option Failure
  | 0, c, hint => ([], c, hint)
  | n + 1, c, hint =>
    match p c with
    | .fail e => ([], c, Failure.laterHint hint (some e))
    | .ok a c₁ hint₁ =>
      match manyUpTo p n c₁ (Failure.laterHint hint hint₁) with
      | (as, last) => (a :: as, last)

/-- Repeats a rule until it fails; one that always reads something cannot succeed more often. -/
def many (p : Rule α) : Rule (List α) := fun c =>
  match manyUpTo p (c.rest.length + 1) c none with
  | (as, last, hint) => .ok as last hint

/-- Items read so far, the cursor after the last of them, and the failure that ended the list. -/
structure Series (α : Type) where
  items : List α
  cursor : Cursor
  hint : Option Failure
  ended : Failure

/-- Pairs of separator and item, at most `n`; a separator without an item after it is not read. -/
def pairsUpTo (item : Rule α) (separator : Rule β) : Nat → Cursor → Option Failure → Series α
  | 0, c, hint => ⟨[], c, hint, c.unexpected []⟩
  | n + 1, c, hint =>
    match separator c with
    | .fail e => ⟨[], c, hint, e⟩
    | .ok _ c₁ hint₁ =>
      match item c₁ with
      | .fail e => ⟨[], c, Failure.laterHint hint hint₁, e⟩
      | .ok a c₂ hint₂ =>
        match pairsUpTo item separator n c₂
            (Failure.laterHint (Failure.laterHint hint hint₁) hint₂) with
        | ⟨as, last, hint, ended⟩ => ⟨a :: as, last, hint, ended⟩

def series (item : Rule α) (separator : Rule β) (c : Cursor) : Series α :=
  match item c with
  | .fail e => ⟨[], c, none, e⟩
  | .ok a c₁ hint =>
    match pairsUpTo item separator (c₁.rest.length + 1) c₁ hint with
    | ⟨as, last, hint, ended⟩ => ⟨a :: as, last, hint, ended⟩

/-- At least one item, a separator between neighbours. -/
def separated₁ (item : Rule α) (separator : Rule β) : Rule (List α) := fun c =>
  match series item separator c with
  | ⟨[], _, _, ended⟩ => .fail ended
  | ⟨a :: as, last, hint, ended⟩ => .ok (a :: as) last (Failure.laterHint hint (some ended))

/-- The outcome of a list that may have one more separator behind its last item. -/
def closeList (separator : Rule β) (items : List α) (last : Cursor) (hint : Option Failure)
    (ended : Failure) : Outcome (List α) :=
  match separator last with
  | .ok _ c₁ hint₁ =>
    .ok items c₁ (Failure.laterHint (Failure.laterHint hint hint₁) (some ended))
  | .fail e => .ok items last (Failure.laterHint (Failure.laterHint hint (some e)) (some ended))

/-- Items with a separator between neighbours, and one more behind the last if it is there. -/
def list (item : Rule α) (separator : Rule β) : Rule (List α) := fun c =>
  match series item separator c with
  | ⟨[], last, _, ended⟩ => .ok [] last (some ended)
  | ⟨a :: as, last, hint, ended⟩ => closeList separator (a :: as) last hint ended

/-- As `list`, with at least one item. -/
def list₁ (item : Rule α) (separator : Rule β) : Rule (List α) := fun c =>
  match series item separator c with
  | ⟨[], _, _, ended⟩ => .fail ended
  | ⟨a :: as, last, hint, ended⟩ => closeList separator (a :: as) last hint ended

end Rule

end ImplFamilies.Grammar
