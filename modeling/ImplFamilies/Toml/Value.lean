/-!
Values of a configuration text, and how keys are put into tables. A table may be opened once by a
header, grow through dotted keys only if such keys made it, and not change any more once written
in braces.
-/

namespace ImplFamilies.Toml

/-- How a table came to be. -/
inductive Origin
  /-- Named by a header of its own. -/
  | header
  /-- On the way to a table named by a header. -/
  | implied
  /-- Made by a dotted key. -/
  | dotted
  /-- Written in braces. -/
  | braces
deriving DecidableEq, Repr

inductive Value
  | string (text : String)
  | boolean (value : Bool)
  | integer (value : Int)
  | float (spelling : String)
  | dateTime (spelling : String)
  | array (items : List Value)
  | table (origin : Origin) (entries : List (String × Value))
  /-- Tables that repeated headers of one name made. -/
  | tables (elements : List (List (String × Value)))

abbrev Entries := List (String × Value)

namespace Entries

def get? (key : String) (entries : Entries) : Option Value :=
  entries.lookup key

/-- Gives a key that is there another value. -/
def replace (key : String) (value : Value) (entries : Entries) : Entries :=
  entries.map fun entry => if entry.1 == key then (key, value) else entry

def remove (key : String) (entries : Entries) : Entries :=
  entries.filter fun entry => !(entry.1 == key)

/-- Whether a path may lead into a table; a dotted key enters none that has a header. -/
def mayEnter (dotted : Bool) : Origin → Bool
  | .header => !dotted
  | .implied => true
  | .dotted => true
  | .braces => false

/-- Changes the table at the end of a path. Missing tables are made; of repeated ones the last
counts. -/
def update (dotted : Bool) (change : Origin → Entries → Option Entries) :
    List String → Origin → Entries → Option Entries
  | [], origin, entries => change origin entries
  | key :: path, _, entries =>
    match get? key entries with
    | none =>
      let origin := if dotted then Origin.dotted else Origin.implied
      (update dotted change path origin []).map fun inner =>
        entries ++ [(key, .table origin inner)]
    | some (.table origin inner) =>
      if mayEnter dotted origin then
        (update dotted change path origin inner).map fun inner =>
          replace key (.table origin inner) entries
      else none
    | some (.tables elements) =>
      match elements.getLast? with
      | none => none
      | some last =>
        (update dotted change path .header last).map fun last =>
          replace key (.tables (elements.dropLast ++ [last])) entries
    | some _ => none

/-- Adds a key to a table; under a dotted path the table has to be one that such keys made. -/
def add (path : List String) (key : String) (value : Value) (origin : Origin)
    (entries : Entries) : Option Entries :=
  update true
    (fun origin entries =>
      if (origin == .dotted) == path.isEmpty then none
      else if (get? key entries).isSome then none
      else some (entries ++ [(key, value)]))
    path origin entries

end Entries

end ImplFamilies.Toml
