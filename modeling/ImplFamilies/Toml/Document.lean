import ImplFamilies.Toml.Dates
import ImplFamilies.Toml.Numbers
import ImplFamilies.Toml.Strings
import ImplFamilies.Toml.Value

/-!
Reading a configuration text as a whole: values, lines with a key, headers, and the table that
they build together. Either every line fits or there is no table at all.
-/

namespace ImplFamilies.Toml

open ImplFamilies.Grammar
open ImplFamilies.Grammar.Rule

/-- The characters that a rule reads. -/
def spelling (p : Rule Unit) : Rule String := fun c =>
  match p c with
  | .ok _ last hint => .ok (String.ofList (c.rest.take (last.offset - c.offset))) last hint
  | .fail e => .fail e

def boolean : Rule Bool :=
  ((literal "true".toList).map fun _ => true).orElse ((literal "false".toList).map fun _ => false)

section

variable (value : Rule Value)

def arrayValue : Rule Value :=
  ((((literal ['[']).keepRight
    (list ((gaps.keepRight value).keepLeft gaps) (literal [',']))).keepLeft gaps).keepLeft
    (literal [']'])).map Value.array

def keyValue : Rule ((List String × String) × Value) :=
  (keyPath.keepLeft (literal ['='])).andThen (spaces.keepRight value)

/-- The entries of a table in braces, put in one after the other. -/
def bracesTable (pairs : List ((List String × String) × Value)) : Option Entries :=
  pairs.foldl
    (fun entries pair =>
      entries.bind fun entries =>
        Entries.add pair.1.1 pair.1.2 pair.2 .braces entries)
    (some [])

def inlineTable : Rule Value :=
  refine
    (fun pairs =>
      match bracesTable (pairs.getD []) with
      | some entries => .ok (.table .braces entries)
      | none => .error none)
    ((((literal ['\x7b']).keepRight
      (optional (separated₁ ((keyValue value).keepLeft spaces) (literal [','])))).keepLeft
      spaces).keepLeft (literal ['\x7d']))

end

def scalarValue : Rule Value :=
  (stringText.map Value.string).orElse <|
    ((spelling dateTime).map Value.dateTime).orElse <|
    ((spelling float).map Value.float).orElse <|
    (integer.map Value.integer).orElse <|
    boolean.map Value.boolean

/-- Values with brackets nested up to a depth. -/
def valueAt : Nat → Cursor → Outcome Value
  | 0, c => scalarValue c
  | depth + 1, c =>
      (scalarValue.orElse <| (arrayValue (valueAt depth)).orElse (inlineTable (valueAt depth))) c

/-- A line that says something. -/
inductive Statement
  | key (path : List String) (key : String) (value : Value)
  | header (path : List String) (key : String)
  | repeatedHeader (path : List String) (key : String)

def statement : Rule (Option Statement) :=
  ((comment.andThen (newline.orElse endOfInput)).map fun _ => none).orElse <|
    (newline.map fun _ => none).orElse <|
    (((((literal ['[', '[']).keepRight keyPath).keepLeft (literal [']', ']'])).keepLeft
      lineRest).map fun (path, key) => some (.repeatedHeader path key)).orElse <|
    (((((literal ['[']).keepRight keyPath).keepLeft (literal [']'])).keepLeft
      lineRest).map fun (path, key) => some (.header path key)).orElse <|
    ((keyValue (valueAt deepest)).keepLeft lineRest).map
      fun ((path, key), value) => some (.key path key value)

/-- A mark of byte order may stand in front. -/
def statements : Rule (List Statement) :=
  ((((optional (literal ['\uFEFF'])).andThen spaces).keepRight
    (many (statement.keepLeft spaces))).keepLeft endOfInput).map fun lines => lines.filterMap id

/-- What has been read so far. -/
structure Document where
  root : Entries
  /-- The path of the latest header; keys below it go into its table. -/
  current : List String

namespace Document

def empty : Document := ⟨[], []⟩

/-- Changes the table at the end of a path of headers. -/
def updateAt (d : Document) (path : List String) (change : Origin → Entries → Option Entries) :
    Option Entries :=
  Entries.update false change path .header d.root

/-- Opens a table; one that headers below it have implied may get its own header once. -/
def openTable (key : String) (entries : Entries) : Option Entries :=
  match Entries.get? key entries with
  | none => some (entries ++ [(key, .table .header [])])
  | some (.table .implied inner) => some (Entries.replace key (.table .header inner) entries)
  | some _ => none

/-- Opens one more of several tables with the same name. -/
def openNext (key : String) (entries : Entries) : Option Entries :=
  match Entries.get? key entries with
  | none => some (entries ++ [(key, .tables [[]])])
  | some (.tables elements) => some (Entries.replace key (.tables (elements ++ [[]])) entries)
  | some _ => none

def step (d : Document) : Statement → Option Document
  | .key path key value =>
    (d.updateAt d.current (Entries.add path key value)).map fun root => ⟨root, d.current⟩
  | .header path key =>
    (d.updateAt path fun _ => openTable key).map fun root => ⟨root, path ++ [key]⟩
  | .repeatedHeader path key =>
    (d.updateAt path fun _ => openNext key).map fun root => ⟨root, path ++ [key]⟩

def run (d : Document) : List Statement → Option Document
  | [] => some d
  | s :: rest => (d.step s).bind fun d => run d rest

/-- The entries of a whole text; `none` when a line is malformed or contradicts another. -/
def ofText (text : String) : Option Entries :=
  match statements (Cursor.ofText text.toList) with
  | .ok lines _ _ => (run empty lines).map Document.root
  | .fail _ => none

end Document

end ImplFamilies.Toml
