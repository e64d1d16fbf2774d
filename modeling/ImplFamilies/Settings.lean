import ImplFamilies.Listing.Page
import ImplFamilies.Toml.Document

/-!
Settings and how a configuration text fills them in. What the text leaves out keeps its default,
and what it says about other things is passed over; a value of the wrong kind spoils the whole.
-/

namespace ImplFamilies

/-- The two shapes of a grouped listing. -/
inductive Format
  | text
  | tree
deriving DecidableEq, Repr

namespace Format

def ofName? : String → Option Format
  | "text" => some .text
  | "tree" => some .tree
  | _ => none

end Format

structure Settings where
  /-- Lines that begin with it are comments; when empty, no line is. -/
  commentMark : String
  format : Format
  captions : Captions
  reportParseErrors : Bool
deriving DecidableEq, Repr

namespace Settings

open Toml

def default : Settings :=
  { commentMark := "#"
    format := .text
    captions :=
      { showLabel := "Show Generated variadic implementations"
        hideLabel := "Hide Generated variadic implementations" }
    reportParseErrors := true }

/-- The fields of a section, by name or in order. -/
inductive Section
  | named (entries : Entries)
  | ordered (items : List Value)

namespace Section

/-- A list fills the fields in their order; a date names none of them. -/
def ofValue? : Value → Option Section
  | .table _ entries => some (.named entries)
  | .array items => some (.ordered items)
  | .tables elements => some (.ordered (elements.map (Value.table .header)))
  | .dateTime _ => some (.named [])
  | _ => none

def ofName? (name : String) (entries : Entries) : Option Section :=
  match Entries.get? name entries with
  | none => some (.named [])
  | some value => ofValue? value

/-- The value of the field with a name and a place in the order. -/
def field (name : String) (place : Nat) : Section → Option Value
  | .named entries => Entries.get? name entries
  | .ordered items => items[place]?

/-- A field read by its kind, or its default when it is left out. -/
def read {α : Type} (s : Section) (name : String) (place : Nat) (kind : Value → Option α)
    (default : α) : Option α :=
  match s.field name place with
  | none => some default
  | some value => kind value

end Section

def text? : Value → Option String
  | .string text => some text
  | _ => none

def switch? : Value → Option Bool
  | .boolean value => some value
  | _ => none

/-- A table or a list without content. -/
def isVoid : Value → Bool
  | .table _ entries => entries.isEmpty
  | .array items => items.isEmpty
  | .tables elements => elements.isEmpty
  | _ => false

/-- A format by its name, or by a table with its name as the only key and nothing under it. -/
def format? : Value → Option Format
  | .string name => Format.ofName? name
  | .table _ [(name, content)] => if isVoid content then Format.ofName? name else none
  | _ => none

def ofEntries? (entries : Entries) : Option Settings := do
  let input ← Section.ofName? "input" entries
  let commentMark ← input.read "comment_prefix" 0 text? default.commentMark
  let output ← Section.ofName? "output" entries
  let format ← output.read "format" 0 format? default.format
  let showLabel ← output.read "show_label" 1 text? default.captions.showLabel
  let hideLabel ← output.read "hide_label" 2 text? default.captions.hideLabel
  let diagnostics ← Section.ofName? "diagnostics" entries
  let reportParseErrors ←
    diagnostics.read "report_parse_errors" 0 switch? default.reportParseErrors
  return ⟨commentMark, format, ⟨showLabel, hideLabel⟩, reportParseErrors⟩

/-- The settings of a configuration text; `none` when it is malformed or does not fit. -/
def ofText? (text : String) : Option Settings :=
  (Document.ofText text).bind ofEntries?

end Settings

end ImplFamilies
