import ImplFamilies.Family.Group

/-!
Grouping texts as they arrive. A signature joins the oldest family whose lead is related to it by
inclusion in either direction, and opens a family of its own when there is none.
-/

namespace ImplFamilies

/-- A text whose where clause does not fit its parameters. -/
structure Refusal where
  text : String
  violation : Violation
deriving DecidableEq, Repr

namespace Refusal

def message (r : Refusal) : String :=
  "cannot normalize signature " ++ Text.quoteText r.text

def code (_ : Refusal) : String :=
  "implfold_group::normalize"

end Refusal

/-- What a text turns out to be. -/
inductive Reading
  | parsed (form : CanonicalForm)
  | unparsed (error : SyntaxError)
  | refused (violation : Violation)

namespace Reading

def ofText (text : String) : Reading :=
  match Signature.ofText text with
  | .error error => .unparsed error
  | .ok signature =>
    match CanonicalForm.ofSignature signature with
    | .ok form => .parsed form
    | .error violation => .refused violation

end Reading

structure Clustering where
  groups : List Group
  /-- How many texts came so far, refused ones too. -/
  arrivals : Nat

namespace Clustering

def empty : Clustering := ⟨[], 0⟩

/-- The place of the first group that accepts a form; the number of groups when none does. -/
def slot (form : CanonicalForm) (groups : List Group) : Nat :=
  groups.findIdx (Group.accepts form)

/-- Puts a signature into the first group that accepts it, or into a new one at the end. -/
def place (entry : Entry CanonicalForm) : List Group → List Group
  | [] => [.family [] entry []]
  | g :: gs => if g.accepts entry.content then g.join entry :: gs else g :: place entry gs

/-- One more text; the answer is the place of its group. -/
def push (text : String) (c : Clustering) : Clustering × Except Refusal Nat :=
  match Reading.ofText text with
  | .unparsed error =>
    (⟨c.groups ++ [.unparsed ⟨c.arrivals, text, error⟩], c.arrivals + 1⟩, .ok c.groups.length)
  | .refused violation => (⟨c.groups, c.arrivals + 1⟩, .error ⟨text, violation⟩)
  | .parsed form =>
    (⟨place ⟨c.arrivals, text, form⟩ c.groups, c.arrivals + 1⟩, .ok (slot form c.groups))

/-- Pushes all texts, whatever becomes of each. -/
def pushAll (texts : List String) (c : Clustering) : Clustering :=
  texts.foldl (fun c text => (c.push text).1) c

/-- Pushes texts up to the first that is refused. -/
def pushUntilRefused (c : Clustering) : List String → Except Refusal Clustering
  | [] => .ok c
  | text :: texts =>
    match c.push text with
    | (c, .ok _) => pushUntilRefused c texts
    | (_, .error refusal) => .error refusal

end Clustering

/-- Groups a list of texts; one that is refused spoils the whole. -/
def Group.ofTexts (texts : List String) : Except Refusal (List Group) :=
  (Clustering.pushUntilRefused Clustering.empty texts).map Clustering.groups

end ImplFamilies
