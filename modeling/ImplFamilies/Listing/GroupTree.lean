import ImplFamilies.Family.Group

/-!
The listing by groups: for each group its lead with the canonical trait and type, then the other
members, and for a text that is no signature the reason.
-/

namespace ImplFamilies.Group

/-- The canonical trait and type; the mark of negation belongs to the trait. -/
def headerOf (form : CanonicalForm) : String :=
  match form.traitRef with
  | some _ => form.header
  | none => form.selfTy.render

def leadLines (lead : Entry CanonicalForm) : List String :=
  ["  * " ++ lead.text, "    = " ++ headerOf lead.content]

def memberLines : Member → List String
  | .parsed entry => ["    " ++ entry.text]
  | .unparsed entry => ["  ? " ++ entry.text, "    " ++ entry.content.message]

def treeLines (place : Nat) (g : Group) : List String :=
  ["group " ++ toString place ++ " (" ++ toString g.members.length ++ " members)"] ++
    g.lead?.toList.flatMap leadLines ++ g.others.flatMap memberLines

/-- All groups in order, numbered from zero. -/
def treeListing (groups : List Group) : List String :=
  groups.zipIdx.flatMap fun (g, place) => g.treeLines place

end ImplFamilies.Group
