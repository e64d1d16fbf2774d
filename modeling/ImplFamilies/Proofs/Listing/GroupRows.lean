import ImplFamilies.Listing.GroupTree
import Mathlib.Data.List.Flatten
import Mathlib.Data.List.Perm.Basic

/-!
What the rows of the listing by groups are about. A group shows each of its members in one row: its
lead in the second, the others in those below, and what is no signature with a mark.
-/

namespace ImplFamilies

def Member.line (m : Member) : Nat × String :=
  (m.index, m.text)

/-- A row and what it is about; lines have their places. -/
inductive TreeRow
  | heading (place count : Nat)
  | lead (line : Nat × String)
  | canonical (form : CanonicalForm)
  | plain (line : Nat × String)
  | unparsed (line : Nat × String)
  | reason (error : SyntaxError)

namespace TreeRow

def text : TreeRow → String
  | heading place count => "group " ++ toString place ++ " (" ++ toString count ++ " members)"
  | lead line => "  * " ++ line.2
  | canonical form => "    = " ++ Group.headerOf form
  | plain line => "    " ++ line.2
  | unparsed line => "  ? " ++ line.2
  | reason error => "    " ++ error.message

def line? : TreeRow → Option (Nat × String)
  | lead line | plain line | unparsed line => some line
  | heading .. | canonical _ | reason _ => none

end TreeRow

namespace Group

def leadRows (lead : Entry CanonicalForm) : List TreeRow :=
  [.lead (Member.parsed lead).line, .canonical lead.content]

def memberRows : Member → List TreeRow
  | .parsed entry => [.plain (Member.parsed entry).line]
  | .unparsed entry => [.unparsed (Member.unparsed entry).line, .reason entry.content]

def rows (place : Nat) (g : Group) : List TreeRow :=
  .heading place g.members.length ::
    (g.lead?.toList.flatMap leadRows ++ g.others.flatMap memberRows)

def treeRows (groups : List Group) : List TreeRow :=
  groups.zipIdx.flatMap fun (g, place) => g.rows place

theorem text_leadRows (lead : Entry CanonicalForm) :
    (leadRows lead).map TreeRow.text = leadLines lead := rfl

theorem text_memberRows (m : Member) : (memberRows m).map TreeRow.text = memberLines m := by
  cases m <;> rfl

theorem treeLines_eq_rows (place : Nat) (g : Group) :
    g.treeLines place = (g.rows place).map TreeRow.text := by
  simp only [rows, List.map_cons, List.map_append, List.map_flatMap, text_leadRows,
    text_memberRows]
  rfl

theorem treeListing_eq_rows (groups : List Group) :
    treeListing groups = (treeRows groups).map TreeRow.text := by
  simp only [treeListing, treeRows, List.map_flatMap, treeLines_eq_rows]

theorem lines_memberRows (members : List Member) :
    (members.flatMap memberRows).filterMap TreeRow.line? = members.map Member.line := by
  induction members with
  | nil => rfl
  | cons m members ih =>
    rw [List.flatMap_cons, List.filterMap_append, ih]
    cases m <;> rfl

/-- A group shows its members, the lead first. -/
theorem lines_rows_perm (place : Nat) (g : Group) :
    ((g.rows place).filterMap TreeRow.line?).Perm (g.members.map Member.line) := by
  rw [rows, List.filterMap_cons_none rfl, List.filterMap_append, lines_memberRows]
  cases g with
  | unparsed entry => exact .refl _
  | family earlier lead later =>
    simp only [others, members]
    exact (List.perm_middle.symm.map Member.parsed).map Member.line

theorem lines_treeRows_perm (groups : List Group) :
    ((treeRows groups).filterMap TreeRow.line?).Perm
      ((groups.flatMap members).map Member.line) := by
  have groups_shown : groups.flatMap members = groups.zipIdx.flatMap fun (g, _) => g.members := by
    conv_lhs => rw [← List.zipIdx_map_fst 0 groups, List.flatMap_map]
  rw [groups_shown, treeRows, List.filterMap_flatMap, List.map_flatMap]
  exact .flatMap_left _ fun (g, place) _ => lines_rows_perm place g

end Group

end ImplFamilies
