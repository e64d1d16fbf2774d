import ImplFamilies.Canonical.Form
import ImplFamilies.Grammar.SyntaxError

/-!
Groups of signatures. A family is led by its most general signature and keeps all of them in the
order of arrival; a text that is no signature stays in a group of its own.
-/

namespace ImplFamilies

/-- A text with its place of arrival and what reading it gave. -/
structure Entry (α : Type) where
  index : Nat
  text : String
  content : α

inductive Member
  | parsed (entry : Entry CanonicalForm)
  | unparsed (entry : Entry SyntaxError)

namespace Member

def index : Member → Nat
  | .parsed entry => entry.index
  | .unparsed entry => entry.index

def text : Member → String
  | .parsed entry => entry.text
  | .unparsed entry => entry.text

def form? : Member → Option CanonicalForm
  | .parsed entry => some entry.content
  | .unparsed _ => none

def error? : Member → Option SyntaxError
  | .parsed _ => none
  | .unparsed entry => some entry.content

end Member

inductive Group
  /-- The lead stands among the others where it arrived. -/
  | family (earlier : List (Entry CanonicalForm)) (lead : Entry CanonicalForm)
      (later : List (Entry CanonicalForm))
  | unparsed (entry : Entry SyntaxError)

namespace Group

/-- All members in the order of arrival. -/
def members : Group → List Member
  | .family earlier lead later => (earlier ++ lead :: later).map Member.parsed
  | .unparsed entry => [.unparsed entry]

/-- The most general member; a text that is no signature leads nothing. -/
def lead? : Group → Option (Entry CanonicalForm)
  | .family _ lead _ => some lead
  | .unparsed _ => none

/-- Every member but the lead, in the order of arrival. -/
def others : Group → List Member
  | .family earlier _ later => (earlier ++ later).map Member.parsed
  | .unparsed entry => [.unparsed entry]

def isSingleton (g : Group) : Bool :=
  g.members.length == 1

/-- A family takes a form that its lead includes or that includes its lead. -/
def accepts (form : CanonicalForm) : Group → Bool
  | .family _ lead _ => lead.content.includes form || form.includes lead.content
  | .unparsed _ => false

/-- The newcomer stands last; it leads when the lead so far does not include it. -/
def join (entry : Entry CanonicalForm) : Group → Group
  | .family earlier lead later =>
    if lead.content.includes entry.content then .family earlier lead (later ++ [entry])
    else .family (earlier ++ lead :: later) entry []
  | .unparsed other => .unparsed other

/-- The place of the lead among the members. -/
def leadPosition? : Group → Option Nat
  | .family earlier _ _ => some earlier.length
  | .unparsed _ => none

theorem leadPosition?_of_lead {g : Group} {lead : Entry CanonicalForm} (h : g.lead? = some lead) :
    ∃ i, g.leadPosition? = some i ∧ i < g.members.length ∧
      g.members[i]? = some (.parsed lead) := by
  cases g with
  | family earlier first later =>
    obtain rfl := Option.some.inj h
    exact ⟨earlier.length, rfl, by simp [members], by simp [members]⟩
  | unparsed entry => cases h

section Join

variable {earlier later : List (Entry CanonicalForm)} {lead entry : Entry CanonicalForm}

theorem join_of_covered (covered : lead.content.includes entry.content = true) :
    (family earlier lead later).join entry = .family earlier lead (later ++ [entry]) :=
  if_pos covered

theorem join_of_uncovered (uncovered : lead.content.includes entry.content = false) :
    (family earlier lead later).join entry = .family (earlier ++ lead :: later) entry [] :=
  if_neg (Bool.eq_false_iff.1 uncovered)

theorem members_join :
    ((family earlier lead later).join entry).members =
      (family earlier lead later).members ++ [.parsed entry] := by
  cases covered : lead.content.includes entry.content with
  | true => simp [join_of_covered covered, members]
  | false => simp [join_of_uncovered covered, members]

theorem members_of_kept (covered : lead.content.includes entry.content = true) :
    (family earlier lead (later ++ [entry])).members =
      (family earlier lead later).members ++ [.parsed entry] := by
  rw [← join_of_covered covered, members_join]

theorem members_of_promoted (uncovered : lead.content.includes entry.content = false) :
    (family (earlier ++ lead :: later) entry []).members =
      (family earlier lead later).members ++ [.parsed entry] := by
  rw [← join_of_uncovered uncovered, members_join]

/-- A newcomer that leads takes the place behind all members so far. -/
theorem leadPosition?_join :
    ((family earlier lead later).join entry).leadPosition? =
      if lead.content.includes entry.content then (family earlier lead later).leadPosition?
      else some (family earlier lead later).members.length := by
  cases covered : lead.content.includes entry.content with
  | true => simp [join_of_covered covered, leadPosition?]
  | false => simp [join_of_uncovered covered, leadPosition?, members]

end Join

end Group

end ImplFamilies
