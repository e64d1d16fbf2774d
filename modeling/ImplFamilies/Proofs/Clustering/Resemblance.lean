import ImplFamilies.Proofs.Clustering.Step
import ImplFamilies.Proofs.Inclusion.Erasure
import Mathlib.Data.List.Forall2

/-!
Grouping reads of each text only whether it is a signature that is accepted, and then its sign and
its trait and type without lifetimes. Two runs whose texts agree in this are taken side by side: a
relation between their groups that fixes all places and indices is kept by every step.
-/

namespace ImplFamilies

namespace Reading

/-- Both texts are no signatures, or both are refused, or their forms resemble each other. -/
def Resembles : Reading → Reading → Prop
  | .parsed a, .parsed b => a.Resembles b
  | .unparsed _, .unparsed _ => True
  | .refused _, .refused _ => True
  | _, _ => False

instance (a b : CanonicalForm) : Decidable (a.Resembles b) :=
  inferInstanceAs (Decidable (_ ∧ _ ∧ _))

instance : (r s : Reading) → Decidable (r.Resembles s)
  | .parsed a, .parsed b => inferInstanceAs (Decidable (a.Resembles b))
  | .unparsed _, .unparsed _ => .isTrue trivial
  | .refused _, .refused _ => .isTrue trivial
  | .parsed _, .unparsed _ => .isFalse id
  | .parsed _, .refused _ => .isFalse id
  | .unparsed _, .parsed _ => .isFalse id
  | .unparsed _, .refused _ => .isFalse id
  | .refused _, .parsed _ => .isFalse id
  | .refused _, .unparsed _ => .isFalse id

end Reading

structure Entry.Resembles (e f : Entry CanonicalForm) : Prop where
  index : e.index = f.index
  content : e.content.Resembles f.content

namespace Group

def Resembles : Group → Group → Prop
  | .family earlier lead later, .family earlier' lead' later' =>
      List.Forall₂ Entry.Resembles earlier earlier' ∧ lead.Resembles lead' ∧
        List.Forall₂ Entry.Resembles later later'
  | .unparsed entry, .unparsed entry' => entry.index = entry'.index
  | _, _ => False

/-- The index of the lead and the indices of all members. -/
def outline (g : Group) : Option Nat × List Nat :=
  (g.lead?.map Entry.index, g.members.map Member.index)

theorem indices_of_resembles {es fs : List (Entry CanonicalForm)}
    (h : List.Forall₂ Entry.Resembles es fs) : es.map Entry.index = fs.map Entry.index := by
  induction h with
  | nil => rfl
  | cons first _ ih => simp only [List.map_cons, first.index, ih]

theorem outline_of_resembles {g h : Group} (related : g.Resembles h) : g.outline = h.outline := by
  have indices (es : List (Entry CanonicalForm)) :
      (es.map Member.parsed).map Member.index = es.map Entry.index := by
    rw [List.map_map]
    rfl
  cases g with
  | family earlier lead later =>
    cases h with
    | unparsed entry => exact related.elim
    | family earlier' lead' later' =>
      obtain ⟨before, same, after⟩ := related
      have all := indices_of_resembles (List.rel_append before (.cons same after))
      simp only [outline, lead?, members, Option.map_some, indices, same.index, all]
  | unparsed entry =>
    cases h with
    | family earlier lead later => exact related.elim
    | unparsed entry' => simp only [outline, lead?, members, List.map_cons, List.map_nil,
        Option.map_none, Member.index, show entry.index = entry'.index from related]

theorem accepts_of_resembles {g h : Group} {a b : CanonicalForm} (related : g.Resembles h)
    (same : a.Resembles b) : g.accepts a = h.accepts b := by
  cases g with
  | family earlier lead later =>
    cases h with
    | unparsed entry => exact related.elim
    | family earlier' lead' later' =>
      have leads := related.2.1.content
      rw [accepts, accepts, CanonicalForm.includes_of_resembles leads same,
        CanonicalForm.includes_of_resembles same leads]
  | unparsed entry =>
    cases h with
    | family earlier lead later => exact related.elim
    | unparsed entry' => rfl

theorem join_resembles {g h : Group} {e f : Entry CanonicalForm} (related : g.Resembles h)
    (same : e.Resembles f) : (g.join e).Resembles (h.join f) := by
  cases g with
  | family earlier lead later =>
    cases h with
    | unparsed entry => exact related.elim
    | family earlier' lead' later' =>
      obtain ⟨before, leads, after⟩ := related
      rw [join, join, CanonicalForm.includes_of_resembles leads.content same.content]
      split
      · exact ⟨before, leads, List.rel_append after (.cons same .nil)⟩
      · exact ⟨List.rel_append before (.cons leads after), same, .nil⟩
  | unparsed entry =>
    cases h with
    | family earlier lead later => exact related.elim
    | unparsed entry' => exact related

end Group

namespace Clustering

theorem place_resembles {gs hs : List Group} {e f : Entry CanonicalForm}
    (related : List.Forall₂ Group.Resembles gs hs) (same : e.Resembles f) :
    List.Forall₂ Group.Resembles (place e gs) (place f hs) := by
  induction related with
  | nil => exact .cons ⟨.nil, same, .nil⟩ .nil
  | cons first rest ih =>
    rw [place, place, Group.accepts_of_resembles first same.content]
    split
    · exact .cons (Group.join_resembles first same) rest
    · exact .cons first ih

theorem slot_of_resembles {gs hs : List Group} {a b : CanonicalForm}
    (related : List.Forall₂ Group.Resembles gs hs) (same : a.Resembles b) :
    slot a gs = slot b hs := by
  induction related with
  | nil => rfl
  | cons first rest ih =>
    rw [slot, slot] at ih ⊢
    rw [List.findIdx_cons, List.findIdx_cons, Group.accepts_of_resembles first same, ih]

structure Resembles (c d : Clustering) : Prop where
  groups : List.Forall₂ Group.Resembles c.groups d.groups
  arrivals : c.arrivals = d.arrivals

theorem push_resembles {c d : Clustering} {s t : String} (related : c.Resembles d)
    (same : (Reading.ofText s).Resembles (Reading.ofText t)) :
    (c.push s).1.Resembles (d.push t).1 ∧
      (c.push s).2.toOption = (d.push t).2.toOption := by
  obtain ⟨groups, arrivals⟩ := related
  cases hs : Reading.ofText s with
  | parsed a =>
    cases ht : Reading.ofText t with
    | parsed b =>
      rw [hs, ht] at same
      rw [push_of_parsed c hs, push_of_parsed d ht, slot_of_resembles groups same, arrivals]
      exact ⟨⟨place_resembles groups ⟨rfl, same⟩, rfl⟩, rfl⟩
    | unparsed error => rw [hs, ht] at same; exact same.elim
    | refused violation => rw [hs, ht] at same; exact same.elim
  | unparsed error =>
    cases ht : Reading.ofText t with
    | parsed b => rw [hs, ht] at same; exact same.elim
    | unparsed error' =>
      rw [push_of_unparsed c hs, push_of_unparsed d ht, groups.length_eq, arrivals]
      exact ⟨⟨List.rel_append groups (.cons rfl .nil), rfl⟩, rfl⟩
    | refused violation => rw [hs, ht] at same; exact same.elim
  | refused violation =>
    cases ht : Reading.ofText t with
    | parsed b => rw [hs, ht] at same; exact same.elim
    | unparsed error => rw [hs, ht] at same; exact same.elim
    | refused violation' =>
      rw [push_of_refused c hs, push_of_refused d ht, arrivals]
      exact ⟨⟨groups, rfl⟩, rfl⟩

/-- The texts agree, one by one, in all that grouping reads. -/
def Alike (left right : List String) : Prop :=
  List.Forall₂ (fun s t => (Reading.ofText s).Resembles (Reading.ofText t)) left right

instance (left right : List String) : Decidable (Alike left right) :=
  inferInstanceAs (Decidable (List.Forall₂ _ left right))

theorem pushAll_resembles {left right : List String} (alike : Alike left right)
    {c d : Clustering} (related : c.Resembles d) :
    (pushAll left c).Resembles (pushAll right d) := by
  induction alike generalizing c d with
  | nil => exact related
  | cons first _ ih =>
    rw [pushAll_cons, pushAll_cons]
    exact ih (push_resembles related first).1

theorem answers_resemble {left right : List String} (alike : Alike left right)
    {c d : Clustering} (related : c.Resembles d) :
    (answers c left).map Except.toOption = (answers d right).map Except.toOption := by
  induction alike generalizing c d with
  | nil => rfl
  | cons first _ ih =>
    obtain ⟨next, answer⟩ := push_resembles related first
    rw [answers, answers, List.map_cons, List.map_cons, answer, ih next]

theorem outlines_eq {gs hs : List Group} (related : List.Forall₂ Group.Resembles gs hs) :
    gs.map Group.outline = hs.map Group.outline := by
  induction related with
  | nil => rfl
  | cons first _ ih => rw [List.map_cons, List.map_cons, Group.outline_of_resembles first, ih]

/-- Step by step, texts that agree without lifetimes get the same answers and stand with the same
indices in the same groups under the same leads. -/
theorem grouping_reads_erased_shape {left right : List String} (alike : Alike left right) :
    (∀ k, (pushAll (left.take k) empty).groups.map Group.outline =
      (pushAll (right.take k) empty).groups.map Group.outline) ∧
    (answers empty left).map Except.toOption = (answers empty right).map Except.toOption := by
  have start : empty.Resembles empty := ⟨.nil, rfl⟩
  constructor
  · intro k
    have firsts : Alike (left.take k) (right.take k) := List.forall₂_take k alike
    exact outlines_eq (pushAll_resembles firsts start).groups
  · exact answers_resemble alike start

/-- Names, bounds, lifetimes and `unsafe` differ at each place, and one list of texts is as good as
the other. -/
theorem renamed_run_groups_alike :
    let left := ["impl<'a, T> Foo for &'a Wrap<'a, T>", "impl<const N: usize> Foo for [u8; N]",
      "impl<T> Foo for T where U: Clone", "impl<A, B: Clone> Foo for &Wrap<A, B>"]
    let right := ["unsafe impl<X: Copy> Foo for &Wrap<X>", "no signature",
      "impl Bar for u8 where 'a: 'b", "impl<P, Q> Foo for &'b Wrap<'b, P, Q> where Q: Send"]
    Alike left right ∧
      (pushAll left empty).groups.map Group.outline = [(some 3, [0, 3]), (none, [1])] ∧
      (pushAll right empty).groups.map Group.outline = [(some 3, [0, 3]), (none, [1])] := by
  intro left right
  have alike : Alike left right := by decide +kernel
  have outline : (pushAll left empty).groups.map Group.outline =
      [(some 3, [0, 3]), (none, [1])] := by
    decide +kernel
  refine ⟨alike, outline, ?_⟩
  rw [← outline]
  exact ((grouping_reads_erased_shape alike).1 4).symm

end Clustering

end ImplFamilies
