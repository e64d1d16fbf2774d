import ImplFamilies.Proofs.Clustering.Step
import ImplFamilies.Proofs.Inclusion.Preorder
import Mathlib.Data.List.Induction

/-!
The lead of a family stands for all its members. A member was compared only with the lead of its
own time, so the proof goes along the chain of leads; what inclusion says of traits survives as long
as no lead of the chain is without one.
-/

namespace ImplFamilies

namespace CanonicalForm

def CoversType (a b : CanonicalForm) : Prop :=
  a.negated = b.negated ∧ a.selfTy.includes b.selfTy = true

theorem CoversType.of_includes {a b : CanonicalForm} (h : a.includes b = true) :
    a.CoversType b :=
  ⟨(includes_iff.1 h).1, (includes_iff.1 h).2.2⟩

theorem CoversType.trans {a b c : CanonicalForm} (h₁ : a.CoversType b) (h₂ : b.CoversType c) :
    a.CoversType c :=
  ⟨h₁.1.trans h₂.1, Ty.includes_trans _ _ _ h₁.2 h₂.2⟩

theorem CoversType.includes {a b : CanonicalForm} (h : a.CoversType b)
    (inherent : a.traitRef = none) : a.includes b = true :=
  includes_iff.2 ⟨h.1, by rw [inherent]; rfl, h.2⟩

end CanonicalForm

namespace Group

def entries : Group → List (Entry CanonicalForm)
  | .family earlier lead later => earlier ++ lead :: later
  | .unparsed _ => []

theorem form?_of_mem {g : Group} {lead : Entry CanonicalForm} (h : g.lead? = some lead) {m : Member}
    (hm : m ∈ g.members) : ∃ entry ∈ g.entries, m.form? = some entry.content := by
  cases g with
  | unparsed entry => cases h
  | family earlier other later =>
    obtain ⟨entry, hentry, rfl⟩ := List.mem_map.1 hm
    exact ⟨entry, hentry, rfl⟩

/-- The lead covers every entry, and includes every entry where traits are known to count. -/
def Dominated (named : Prop) (g : Group) : Prop :=
  ∀ lead, g.lead? = some lead → ∀ entry ∈ g.entries,
    lead.content.CoversType entry.content ∧ (named → lead.content.includes entry.content = true)

theorem Dominated.unparsed {named : Prop} (entry : Entry SyntaxError) :
    Dominated named (.unparsed entry) := by
  intro lead hlead
  cases hlead

theorem Dominated.singleton {named : Prop} (entry : Entry CanonicalForm) :
    Dominated named (.family [] entry []) := by
  intro lead hlead other hother
  obtain rfl : entry = lead := Option.some.inj hlead
  obtain rfl : other = entry := List.mem_singleton.1 hother
  have h := CanonicalForm.includes_refl other.content
  exact ⟨.of_includes h, fun _ => h⟩

/-- The lead before the step must have a trait for the new one to inherit what it includes. -/
theorem Dominated.turn {named named' : Prop} {g g' : Group} (h : Dominated named g)
    (turn : Clustering.Turn g g') (earlierNamed : named' → named)
    (traits : named' → ∀ lead, g.lead? = some lead → lead.content.traitRef ≠ none) :
    Dominated named' g' := by
  cases turn with
  | same =>
    intro lead hlead entry hentry
    obtain ⟨covers, includes⟩ := h lead hlead entry hentry
    exact ⟨covers, fun n => includes (earlierNamed n)⟩
  | kept earlier later lead newcomer covered =>
    intro lead' hlead entry hentry
    obtain rfl : lead = lead' := Option.some.inj hlead
    rw [entries, ← List.cons_append, ← List.append_assoc] at hentry
    rcases List.mem_append.1 hentry with old | new
    · obtain ⟨covers, includes⟩ := h lead rfl entry old
      exact ⟨covers, fun n => includes (earlierNamed n)⟩
    · obtain rfl := List.mem_singleton.1 new
      exact ⟨.of_includes covered, fun _ => covered⟩
  | promoted earlier later lead newcomer wider uncovered =>
    intro lead' hlead entry hentry
    obtain rfl : newcomer = lead' := Option.some.inj hlead
    rw [entries] at hentry
    rcases List.mem_append.1 hentry with old | new
    · obtain ⟨covers, includes⟩ := h lead rfl entry old
      refine ⟨(CanonicalForm.CoversType.of_includes wider).trans covers, fun n => ?_⟩
      exact CanonicalForm.includes_trans (fun inherent => absurd inherent (traits n lead rfl))
        wider (includes (earlierNamed n))
    · obtain rfl := List.mem_singleton.1 new
      have self := CanonicalForm.includes_refl entry.content
      exact ⟨.of_includes self, fun _ => self⟩

end Group

namespace Clustering

def leadAt (n : Nat) (c : Clustering) : Option (Entry CanonicalForm) :=
  c.groups[n]?.bind Group.lead?

/-- No form without a trait has led the group at a place while the texts were pushed. -/
def AlwaysNamed (texts : List String) (n : Nat) : Prop :=
  ∀ k ≤ texts.length, ∀ lead, (pushAll (texts.take k) empty).leadAt n = some lead →
    lead.content.traitRef ≠ none

theorem AlwaysNamed.init {texts : List String} {text : String} {n : Nat}
    (h : AlwaysNamed (texts ++ [text]) n) : AlwaysNamed texts n := by
  intro k hk lead hlead
  refine h k (by simp only [List.length_append]; omega) lead ?_
  rwa [List.take_append_of_le_length hk]

theorem AlwaysNamed.last {texts : List String} {n : Nat} (h : AlwaysNamed texts n)
    {lead : Entry CanonicalForm} (hlead : (pushAll texts empty).leadAt n = some lead) :
    lead.content.traitRef ≠ none := by
  refine h texts.length (Nat.le_refl _) lead ?_
  rwa [List.take_length]

theorem dominated_pushAll (texts : List String) {n : Nat} {g : Group}
    (there : (pushAll texts empty).groups[n]? = some g) :
    g.Dominated (AlwaysNamed texts n) := by
  induction texts using List.reverseRecOn generalizing g with
  | nil => simp [empty] at there
  | append_singleton texts text ih =>
    have step := push_step text (pushAll texts empty)
    rw [pushAll_concat] at there
    cases before : (pushAll texts empty).groups[n]? with
    | none =>
      rcases step.new there before with ⟨entry, rfl⟩ | ⟨entry, rfl⟩
      · exact Group.Dominated.unparsed entry
      · exact Group.Dominated.singleton entry
    | some g₀ =>
      obtain ⟨g', there', turn⟩ := step.turn before
      obtain rfl : g' = g := Option.some.inj (there'.symm.trans there)
      refine (ih before).turn turn AlwaysNamed.init fun named lead hlead => ?_
      exact named.init.last (by rw [leadAt, before]; exact hlead)

/-- A group keeps its lead, or takes one that includes it and that it does not include. -/
theorem leadAt_push {c : Clustering} {n : Nat} {old : Entry CanonicalForm} (text : String)
    (h : c.leadAt n = some old) :
    ∃ new, (c.push text).1.leadAt n = some new ∧
      (new = old ∨ new.content.includes old.content = true ∧
        old.content.includes new.content = false) := by
  obtain ⟨g, there, lead⟩ := Option.bind_eq_some_iff.1 h
  obtain ⟨g', there', turn⟩ := (push_step text c).turn there
  rw [leadAt, there', Option.bind_some]
  cases turn with
  | same => exact ⟨old, lead, .inl rfl⟩
  | kept earlier later first newcomer covered => exact ⟨old, lead, .inl rfl⟩
  | promoted earlier later first newcomer wider uncovered =>
    obtain rfl : first = old := Option.some.inj lead
    exact ⟨newcomer, rfl, .inr ⟨wider, uncovered⟩⟩

/-- The lead agrees with every member in sign and covers its type; it includes every member when it
has no trait, or when no lead of its group was ever without one. A lead gives way only to one that
includes it and that it does not include. -/
theorem lead_dominates_members (texts : List String) (n : Nat) :
    (∀ g lead, (pushAll texts empty).groups[n]? = some g → g.lead? = some lead →
      ∀ m ∈ g.members, ∃ form, m.form? = some form ∧
        lead.content.negated = form.negated ∧ lead.content.selfTy.includes form.selfTy = true ∧
        (lead.content.traitRef = none ∨ AlwaysNamed texts n →
          lead.content.includes form = true)) ∧
    ∀ text old, (pushAll texts empty).leadAt n = some old →
      ∃ new, (pushAll (texts ++ [text]) empty).leadAt n = some new ∧
        (new = old ∨ new.content.includes old.content = true ∧
          old.content.includes new.content = false) := by
  constructor
  · intro g lead there hlead m hm
    obtain ⟨entry, hentry, hform⟩ := Group.form?_of_mem hlead hm
    obtain ⟨covers, includes⟩ := dominated_pushAll texts there lead hlead entry hentry
    refine ⟨entry.content, hform, covers.1, covers.2, ?_⟩
    rintro (inherent | named)
    · exact covers.includes inherent
    · exact includes named
  · intro text old hold
    rw [pushAll_concat]
    exact leadAt_push text hold

/-- The wider of two tuples leads and includes the other, and gives way to one wider still. -/
theorem wider_tuple_leads :
    let texts := ["impl<A> T for (A,)", "impl<A, B> T for (A, B)"]
    ∃ g lead m form, (pushAll texts empty).groups[0]? = some g ∧ g.lead? = some lead ∧
      lead.index = 1 ∧ m ∈ g.members ∧ m.index = 0 ∧ AlwaysNamed texts 0 ∧
      m.form? = some form ∧ lead.content.includes form = true ∧
      ∃ new, (pushAll (texts ++ ["impl<A, B, C> T for (A, B, C)"]) empty).leadAt 0 = some new ∧
        (new = lead ∨ new.content.includes lead.content = true ∧
          lead.content.includes new.content = false) := by
  intro texts
  have led : ((pushAll texts empty).leadAt 0).map Entry.index = some 1 := by decide +kernel
  obtain ⟨lead, hlead, index⟩ := Option.map_eq_some_iff.1 led
  obtain ⟨g, there, hg⟩ := Option.bind_eq_some_iff.1 hlead
  have held : ((pushAll texts empty).groups[0]?.bind fun g => g.members[0]?).map Member.index =
      some 0 := by decide +kernel
  rw [there, Option.bind_some] at held
  obtain ⟨m, hm, first⟩ := Option.map_eq_some_iff.1 held
  have named : AlwaysNamed texts 0 := by
    have all : ∀ k ≤ 2, ((pushAll (texts.take k) empty).leadAt 0).all
        (fun lead => lead.content.traitRef != none) = true := by decide +kernel
    intro k hk past hpast
    simpa [hpast] using all k hk
  have member : m ∈ g.members := List.mem_of_getElem? hm
  have dominates := lead_dominates_members texts 0
  obtain ⟨form, hform, _, _, includes⟩ := dominates.1 g lead there hg m member
  exact ⟨g, lead, m, form, there, hg, index, member, first, named, hform,
    includes (.inr named), dominates.2 _ lead hlead⟩

end Clustering

end ImplFamilies
