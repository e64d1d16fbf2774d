import ImplFamilies.Proofs.Clustering.Record

/-!
When the members of a family name one trait. A form without a trait is compared by type alone, so
a family that it leads takes members with any trait. As long as every lead has a trait, each new
lead and each new member names the trait of the lead before.
-/

namespace ImplFamilies

namespace TypePath

/-- Both are plain paths with the same segments, or both are called like functions under the same
name with the same modifiers. -/
def SameTrait : TypePath → TypePath → Prop
  | .plain s _, .plain t _ => s = t
  | .fn m n _ _, .fn k l _ _ => n = l ∧ m = k
  | _, _ => False

theorem SameTrait.refl (p : TypePath) : p.SameTrait p := by
  cases p <;> simp [SameTrait]

theorem SameTrait.symm {p q : TypePath} (h : p.SameTrait q) : q.SameTrait p := by
  cases p <;> cases q <;> simp_all [SameTrait]

theorem SameTrait.trans {p q r : TypePath} (h₁ : p.SameTrait q) (h₂ : q.SameTrait r) :
    p.SameTrait r := by
  cases p <;> cases q <;> cases r <;> simp_all [SameTrait]

theorem SameTrait.of_includes {p q : TypePath} (h : p.includes q = true) : p.SameTrait q := by
  cases p with
  | plain s as =>
    obtain ⟨t, bs, rfl, rfl, -⟩ := includes_plain_iff.1 h
    exact .refl (.plain s none)
  | fn m n xs x =>
    obtain ⟨k, l, ys, y, rfl, rfl, rfl, -⟩ := includes_fn_iff.1 h
    exact ⟨rfl, rfl⟩

end TypePath

namespace CanonicalForm

theorem sameTrait_of_includes {a b : CanonicalForm} (h : a.includes b = true) {p q : TypePath}
    (hp : a.traitRef = some p) (hq : b.traitRef = some q) : p.SameTrait q := by
  have traits := (includes_iff.1 h).2.1
  rw [hp, hq] at traits
  exact .of_includes traits

end CanonicalForm

namespace Clustering

/-- No form without a trait leads the group at a place from the arrival of the text at `i` until
the one at `j` comes. -/
def NamedBetween (texts : List String) (n i j : Nat) : Prop :=
  ∀ k, i < k → k ≤ j → ∀ lead, (pushAll (texts.take k) empty).leadAt n = some lead →
    lead.content.traitRef ≠ none

theorem NamedBetween.init {texts : List String} {text : String} {n i j : Nat}
    (h : NamedBetween (texts ++ [text]) n i j) (within : j ≤ texts.length) :
    NamedBetween texts n i j := by
  intro k hi hj lead hlead
  apply h k hi hj lead
  rwa [List.take_append_of_le_length (by omega)]

theorem NamedBetween.upTo {texts : List String} {n i j l : Nat} (h : NamedBetween texts n i j)
    (within : l ≤ j) : NamedBetween texts n i l :=
  fun k hi hl => h k hi (by omega)

theorem NamedBetween.last {texts : List String} {n i : Nat}
    (h : NamedBetween texts n i texts.length) (past : i < texts.length)
    {lead : Entry CanonicalForm} (hlead : (pushAll texts empty).leadAt n = some lead) :
    lead.content.traitRef ≠ none := by
  apply h texts.length past (Nat.le_refl _) lead
  rwa [List.take_length]

theorem index_lt_length {texts : List String} {n : Nat} {g : Group}
    (there : (pushAll texts empty).groups[n]? = some g) {m : Member} (hm : m ∈ g.members) :
    m.index < texts.length :=
  (partitions_pushAll texts).index_lt (List.mem_of_getElem? there) hm

/-- The lead after a step includes the one before it and whoever has come to the group. -/
theorem Turn.lead_includes {g g' : Group} (turn : Turn g g') {lead : Entry CanonicalForm}
    (hlead : g'.lead? = some lead) :
    ∃ old, g.lead? = some old ∧ lead.content.includes old.content = true ∧
      ∀ a, .parsed a ∈ g'.members →
        .parsed a ∈ g.members ∨ lead.content.includes a.content = true := by
  have self := CanonicalForm.includes_refl lead.content
  cases turn with
  | same => exact ⟨lead, hlead, self, fun a ha => .inl ha⟩
  | kept earlier later first newcomer covered =>
    obtain rfl : first = lead := Option.some.inj hlead
    refine ⟨first, rfl, self, fun a ha => ?_⟩
    rcases Group.parsed_mem_of_grown (Group.members_kept ..) ha with held | rfl
    · exact .inl held
    · exact .inr covered
  | promoted earlier later first newcomer wider uncovered =>
    obtain rfl : newcomer = lead := Option.some.inj hlead
    refine ⟨first, rfl, wider, fun a ha => ?_⟩
    rcases Group.parsed_mem_of_grown (Group.members_promoted ..) ha with held | rfl
    · exact .inl held
    · exact .inr self

/-- The lead names the trait of a member when every lead since the member came has a trait. -/
theorem lead_names_trait (texts : List String) {n : Nat} {g : Group}
    (there : (pushAll texts empty).groups[n]? = some g) {a : Entry CanonicalForm}
    (ha : .parsed a ∈ g.members) {p : TypePath} (hp : a.content.traitRef = some p)
    (named : NamedBetween texts n a.index texts.length) {lead : Entry CanonicalForm}
    (hlead : g.lead? = some lead) {q : TypePath} (hq : lead.content.traitRef = some q) :
    q.SameTrait p := by
  induction texts using List.reverseRecOn generalizing g lead q with
  | nil => simp [empty] at there
  | append_singleton texts text ih =>
    have step := push_step text (pushAll texts empty)
    rw [pushAll_concat] at there
    cases before : (pushAll texts empty).groups[n]? with
    | none =>
      rcases step.new there before with ⟨entry, rfl⟩ | ⟨entry, rfl⟩
      · cases hlead
      · obtain rfl : entry = lead := Option.some.inj hlead
        obtain rfl : a = entry := by simpa [Group.members] using ha
        obtain rfl : p = q := Option.some.inj (hp.symm.trans hq)
        exact .refl p
    | some g₀ =>
      obtain ⟨g', there', turn⟩ := step.turn before
      obtain rfl : g' = g := Option.some.inj (there'.symm.trans there)
      obtain ⟨old, hold, wider, came⟩ := turn.lead_includes hlead
      rcases came a ha with held | covered
      · have named : NamedBetween texts n a.index texts.length :=
          (named.upTo (by simp)).init (Nat.le_refl _)
        have oldNamed : old.content.traitRef ≠ none :=
          named.last (index_lt_length before held) (by rw [leadAt, before]; exact hold)
        obtain ⟨r, hr⟩ := Option.ne_none_iff_exists'.1 oldNamed
        have above : q.SameTrait r := CanonicalForm.sameTrait_of_includes wider hq hr
        exact above.trans (ih before held named hold hr)
      · exact CanonicalForm.sameTrait_of_includes covered hq hp

/-- Two members of a group that both have a trait name the same one, unless a form without a trait
led the group at some time from the arrival of the first until that of the second. -/
theorem members_name_one_trait (texts : List String) {n : Nat} {g : Group}
    (there : (pushAll texts empty).groups[n]? = some g) {a b : Entry CanonicalForm}
    (ha : .parsed a ∈ g.members) (hb : .parsed b ∈ g.members) {p q : TypePath}
    (hp : a.content.traitRef = some p) (hq : b.content.traitRef = some q)
    (first : a.index < b.index) (named : NamedBetween texts n a.index b.index) :
    p.SameTrait q := by
  induction texts using List.reverseRecOn generalizing g with
  | nil => simp [empty] at there
  | append_singleton texts text ih =>
    have within : b.index < (texts ++ [text]).length := index_lt_length there hb
    rw [List.length_append, List.length_singleton] at within
    have named : NamedBetween texts n a.index b.index := named.init (by omega)
    have step := push_step text (pushAll texts empty)
    rw [pushAll_concat] at there
    rcases step.newcomer there ha with ⟨g₀, before, held⟩ | ⟨new, -⟩
    · rcases step.newcomer there hb with ⟨g₁, before', held'⟩ | ⟨new, related⟩
      · obtain rfl : g₀ = g₁ := Option.some.inj (before.symm.trans before')
        exact ih before held held' named
      · -- the first member was there, so its group has a lead, and that lead has a trait
        rw [arrivals_pushAll_empty] at new
        rw [new] at named
        cases g₀ with
        | unparsed entry => simp [Group.members] at held
        | family earlier lead later =>
          have leads : (pushAll texts empty).leadAt n = some lead := by rw [leadAt, before]; rfl
          obtain ⟨r, hr⟩ := Option.ne_none_iff_exists'.1 (named.last (by omega) leads)
          have back : r.SameTrait p := lead_names_trait texts before held hp named rfl hr
          rcases related _ lead before rfl with covered | wider
          · exact back.symm.trans (CanonicalForm.sameTrait_of_includes covered hr hq)
          · exact back.symm.trans (CanonicalForm.sameTrait_of_includes wider hq hr).symm
    · rw [arrivals_pushAll_empty] at new
      omega

/-- A form without a trait that has given way does no harm to those that come later. -/
theorem trait_kept_once_named_again :
    let texts := ["impl<A> Wrap<A>", "impl<A, B> Foo for Wrap<A, B>", "impl<A> Foo for Wrap<A>"]
    ∃ g a b p q, (pushAll texts empty).groups[0]? = some g ∧ .parsed a ∈ g.members ∧
      .parsed b ∈ g.members ∧ a.content.traitRef = some p ∧ b.content.traitRef = some q ∧
      a.index < b.index ∧ NamedBetween texts 0 a.index b.index ∧ p.SameTrait q ∧
      ¬ AlwaysNamed texts 0 := by
  intro texts
  have held : ((pushAll texts empty).groups[0]?.map fun g =>
      g.entries.map fun e => (e.index, e.content.traitRef)) =
      some [(0, none), (1, some (.plain "Foo" none)), (2, some (.plain "Foo" none))] := by
    decide +kernel
  have led : ((pushAll (texts.take 1) empty).leadAt 0).map
      (fun lead => lead.content.traitRef) = some none := by
    decide +kernel
  have thenLed : ((pushAll (texts.take 2) empty).leadAt 0).all
      (fun lead => lead.content.traitRef != none) = true := by
    decide +kernel
  obtain ⟨g, there, entries⟩ := Option.map_eq_some_iff.1 held
  obtain ⟨c, _, hc, -, entries⟩ := List.map_eq_cons_iff.1 entries
  obtain ⟨a, _, ha, fa, entries⟩ := List.map_eq_cons_iff.1 entries
  obtain ⟨b, _, hb, fb, -⟩ := List.map_eq_cons_iff.1 entries
  obtain ⟨ia, hp⟩ := Prod.mk.inj fa
  obtain ⟨ib, hq⟩ := Prod.mk.inj fb
  have ma : .parsed a ∈ g.members := Group.parsed_mem_members.2 (by simp [hc, ha])
  have mb : .parsed b ∈ g.members := Group.parsed_mem_members.2 (by simp [hc, ha, hb])
  have first : a.index < b.index := by omega
  have named : NamedBetween texts 0 a.index b.index := by
    intro k hi hj lead hlead
    obtain rfl : k = 2 := by omega
    simpa [hlead] using thenLed
  refine ⟨g, a, b, _, _, there, ma, mb, hp, hq, first, named, ?_, ?_⟩
  · exact members_name_one_trait texts there ma mb hp hq first named
  · obtain ⟨lead, hlead, inherent⟩ := Option.map_eq_some_iff.1 led
    intro always
    exact always 1 (by decide) lead hlead inherent

/-- A form without a trait that leads takes in any trait. -/
theorem inherent_lead_mixes_traits :
    ¬ ∀ g ∈ (pushAll ["impl<T> Foo for Wrap<T>", "impl<A, B> Wrap<A, B>",
        "impl<T> Bar for Wrap<T>"] empty).groups,
      ∀ a b p q, .parsed a ∈ g.members → .parsed b ∈ g.members →
        a.content.traitRef = some p → b.content.traitRef = some q → p.SameTrait q := by
  intro all
  have held : ((pushAll ["impl<T> Foo for Wrap<T>", "impl<A, B> Wrap<A, B>",
      "impl<T> Bar for Wrap<T>"] empty).groups[0]?.map fun g =>
        g.entries.map fun e => e.content.traitRef) =
      some [some (.plain "Foo" none), none, some (.plain "Bar" none)] := by
    decide +kernel
  obtain ⟨g, there, entries⟩ := Option.map_eq_some_iff.1 held
  obtain ⟨a, _, ha, hp, entries⟩ := List.map_eq_cons_iff.1 entries
  obtain ⟨c, _, hc, -, entries⟩ := List.map_eq_cons_iff.1 entries
  obtain ⟨b, _, hb, hq, -⟩ := List.map_eq_cons_iff.1 entries
  have same := all g (List.mem_of_getElem? there) a b _ _
    (Group.parsed_mem_members.2 (by simp [ha])) (Group.parsed_mem_members.2 (by simp [ha, hc, hb]))
    hp hq
  simp [TypePath.SameTrait] at same

end Clustering

end ImplFamilies
