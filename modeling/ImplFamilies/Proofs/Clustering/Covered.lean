import ImplFamilies.Proofs.Clustering.Record

/-!
A signature that the groups cover already. It is compared with leads only, and what it is covered
by need not lead and may never have led; but the lead of a group includes all its members, and
inclusion passes on where all signatures of a run name a trait or none does. So the group is met
with at the latest where the covering member stands, and no group is opened.
-/

namespace ImplFamilies

namespace Clustering

/-- All signatures among the texts name a trait, or none does. -/
def Uniform (texts : List String) : Prop :=
  (∀ text ∈ texts, ∀ form, Reading.ofText text = .parsed form → form.traitRef ≠ none) ∨
    ∀ text ∈ texts, ∀ form, Reading.ofText text = .parsed form → form.traitRef = none

theorem read_of_mem {texts : List String} {n : Nat} {g : Group}
    (there : (pushAll texts empty).groups[n]? = some g) {x : Entry CanonicalForm}
    (hx : .parsed x ∈ g.members) :
    x.text ∈ texts ∧ Reading.ofText x.text = .parsed x.content := by
  obtain ⟨i, text, here, becomes⟩ := mem_groups.1 ⟨g, List.mem_of_getElem? there, hx⟩
  obtain ⟨rfl, rfl, reading⟩ := Reading.member?_eq_parsed.1 becomes
  exact ⟨List.mem_of_getElem? here, reading⟩

theorem alwaysNamed_of_named {texts : List String}
    (named : ∀ text ∈ texts, ∀ form, Reading.ofText text = .parsed form → form.traitRef ≠ none)
    (n : Nat) : AlwaysNamed texts n := by
  intro k _ lead led
  obtain ⟨g, there, hlead⟩ := Option.bind_eq_some_iff.1 led
  obtain ⟨here, reading⟩ := read_of_mem there (Group.lead_mem_members hlead).1
  exact named lead.text (List.mem_of_mem_take here) lead.content reading

theorem lead_includes_of_member {texts : List String} (uniform : Uniform texts) {n : Nat}
    {g : Group} (there : (pushAll texts empty).groups[n]? = some g) {lead x : Entry CanonicalForm}
    (hlead : g.lead? = some lead) (hx : .parsed x ∈ g.members) {form : CanonicalForm}
    (covered : x.content.includes form = true) : lead.content.includes form = true := by
  obtain ⟨here, reading⟩ := read_of_mem there hx
  obtain ⟨hereLead, readingLead⟩ := read_of_mem there (Group.lead_mem_members hlead).1
  obtain ⟨covers, includes⟩ :=
    dominated_pushAll texts there lead hlead x (Group.parsed_mem_members.1 hx)
  rcases uniform with named | inherent
  · have above := includes (alwaysNamed_of_named named n)
    exact CanonicalForm.includes_trans
      (fun nameless => absurd nameless (named x.text here x.content reading)) above covered
  · have nameless := inherent lead.text hereLead lead.content readingLead
    exact CanonicalForm.includes_trans (fun _ => .inl nameless) (covers.includes nameless) covered

/-- A signature goes no further than to a group that accepts it. -/
theorem push_of_accepted {c : Clustering} {text : String} {form : CanonicalForm}
    (reading : Reading.ofText text = .parsed form) {n : Nat} {g : Group}
    (there : c.groups[n]? = some g) (accepts : g.accepts form = true) :
    ∃ k ≤ n, (c.push text).2 = .ok k ∧ (c.push text).1.groups.length = c.groups.length := by
  rw [push_of_parsed c reading]
  rcases fresh_or_first form c.groups with fresh | ⟨before, h, after, found, first, accepts'⟩
  · have refused := fresh g (List.mem_of_getElem? there)
    rw [accepts] at refused
    cases refused
  · refine ⟨before.length, ?_, ?_, ?_⟩
    · by_contra further
      rw [found, List.getElem?_append_left (by omega)] at there
      have refused := first g (List.mem_of_getElem? there)
      rw [accepts] at refused
      cases refused
    · rw [found, slot_eq_of_accepts first accepts']
    · rw [found, place_eq_of_accepts first accepts']
      simp only [List.length_append, List.length_cons]

/-- Where all signatures of a run name a trait or none does, a signature that some member of a
group includes joins that group or one before it, and no group is opened; a signature that has come
before is such a one. -/
theorem covered_signature_opens_no_group (texts : List String) (uniform : Uniform texts)
    (text : String) (form : CanonicalForm) (reading : Reading.ofText text = .parsed form) :
    (∀ n g x, (pushAll texts empty).groups[n]? = some g → .parsed x ∈ g.members →
      x.content.includes form = true →
      ∃ k ≤ n, ((pushAll texts empty).push text).2 = .ok k ∧
        ((pushAll texts empty).push text).1.groups.length =
          (pushAll texts empty).groups.length) ∧
    ∀ i, texts[i]? = some text →
      ∃ n g x, (pushAll texts empty).groups[n]? = some g ∧ .parsed x ∈ g.members ∧
        x.index = i ∧ x.text = text ∧ x.content.includes form = true ∧
        ∃ k ≤ n, ((pushAll texts empty).push text).2 = .ok k ∧
          ((pushAll texts empty).push text).1.groups.length =
            (pushAll texts empty).groups.length := by
  have joins : ∀ n g x, (pushAll texts empty).groups[n]? = some g → .parsed x ∈ g.members →
      x.content.includes form = true →
      ∃ k ≤ n, ((pushAll texts empty).push text).2 = .ok k ∧
        ((pushAll texts empty).push text).1.groups.length =
          (pushAll texts empty).groups.length := by
    intro n g x there hx covered
    cases hlead : g.lead? with
    | none =>
      obtain ⟨entry, alone⟩ := Group.members_of_unled hlead
      simp [alone] at hx
    | some lead =>
      have above := lead_includes_of_member uniform there hlead hx covered
      refine push_of_accepted reading there ?_
      cases g with
      | family earlier first later =>
        obtain rfl : first = lead := Option.some.inj hlead
        exact accepts_iff.2 ⟨earlier, first, later, rfl, .inl above⟩
      | unparsed entry => cases hlead
  refine ⟨joins, fun i here => ?_⟩
  have becomes : (Reading.ofText text).member? i text = some (.parsed ⟨i, text, form⟩) := by
    rw [reading]
    rfl
  obtain ⟨g, hg, hx⟩ := mem_groups.2 ⟨i, text, here, becomes⟩
  obtain ⟨n, there⟩ := List.mem_iff_getElem?.1 hg
  have self := CanonicalForm.includes_refl form
  exact ⟨n, g, ⟨i, text, form⟩, there, hx, rfl, rfl, self, joins n g _ there hx self⟩

/-- Of two tuples the second leads; the first includes one with another parameter name and its own
repetition, which both join. -/
theorem covered_tuples_join :
    let texts := ["impl T for X", "impl<A> T for (A,)", "impl<A, B> T for (A, B)"]
    let c := pushAll texts empty
    Uniform texts ∧
    (∃ form g x, Reading.ofText "impl<Z> T for (Z,)" = .parsed form ∧ c.groups[1]? = some g ∧
      .parsed x ∈ g.members ∧ x.index = 1 ∧ g.lead?.map Entry.index = some 2 ∧
      x.content.includes form = true ∧ ∃ k ≤ 1, (c.push "impl<Z> T for (Z,)").2 = .ok k ∧
        (c.push "impl<Z> T for (Z,)").1.groups.length = c.groups.length) ∧
    ∃ k n, (c.push "impl<A> T for (A,)").2 = .ok k ∧ k ≤ n ∧
      (c.push "impl<A> T for (A,)").1.groups.length = c.groups.length := by
  intro texts c
  have uniform : Uniform texts := by
    have named : ∀ text ∈ texts,
        (Reading.ofText text).form?.all (fun form => form.traitRef.isSome) = true := by
      decide +kernel
    refine .inl fun text here form reading => Option.isSome_iff_ne_none.1 ?_
    simpa [reading, Reading.form?] using named text here
  have parses (text : String) (parses : (Reading.ofText text).form?.isSome = true) :
      ∃ form, Reading.ofText text = .parsed form := by
    obtain ⟨form, reading⟩ := Option.isSome_iff_exists.1 parses
    exact ⟨form, Reading.form?_eq_some.1 reading⟩
  obtain ⟨form, reading⟩ := parses "impl<Z> T for (Z,)" (by decide +kernel)
  obtain ⟨again, readingAgain⟩ := parses "impl<A> T for (A,)" (by decide +kernel)
  have indices : c.groups[1]?.map (fun g => (g.entries.map Entry.index, g.lead?.map Entry.index)) =
      some ([1, 2], some 2) := by decide +kernel
  obtain ⟨g, there, both⟩ := Option.map_eq_some_iff.1 indices
  obtain ⟨arrived, led⟩ := Prod.mk.inj both
  obtain ⟨x, rest, entries, index, -⟩ := List.map_eq_cons_iff.1 arrived
  have covering : c.groups[1]?.map (fun g => g.entries.head?.any fun x =>
      (Reading.ofText "impl<Z> T for (Z,)").form?.any fun form => x.content.includes form) =
      some true := by decide +kernel
  have covered : x.content.includes form = true := by
    simpa [there, entries, reading, Reading.form?] using covering
  have hx : .parsed x ∈ g.members := Group.parsed_mem_members.2 (by rw [entries]; simp)
  obtain ⟨n, -, -, -, -, -, -, -, k, le, answer, count⟩ :=
    (covered_signature_opens_no_group texts uniform _ again readingAgain).2 1 rfl
  exact ⟨uniform, ⟨form, g, x, reading, there, hx, index, led, covered,
    (covered_signature_opens_no_group texts uniform _ form reading).1 1 g x there hx covered⟩,
    k, n, answer, le, count⟩

end Clustering

end ImplFamilies
