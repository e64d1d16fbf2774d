import ImplFamilies.Proofs.Clustering.Record
import Mathlib.Data.List.Nodup

/-!
Grouping texts that fall into families. When two signatures are related exactly if they belong to
one family, and a family does not mix forms with and without a trait, the groups are the families
in the order in which they first appear, whatever that order is; each is led by a member that
includes all the others.
-/

namespace ImplFamilies

variable {φ : Type} {family : String → φ}

namespace Clustering

/-- The texts fall into families: none is refused, two signatures are related exactly when they
belong to one family, and then both have a trait or neither has. -/
structure Families (family : String → φ) (texts : List String) : Prop where
  readable : Readable texts
  related_iff : ∀ s ∈ texts, ∀ t ∈ texts, ∀ a b, Reading.ofText s = .parsed a →
    Reading.ofText t = .parsed b →
      ((a.includes b = true ∨ b.includes a = true) ↔ family s = family t)
  traits_agree : ∀ s ∈ texts, ∀ t ∈ texts, ∀ a b, Reading.ofText s = .parsed a →
    Reading.ofText t = .parsed b → family s = family t → (a.traitRef = none ↔ b.traitRef = none)

/-- The conditions in a form that can be evaluated. -/
theorem families_iff {texts : List String} : Families family texts ↔
    Readable texts ∧
      ∀ s ∈ texts, ∀ t ∈ texts,
        ∀ a ∈ (Reading.ofText s).form?, ∀ b ∈ (Reading.ofText t).form?,
          ((a.includes b = true ∨ b.includes a = true) ↔ family s = family t) ∧
            (family s = family t → (a.traitRef = none ↔ b.traitRef = none)) := by
  constructor
  · intro h
    refine ⟨h.readable, ?_⟩
    intro s hs t ht a ha b hb
    have readA := Reading.form?_eq_some.1 ha
    have readB := Reading.form?_eq_some.1 hb
    exact ⟨h.related_iff s hs t ht a b readA readB, h.traits_agree s hs t ht a b readA readB⟩
  · rintro ⟨readable, related⟩
    have at_once (s : String) (hs : s ∈ texts) (t : String) (ht : t ∈ texts)
        (a b : CanonicalForm) (ha : Reading.ofText s = .parsed a)
        (hb : Reading.ofText t = .parsed b) :=
      related s hs t ht a (Reading.form?_eq_some.2 ha) b (Reading.form?_eq_some.2 hb)
    constructor
    · exact readable
    · exact fun s hs t ht a b ha hb => (at_once s hs t ht a b ha hb).1
    · exact fun s hs t ht a b ha hb => (at_once s hs t ht a b ha hb).2

instance [DecidableEq φ] (texts : List String) : Decidable (Families family texts) :=
  decidable_of_iff _ families_iff.symm

theorem Families.of_subset {texts more : List String} (h : Families family more)
    (subset : texts ⊆ more) : Families family texts where
  readable t ht := h.readable t (subset ht)
  related_iff s hs t ht := h.related_iff s (subset hs) t (subset ht)
  traits_agree s hs t ht := h.traits_agree s (subset hs) t (subset ht)

end Clustering

variable [DecidableEq φ]

namespace Member

def belongs (family : String → φ) (f : φ) (m : Member) : Bool :=
  m.form?.isSome && family m.text == f

def families (family : String → φ) (ms : List Member) : List φ :=
  ((ms.filter fun m => m.form?.isSome).map fun m => family m.text).eraseDups

theorem families_concat_parsed (ms : List Member) (entry : Entry CanonicalForm) :
    families family (ms ++ [parsed entry]) =
      families family ms ++
        (if family entry.text ∈ families family ms then [] else [family entry.text]) := by
  simp only [families, List.filter_append, List.map_append, List.eraseDups_append,
    List.mem_eraseDups, List.filter_cons, form?_parsed, Option.isSome_some, if_true,
    List.filter_nil, List.map_cons, List.map_nil, text_parsed, List.removeAll]
  split <;> simp_all [List.eraseDups_cons]

theorem families_concat_unparsed (ms : List Member) (entry : Entry SyntaxError) :
    families family (ms ++ [unparsed entry]) = families family ms := by
  simp [families]

theorem mem_families {ms : List Member} {f : φ} :
    f ∈ families family ms ↔ ∃ m ∈ ms, m.belongs family f = true := by
  simp [families, belongs, and_assoc]

theorem filter_belongs_concat_parsed (ms : List Member) (entry : Entry CanonicalForm) (f : φ) :
    (ms ++ [parsed entry]).filter (belongs family f) =
      ms.filter (belongs family f) ++ (if family entry.text = f then [parsed entry] else []) := by
  simp [belongs, List.filter_cons]

theorem filter_belongs_concat_unparsed (ms : List Member) (entry : Entry SyntaxError) (f : φ) :
    (ms ++ [unparsed entry]).filter (belongs family f) = ms.filter (belongs family f) := by
  simp [belongs]

end Member

namespace Clustering

/-- The groups are the families in the order in which they first appear, each with all its members
as they came and led by one that includes them all; every other text is alone. -/
structure GroupedByFamily (family : String → φ) (texts : List String) (groups : List Group) :
    Prop where
  families : (groups.filter fun g => g.lead?.isSome).map Group.members =
    (Member.families family (arrived texts)).map fun f =>
      (arrived texts).filter (Member.belongs family f)
  strays : (groups.filter fun g => g.lead?.isNone).map Group.members =
    ((arrived texts).filter fun m => m.form?.isNone).map fun m => [m]
  lead : ∀ g ∈ groups, ∀ lead, g.lead? = some lead → .parsed lead ∈ g.members ∧
    ∀ m ∈ g.members, ∃ form, m.form? = some form ∧ lead.content.includes form = true

/-- What holds of the groups while the texts come. -/
structure Sorted (family : String → φ) (texts : List String) (groups : List Group) : Prop where
  order : (groups.filterMap Group.lead?).map (fun lead => family lead.text) =
    Member.families family (arrived texts)
  apart : ((groups.filterMap Group.lead?).map (fun lead => family lead.text)).Nodup
  whole : ∀ g ∈ groups, ∀ lead, g.lead? = some lead →
    g.members = (arrived texts).filter (Member.belongs family (family lead.text))
  covered : ∀ g ∈ groups, ∀ lead, g.lead? = some lead → ∀ e, .parsed e ∈ g.members →
    lead.content.includes e.content = true
  strays : (groups.filter fun g => g.lead?.isNone).map Group.members =
    ((arrived texts).filter fun m => m.form?.isNone).map fun m => [m]

theorem arrived_concat_of_unparsed {text : String} {error : SyntaxError}
    (reading : Reading.ofText text = .unparsed error) (texts : List String) :
    arrived (texts ++ [text]) = arrived texts ++ [.unparsed ⟨texts.length, text, error⟩] := by
  rw [arrived_concat, reading]
  rfl

theorem arrived_concat_of_parsed {text : String} {form : CanonicalForm}
    (reading : Reading.ofText text = .parsed form) (texts : List String) :
    arrived (texts ++ [text]) = arrived texts ++ [.parsed ⟨texts.length, text, form⟩] := by
  rw [arrived_concat, reading]
  rfl

variable {texts : List String} {groups : List Group}

theorem Sorted.nil : Sorted family [] [] where
  order := rfl
  apart := List.nodup_nil
  whole _ hg := absurd hg List.not_mem_nil
  covered _ hg := absurd hg List.not_mem_nil
  strays := rfl

theorem Sorted.arrived_of_mem (h : Sorted family texts groups) {g : Group} (hg : g ∈ groups)
    {lead : Entry CanonicalForm} (hlead : g.lead? = some lead) {e : Entry CanonicalForm}
    (he : .parsed e ∈ g.members) :
    e.text ∈ texts ∧ Reading.ofText e.text = .parsed e.content ∧
      family e.text = family lead.text := by
  rw [h.whole g hg lead hlead] at he
  obtain ⟨here, belongs⟩ := List.mem_filter.1 he
  obtain ⟨i, text, there, read⟩ := mem_arrived.1 here
  obtain ⟨rfl, rfl, reading⟩ := Reading.member?_eq_parsed.1 read
  exact ⟨List.mem_of_getElem? there, reading, by simpa [Member.belongs] using belongs⟩

theorem Sorted.isolate (h : Sorted family texts groups) {text : String} {error : SyntaxError}
    (reading : Reading.ofText text = .unparsed error) :
    Sorted family (texts ++ [text]) (groups ++ [.unparsed ⟨texts.length, text, error⟩]) := by
  have led {g : Group} {lead : Entry CanonicalForm} (hlead : g.lead? = some lead)
      (hg : g ∈ groups ++ [.unparsed ⟨texts.length, text, error⟩]) : g ∈ groups := by
    rcases List.mem_append.1 hg with hg | hg
    · exact hg
    · obtain rfl := List.mem_singleton.1 hg
      cases hlead
  have leads : (groups ++ [Group.unparsed ⟨texts.length, text, error⟩]).filterMap Group.lead? =
      groups.filterMap Group.lead? := by
    simp
  have came := arrived_concat_of_unparsed reading texts
  constructor
  · rw [leads, came, Member.families_concat_unparsed, h.order]
  · rw [leads]
    exact h.apart
  · intro g hg lead hlead
    rw [h.whole g (led hlead hg) lead hlead, came, Member.filter_belongs_concat_unparsed]
  · exact fun g hg lead hlead => h.covered g (led hlead hg) lead hlead
  · rw [came]
    simp [h.strays, List.filter_cons]

theorem Sorted.opened (h : Sorted family texts groups) {text : String} {form : CanonicalForm}
    (reading : Reading.ofText text = .parsed form)
    (first : ∀ g ∈ groups, ∀ lead, g.lead? = some lead → family lead.text ≠ family text) :
    Sorted family (texts ++ [text]) (groups ++ [.family [] ⟨texts.length, text, form⟩ []]) := by
  have new : family text ∉ (groups.filterMap Group.lead?).map (fun lead => family lead.text) := by
    intro hm
    obtain ⟨lead, hlead, same⟩ := List.mem_map.1 hm
    obtain ⟨g, hg, hlead⟩ := List.mem_filterMap.1 hlead
    exact first g hg lead hlead same
  have leads : ((groups ++ [Group.family [] ⟨texts.length, text, form⟩ []]).filterMap
      Group.lead?).map (fun lead => family lead.text) =
        (groups.filterMap Group.lead?).map (fun lead => family lead.text) ++ [family text] := by
    simp
  have came := arrived_concat_of_parsed reading texts
  constructor
  · rw [leads, came, Member.families_concat_parsed, ← h.order, if_neg new]
  · rw [leads]
    refine List.nodup_append.2 ⟨h.apart, List.pairwise_singleton .., ?_⟩
    intro f hf f' hf' same
    obtain rfl := List.mem_singleton.1 hf'
    exact new (same ▸ hf)
  · intro g hg lead hlead
    rw [came, Member.filter_belongs_concat_parsed]
    rcases List.mem_append.1 hg with hg | hg
    · rw [if_neg (first g hg lead hlead).symm, List.append_nil, h.whole g hg lead hlead]
    · obtain rfl := List.mem_singleton.1 hg
      obtain rfl := Option.some.inj hlead
      have none : (arrived texts).filter (Member.belongs family (family text)) = [] := by
        rw [List.filter_eq_nil_iff]
        intro m hm belongs
        rw [h.order] at new
        exact new (Member.mem_families.2 ⟨m, hm, belongs⟩)
      rw [if_pos rfl, none]
      rfl
  · intro g hg lead hlead e he
    rcases List.mem_append.1 hg with hg | hg
    · exact h.covered g hg lead hlead e he
    · obtain rfl := List.mem_singleton.1 hg
      obtain rfl := Option.some.inj hlead
      obtain rfl : e = ⟨texts.length, text, form⟩ := by simpa using he
      exact CanonicalForm.includes_refl form
  · rw [came]
    simp [h.strays]

/-- A signature that joins the group of its family, whoever leads it then. -/
theorem Sorted.joined {before after : List Group} {g g' : Group}
    (h : Sorted family texts (before ++ g :: after)) {text : String} {form : CanonicalForm}
    (reading : Reading.ofText text = .parsed form) {lead lead' : Entry CanonicalForm}
    (hlead : g.lead? = some lead) (hlead' : g'.lead? = some lead')
    (same : family lead.text = family text) (same' : family lead'.text = family text)
    (grown : g'.members = g.members ++ [.parsed ⟨texts.length, text, form⟩])
    (covered : ∀ e, .parsed e ∈ g'.members → lead'.content.includes e.content = true) :
    Sorted family (texts ++ [text]) (before ++ g' :: after) := by
  have leads : ((before ++ g' :: after).filterMap Group.lead?).map (fun l => family l.text) =
      ((before ++ g :: after).filterMap Group.lead?).map (fun l => family l.text) := by
    simp [hlead, hlead', same, same']
  have other {k : Group} (hk : k ∈ before ++ g' :: after) :
      k = g' ∨ k ∈ before ++ g :: after ∧
        ∀ l, k.lead? = some l → family l.text ≠ family text := by
    have apart := h.apart
    rw [List.filterMap_append, List.filterMap_cons_some hlead, List.map_append, List.map_cons,
      List.nodup_middle, List.nodup_cons, ← List.map_append, ← List.filterMap_append, same] at apart
    have rest (there : k ∈ before ++ after) :
        ∀ l, k.lead? = some l → family l.text ≠ family text := by
      intro l hl again
      apply apart.1
      rw [← again]
      exact List.mem_map_of_mem (List.mem_filterMap.2 ⟨k, there, hl⟩)
    simp only [List.mem_append, List.mem_cons] at hk rest ⊢
    tauto
  have came := arrived_concat_of_parsed reading texts
  constructor
  · have known : family text ∈ Member.families family (arrived texts) := by
      rw [← h.order, ← same]
      exact List.mem_map_of_mem (List.mem_filterMap.2 ⟨g, by simp, hlead⟩)
    rw [leads, h.order, came, Member.families_concat_parsed, if_pos known, List.append_nil]
  · rw [leads]
    exact h.apart
  · intro k hk l hl
    rw [came, Member.filter_belongs_concat_parsed]
    rcases other hk with rfl | ⟨hk, apart⟩
    · obtain rfl := Option.some.inj (hl.symm.trans hlead')
      rw [grown, if_pos same'.symm, same', ← same, h.whole g (by simp) lead hlead]
    · rw [if_neg (apart l hl).symm, List.append_nil, h.whole k hk l hl]
  · intro k hk l hl
    rcases other hk with rfl | ⟨hk, apart⟩
    · obtain rfl := Option.some.inj (hl.symm.trans hlead')
      exact covered
    · exact h.covered k hk l hl
  · rw [came]
    simpa [hlead, hlead'] using h.strays

/-- A lead is related to a signature exactly when it belongs to the same family. -/
theorem Sorted.related_iff (h : Sorted family texts groups) {text : String}
    (fit : Families family (texts ++ [text])) {form : CanonicalForm}
    (reading : Reading.ofText text = .parsed form) {g : Group} (hg : g ∈ groups)
    {lead : Entry CanonicalForm} (hlead : g.lead? = some lead) :
    ((lead.content.includes form = true ∨ form.includes lead.content = true) ↔
        family lead.text = family text) ∧
      (family lead.text = family text → (lead.content.traitRef = none ↔ form.traitRef = none)) := by
  obtain ⟨here, leadReading, -⟩ := h.arrived_of_mem hg hlead (Group.lead_mem_members hlead).1
  have here : lead.text ∈ texts ++ [text] := List.mem_append_left _ here
  have last : text ∈ texts ++ [text] := by simp
  exact ⟨fit.related_iff _ here _ last _ _ leadReading reading,
    fit.traits_agree _ here _ last _ _ leadReading reading⟩

theorem Sorted.step {c : Clustering} {text : String} {answer : Except Refusal Nat}
    (step : Step c text groups answer) (counted : c.arrivals = texts.length)
    (h : Sorted family texts c.groups) (fit : Families family (texts ++ [text])) :
    Sorted family (texts ++ [text]) groups := by
  cases step with
  | refused violation reading =>
    exact absurd reading (fit.readable text (by simp) violation)
  | isolated error reading =>
    rw [counted]
    exact h.isolate reading
  | opened form reading fresh =>
    rw [counted]
    apply h.opened reading
    intro g hg lead hlead same
    have related := (h.related_iff fit reading hg hlead).1.2 same
    have accepts : g.accepts form = true := by
      cases g with
      | unparsed entry => cases hlead
      | family earlier first later =>
        obtain rfl := Option.some.inj hlead
        exact accepts_iff.2 ⟨earlier, first, later, rfl, related⟩
    rw [fresh g hg] at accepts
    cases accepts
  | kept form before after earlier later lead reading found first covered =>
    rw [found] at h
    have here : Group.family earlier lead later ∈
        before ++ Group.family earlier lead later :: after := by simp
    have same := (h.related_iff fit reading here (Group.lead?_family ..)).1.1 (.inl covered)
    rw [counted]
    apply h.joined reading (Group.lead?_family ..) (Group.lead?_family ..) same same
      (Group.members_kept ..)
    intro e he
    rcases Group.parsed_mem_of_grown (Group.members_kept ..) he with held | rfl
    · exact h.covered _ here lead rfl e held
    · exact covered
  | promoted form before after earlier later lead reading found first wider uncovered =>
    rw [found] at h
    have here : Group.family earlier lead later ∈
        before ++ Group.family earlier lead later :: after := by simp
    obtain ⟨related, traits⟩ := h.related_iff fit reading here (Group.lead?_family ..)
    have same := related.1 (.inr wider)
    rw [counted]
    apply h.joined reading (Group.lead?_family ..) (Group.lead?_family ..) same rfl
      (Group.members_promoted ..)
    intro e he
    rcases Group.parsed_mem_of_grown (Group.members_promoted ..) he with held | rfl
    · have below := h.covered _ here lead rfl e held
      exact CanonicalForm.includes_trans (fun inherent => .inl ((traits same).1 inherent))
        wider below
    · exact CanonicalForm.includes_refl form

theorem sorted_pushAll (fit : Families family texts) :
    Sorted family texts (pushAll texts empty).groups := by
  induction texts using List.reverseRecOn with
  | nil => exact Sorted.nil
  | append_singleton texts text ih =>
    have before := ih (fit.of_subset (List.subset_append_left ..))
    rw [pushAll_concat]
    exact before.step (push_step text _) (arrivals_pushAll_empty texts) fit

theorem Sorted.lead_includes (h : Sorted family texts groups) {g : Group} (hg : g ∈ groups)
    {lead : Entry CanonicalForm} (hlead : g.lead? = some lead) {text : String}
    {form : CanonicalForm} (here : text ∈ texts) (reading : Reading.ofText text = .parsed form)
    (same : family text = family lead.text) : lead.content.includes form = true := by
  obtain ⟨i, there⟩ := List.mem_iff_getElem?.1 here
  apply h.covered g hg lead hlead ⟨i, text, form⟩
  rw [h.whole g hg lead hlead, List.mem_filter]
  constructor
  · exact mem_arrived.2 ⟨i, text, there, Reading.member?_eq_parsed.2 ⟨rfl, rfl, reading⟩⟩
  · simp [Member.belongs, same]

theorem map_members_of_whole {f : Entry CanonicalForm → List Member} {gs : List Group}
    (whole : ∀ g ∈ gs, ∀ lead, g.lead? = some lead → g.members = f lead) :
    (gs.filter fun g => g.lead?.isSome).map Group.members = (gs.filterMap Group.lead?).map f := by
  induction gs with
  | nil => rfl
  | cons g gs ih =>
    obtain ⟨first, rest⟩ := List.forall_mem_cons.1 whole
    cases hlead : g.lead? with
    | none => simpa [hlead] using ih rest
    | some lead => simpa [hlead, first lead hlead] using ih rest

theorem Sorted.groupedByFamily (h : Sorted family texts groups) :
    GroupedByFamily family texts groups where
  families := by
    rw [map_members_of_whole h.whole, ← h.order, List.map_map]
    rfl
  strays := h.strays
  lead g hg lead hlead := by
    obtain ⟨here, parsed⟩ := Group.lead_mem_members hlead
    refine ⟨here, fun m hm => ?_⟩
    obtain ⟨e, rfl⟩ := parsed m hm
    exact ⟨e.content, rfl, h.covered g hg lead hlead e hm⟩

/-- Whatever the order in which texts that fall into families come, none is refused, the groups
are the families in the order of their first members, and a lead includes its whole family. The
leads of one family under two orders include each other. -/
theorem families_whatever_the_order (fit : Families family texts) {one two : List String}
    (first : one.Perm texts) (second : two.Perm texts) :
    ∃ gs hs, Group.ofTexts one = .ok gs ∧ Group.ofTexts two = .ok hs ∧
      GroupedByFamily family one gs ∧ GroupedByFamily family two hs ∧
      ∀ g ∈ gs, ∀ h ∈ hs, ∀ a b, g.lead? = some a → h.lead? = some b →
        family a.text = family b.text →
          a.content.includes b.content = true ∧ b.content.includes a.content = true := by
  have fitOne := fit.of_subset first.subset
  have fitTwo := fit.of_subset second.subset
  have sortedOne := sorted_pushAll fitOne
  have sortedTwo := sorted_pushAll fitTwo
  refine ⟨_, _, ofTexts_of_readable fitOne.readable, ofTexts_of_readable fitTwo.readable,
    sortedOne.groupedByFamily, sortedTwo.groupedByFamily, ?_⟩
  intro g hg h hh a b ha hb same
  obtain ⟨hereA, readA, -⟩ := sortedOne.arrived_of_mem hg ha (Group.lead_mem_members ha).1
  obtain ⟨hereB, readB, -⟩ := sortedTwo.arrived_of_mem hh hb (Group.lead_mem_members hb).1
  have perm : one.Perm two := first.trans second.symm
  exact ⟨sortedOne.lead_includes hg ha (perm.mem_iff.2 hereB) readB same.symm,
    sortedTwo.lead_includes hh hb (perm.mem_iff.1 hereA) readA same⟩

/-- Two families and a stray text, taken forwards and backwards. -/
theorem families_forwards_and_backwards :
    let family := fun text => decide (text ∈ ["impl<A> T for (A,)", "impl<A, B> T for (A, B)"])
    let texts := ["impl<A> T for (A,)", "no signature", "impl<A> U for (A,)",
      "impl<A, B> T for (A, B)"]
    let outlines := fun gs : List Group =>
      ((gs.filter fun g => g.lead?.isSome).map Group.members).map (List.map Member.index)
    Families family texts ∧ texts.reverse.Perm texts ∧
      ∃ gs hs, Group.ofTexts texts = .ok gs ∧ Group.ofTexts texts.reverse = .ok hs ∧
        outlines gs = [[0, 3], [2]] ∧ outlines hs = [[0, 3], [1]] ∧
        ∀ g ∈ gs, ∀ h ∈ hs, ∀ a b, g.lead? = some a → h.lead? = some b →
          family a.text = family b.text →
            a.content.includes b.content = true ∧ b.content.includes a.content = true := by
  intro family texts outlines
  have fit : Families family texts := by decide +kernel
  have backwards : texts.reverse.Perm texts := List.reverse_perm texts
  obtain ⟨gs, hs, onward, back, grouped, groupedBack, leads⟩ :=
    families_whatever_the_order fit (.refl texts) backwards
  refine ⟨fit, backwards, gs, hs, onward, back, ?_, ?_, leads⟩
  · simp only [outlines, grouped.families]
    decide +kernel
  · simp only [outlines, groupedBack.families]
    decide +kernel

end Clustering

end ImplFamilies
