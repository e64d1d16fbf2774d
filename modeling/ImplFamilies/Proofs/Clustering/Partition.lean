import ImplFamilies.Proofs.Clustering.Step
import Mathlib.Data.List.Induction

/-!
The groups are a partition of the texts that were not refused: each of them is a member of one
group, at its place of arrival, and the groups and the members within them stand in the order of
arrival.
-/

namespace ImplFamilies

namespace Group

/-- A family holds its lead and nothing but signatures. -/
theorem lead_mem_members {g : Group} {lead : Entry CanonicalForm} (h : g.lead? = some lead) :
    .parsed lead ∈ g.members ∧ ∀ m ∈ g.members, ∃ entry, m = .parsed entry := by
  obtain ⟨i, -, -, there⟩ := leadPosition?_of_lead h
  refine ⟨List.mem_of_getElem? there, fun m hm => ?_⟩
  cases g with
  | unparsed entry => cases h
  | family earlier other later =>
    obtain ⟨entry, _, rfl⟩ := List.mem_map.1 hm
    exact ⟨entry, rfl⟩

theorem members_of_unled {g : Group} (h : g.lead? = none) :
    ∃ entry, g.members = [.unparsed entry] := by
  cases g with
  | unparsed entry => exact ⟨entry, rfl⟩
  | family earlier lead later => cases h

theorem members_ne_nil (g : Group) : g.members ≠ [] := by
  cases g <;> simp [members]

end Group

namespace Clustering

/-- A text arrived at this place and was not refused. -/
def Accepted (texts : List String) (answers : List (Except Refusal Nat)) (i : Nat)
    (text : String) : Prop :=
  texts[i]? = some text ∧ ∃ n, answers[i]? = some (.ok n)

/-- What the groups of a run hold, given its texts and the answers to them. -/
structure Partitions (texts : List String) (answers : List (Except Refusal Nat))
    (groups : List Group) : Prop where
  /-- The members are the texts that were not refused, at their places of arrival. -/
  member_iff (i : Nat) (text : String) :
    (∃ m ∈ groups.flatMap Group.members, m.index = i ∧ m.text = text) ↔
      Accepted texts answers i text
  once : ((groups.flatMap Group.members).map Member.index).Nodup
  nonempty : ∀ g ∈ groups, g.members ≠ []
  increasing : ∀ g ∈ groups, (g.members.map Member.index).Pairwise (· < ·)
  ordered : groups.Pairwise fun g h =>
    ∀ m ∈ g.members.head?, ∀ n ∈ h.members.head?, m.index < n.index
  led : ∀ g ∈ groups, ∀ lead, g.lead? = some lead →
    .parsed lead ∈ g.members ∧ ∀ m ∈ g.members, ∃ entry, m = .parsed entry
  unled : ∀ g ∈ groups, g.lead? = none → ∃ entry, g.members = [.unparsed entry]

/-- A text that is not refused becomes one member, at the end of a new group or of an old one;
nothing else changes. -/
inductive Grows (old : List Group) (m : Member) : List Group → Prop
  | opened (g : Group) (alone : g.members = [m]) : Grows old m (old ++ [g])
  | joined (before after : List Group) (g g' : Group) (found : old = before ++ g :: after)
      (last : g'.members = g.members ++ [m]) : Grows old m (before ++ g' :: after)

theorem Step.grows {c : Clustering} {text : String} {groups : List Group} {n : Nat}
    (h : Step c text groups (.ok n)) :
    ∃ m : Member, m.index = c.arrivals ∧ m.text = text ∧ Grows c.groups m groups := by
  cases h with
  | isolated error reading =>
    exact ⟨.unparsed ⟨c.arrivals, text, error⟩, rfl, rfl, .opened _ rfl⟩
  | opened form reading fresh =>
    exact ⟨.parsed ⟨c.arrivals, text, form⟩, rfl, rfl, .opened _ rfl⟩
  | kept form before after earlier later lead reading found first covered =>
    exact ⟨.parsed ⟨c.arrivals, text, form⟩, rfl, rfl,
      .joined before after _ _ found (Group.members_of_kept covered)⟩
  | promoted form before after earlier later lead reading found first wider uncovered =>
    exact ⟨.parsed ⟨c.arrivals, text, form⟩, rfl, rfl,
      .joined before after _ _ found (Group.members_of_promoted uncovered)⟩

theorem Grows.members_perm {old groups : List Group} {m : Member} (h : Grows old m groups) :
    (groups.flatMap Group.members).Perm (m :: old.flatMap Group.members) := by
  cases h with
  | opened g alone => simp [alone, List.perm_append_singleton]
  | joined before after g g' found last =>
    simp only [found, List.flatMap_append, List.flatMap_cons, last, List.append_assoc]
    rw [← List.append_assoc, ← List.append_assoc (List.flatMap Group.members before)]
    exact List.perm_middle

theorem Grows.mem {old groups : List Group} {m : Member} (h : Grows old m groups) {g : Group}
    (hg : g ∈ groups) :
    g ∈ old ∨ g.members = [m] ∨ ∃ g₀ ∈ old, g.members = g₀.members ++ [m] := by
  cases h with
  | opened g' alone =>
    rcases List.mem_append.1 hg with hg | hg
    · exact .inl hg
    · exact .inr (.inl (List.mem_singleton.1 hg ▸ alone))
  | joined before after g₀ g' found last =>
    rw [found]
    rcases List.mem_append.1 hg with hg | hg
    · exact .inl (List.mem_append_left _ hg)
    · rcases List.mem_cons.1 hg with rfl | hg
      · exact .inr (.inr ⟨g₀, by simp, last⟩)
      · exact .inl (by simp [hg])

theorem accepted_concat {texts : List String} {replies : List (Except Refusal Nat)}
    (answered : replies.length = texts.length) (text : String) (answer : Except Refusal Nat)
    (i : Nat) (t : String) :
    Accepted (texts ++ [text]) (replies ++ [answer]) i t ↔
      (i = texts.length ∧ text = t ∧ ∃ n, answer = .ok n) ∨ Accepted texts replies i t := by
  rcases Nat.lt_trichotomy i texts.length with hi | rfl | hi
  · have here : i < replies.length := by omega
    have new : i ≠ texts.length := by omega
    simp only [Accepted, List.getElem?_append_left hi, List.getElem?_append_left here, new,
      false_and, false_or]
  · simp [Accepted, ← answered]
  · have past : texts.length ≤ i := by omega
    have new : i ≠ texts.length := by omega
    have none : (texts ++ [text])[i]? = none := by
      rw [List.getElem?_eq_none_iff, List.length_append, List.length_singleton]
      omega
    simp [Accepted, none, List.getElem?_eq_none past, new]

variable {texts : List String} {replies : List (Except Refusal Nat)} {old groups : List Group}

theorem Partitions.index_lt (h : Partitions texts replies old) {g : Group} (hg : g ∈ old)
    {m : Member} (hm : m ∈ g.members) : m.index < texts.length := by
  have placed := (h.member_iff m.index m.text).1
    ⟨m, List.mem_flatMap.2 ⟨g, hg, hm⟩, rfl, rfl⟩
  exact (List.getElem?_eq_some_iff.1 placed.1).1

theorem Partitions.nil : Partitions [] [] [] where
  member_iff i text := by simp [Accepted]
  once := List.nodup_nil
  nonempty g hg := absurd hg List.not_mem_nil
  increasing g hg := absurd hg List.not_mem_nil
  ordered := List.Pairwise.nil
  led g hg := absurd hg List.not_mem_nil
  unled g hg := absurd hg List.not_mem_nil

theorem Partitions.refuse (h : Partitions texts replies old)
    (answered : replies.length = texts.length)
    (text : String) (refusal : Refusal) :
    Partitions (texts ++ [text]) (replies ++ [.error refusal]) old where
  member_iff i t := by
    rw [h.member_iff, accepted_concat answered]
    simp
  once := h.once
  nonempty := h.nonempty
  increasing := h.increasing
  ordered := h.ordered
  led := h.led
  unled := h.unled

theorem Partitions.grow (h : Partitions texts replies old)
    (answered : replies.length = texts.length)
    {m : Member} {n : Nat} (hm : m.index = texts.length) (grows : Grows old m groups) :
    Partitions (texts ++ [m.text]) (replies ++ [.ok n]) groups where
  member_iff i t := by
    have perm := grows.members_perm
    have split : (∃ k ∈ groups.flatMap Group.members, k.index = i ∧ k.text = t) ↔
        (m.index = i ∧ m.text = t) ∨
          ∃ k ∈ old.flatMap Group.members, k.index = i ∧ k.text = t := by
      simp only [perm.mem_iff, List.mem_cons, or_and_right, exists_or, exists_eq_left]
    rw [split, h.member_iff, hm, accepted_concat answered, eq_comm (a := i)]
    simp
  once := by
    have perm := grows.members_perm.map Member.index
    rw [perm.nodup_iff, List.map_cons, List.nodup_cons, hm]
    refine ⟨?_, h.once⟩
    intro hmem
    obtain ⟨k, hk, hi⟩ := List.mem_map.1 hmem
    obtain ⟨g, hg, hkg⟩ := List.mem_flatMap.1 hk
    exact Nat.ne_of_lt (h.index_lt hg hkg) hi
  nonempty g _ := g.members_ne_nil
  increasing g hg := by
    rcases grows.mem hg with hg | alone | ⟨g₀, hg₀, last⟩
    · exact h.increasing g hg
    · simp [alone]
    · rw [last, List.map_append, List.map_singleton, List.pairwise_append]
      refine ⟨h.increasing g₀ hg₀, List.pairwise_singleton .., ?_⟩
      intro i hi j hj
      obtain ⟨k, hk, rfl⟩ := List.mem_map.1 hi
      rw [List.mem_singleton.1 hj, hm]
      exact h.index_lt hg₀ hk
  ordered := by
    cases grows with
    | opened g alone =>
      refine List.pairwise_append.2 ⟨h.ordered, List.pairwise_singleton .., ?_⟩
      intro g₀ hg₀ g' hg' k hk l hl
      obtain rfl := List.mem_singleton.1 hg'
      simp only [alone, List.head?_cons, Option.mem_some_iff] at hl
      rw [← hl, hm]
      exact h.index_lt hg₀ (List.mem_of_mem_head? hk)
    | joined before after g g' found last =>
      have same : g'.members.head? = g.members.head? := by
        rw [last, List.head?_append, Option.or_of_isSome (List.isSome_head?.2 g.members_ne_nil)]
      have ordered := h.ordered
      rw [found] at ordered
      simpa only [List.pairwise_append, List.pairwise_cons, List.forall_mem_cons, same]
        using ordered
  led g _ lead hlead := Group.lead_mem_members hlead
  unled g _ hlead := Group.members_of_unled hlead

theorem partitions_pushAll (texts : List String) :
    Partitions texts (answers empty texts) (pushAll texts empty).groups := by
  induction texts using List.reverseRecOn with
  | nil => exact Partitions.nil
  | append_singleton texts text ih =>
    have answered := length_answers texts empty
    have step := push_step text (pushAll texts empty)
    rw [pushAll_concat, answers_concat]
    cases answer : ((pushAll texts empty).push text).2 with
    | ok n =>
      rw [answer] at step
      obtain ⟨m, hm, rfl, grows⟩ := step.grows
      rw [arrivals_pushAll, show empty.arrivals = 0 from rfl, Nat.zero_add] at hm
      exact ih.grow answered hm grows
    | error refusal =>
      rw [answer] at step
      generalize (push text (pushAll texts empty)).1.groups = groups at step ⊢
      cases step
      exact ih.refuse answered text _

/-- After every run the counter stands at the number of texts, and the groups are a partition of
those that were not refused. -/
theorem groups_partition_arrivals (texts : List String) :
    (pushAll texts empty).arrivals = texts.length ∧
      Partitions texts (answers empty texts) (pushAll texts empty).groups := by
  refine ⟨?_, partitions_pushAll texts⟩
  rw [arrivals_pushAll, show empty.arrivals = 0 from rfl, Nat.zero_add]

end Clustering

end ImplFamilies
