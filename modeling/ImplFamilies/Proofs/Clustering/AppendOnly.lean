import ImplFamilies.Proofs.Clustering.Record

/-!
The groups only grow. An accepted text becomes the last member of a group, a new one at the end or
one that is there, and only that group can have a new lead, which is then the new member; a refused
text takes up a place of arrival and changes nothing. So a place among the groups stands for the
same group ever after, and the members that it has stay where they are.
-/

namespace ImplFamilies

namespace Clustering

/-- The new member alone is a new group at the end, or it ends the group at some place and leads it
or leaves the lead as it was. -/
inductive Appends (old : List Group) (m : Member) : List Group → Nat → Prop
  | opened (g : Group) (alone : g.members = [m]) : Appends old m (old ++ [g]) old.length
  | joined (before after : List Group) (g g' : Group) (found : old = before ++ g :: after)
      (last : g'.members = g.members ++ [m])
      (led : g'.lead? = g.lead? ∨ g'.lead?.map Member.parsed = some m) :
      Appends old m (before ++ g' :: after) before.length

theorem Step.appends {c : Clustering} {text : String} {groups : List Group} {n : Nat}
    (step : Step c text groups (.ok n)) :
    ∃ m : Member, m.index = c.arrivals ∧ m.text = text ∧ Appends c.groups m groups n := by
  cases step with
  | isolated error reading =>
    exact ⟨.unparsed ⟨c.arrivals, text, error⟩, rfl, rfl, .opened _ rfl⟩
  | opened form reading fresh =>
    exact ⟨.parsed ⟨c.arrivals, text, form⟩, rfl, rfl, .opened _ rfl⟩
  | kept form before after earlier later lead reading found first covered =>
    refine ⟨.parsed ⟨c.arrivals, text, form⟩, rfl, rfl, ?_⟩
    exact .joined before after _ _ found (Group.members_kept ..) (.inl rfl)
  | promoted form before after earlier later lead reading found first wider uncovered =>
    refine ⟨.parsed ⟨c.arrivals, text, form⟩, rfl, rfl, ?_⟩
    exact .joined before after _ _ found (Group.members_promoted ..) (.inr rfl)

theorem push_of_answered_error {c : Clustering} {text : String} {refusal : Refusal}
    (refused : (c.push text).2 = .error refusal) :
    (c.push text).1 = ⟨c.groups, c.arrivals + 1⟩ := by
  have step := push_step text c
  have arrivals := arrivals_push text c
  rw [refused] at step
  generalize (c.push text).1 = after at step arrivals ⊢
  obtain ⟨groups, count⟩ := after
  obtain rfl : count = c.arrivals + 1 := arrivals
  cases step with
  | refused violation reading => rfl

theorem Turn.members_prefix {g g' : Group} (turn : Turn g g') : g.members <+: g'.members := by
  cases turn with
  | same => exact List.prefix_refl _
  | kept earlier later lead entry covered =>
    rw [Group.members_kept]
    exact List.prefix_append _ _
  | promoted earlier later lead entry wider uncovered =>
    rw [Group.members_promoted]
    exact List.prefix_append _ _

theorem members_prefix_pushAll {c : Clustering} {n : Nat} {g : Group} (more : List String)
    (there : c.groups[n]? = some g) :
    ∃ g', (pushAll more c).groups[n]? = some g' ∧ g.members <+: g'.members := by
  induction more generalizing c g with
  | nil => exact ⟨g, there, List.prefix_refl _⟩
  | cons text more ih =>
    obtain ⟨between, there, turn⟩ := (push_step text c).turn there
    obtain ⟨g', there, later⟩ := ih there
    exact ⟨g', by rwa [pushAll_cons], turn.members_prefix.trans later⟩

/-- A text that is not refused adds one member, the last of the group that the answer names; a
refused one changes no group. Whatever comes later, the members of a group stay its first ones. -/
theorem groups_only_grow :
    (∀ (c : Clustering) (text : String),
      (∀ n, (c.push text).2 = .ok n → ∃ m : Member, m.index = c.arrivals ∧ m.text = text ∧
        Appends c.groups m (c.push text).1.groups n) ∧
      ∀ refusal, (c.push text).2 = .error refusal →
        (c.push text).1 = ⟨c.groups, c.arrivals + 1⟩) ∧
    ∀ (texts more : List String) (n : Nat) (g : Group),
      (pushAll texts empty).groups[n]? = some g →
      ∃ g', (pushAll (texts ++ more) empty).groups[n]? = some g' ∧ g.members <+: g'.members := by
  refine ⟨fun c text => ⟨fun n answered => ?_, fun _ => push_of_answered_error⟩, ?_⟩
  · have step := push_step text c
    rw [answered] at step
    exact step.appends
  · intro texts more n g there
    rw [pushAll_append]
    exact members_prefix_pushAll more there

/-- A tuple opens a family, a text that is refused leaves it as it is, a wider tuple comes to lead
it, and a text that is no signature opens a group behind it. -/
theorem family_grows_past_refusal :
    let texts := ["impl<A> T for (A,)"]
    let more := ["impl T for A where U: B", "impl<A, B> T for (A, B)", "impl"]
    let c := pushAll texts empty
    (∃ refusal, (c.push "impl T for A where U: B").2 = .error refusal ∧
      (c.push "impl T for A where U: B").1 = ⟨c.groups, c.arrivals + 1⟩) ∧
    (∃ m : Member, (c.push "impl<A, B> T for (A, B)").2 = .ok 0 ∧ m.index = 1 ∧
      Appends c.groups m (c.push "impl<A, B> T for (A, B)").1.groups 0) ∧
    ∃ g g', c.groups[0]? = some g ∧ (pushAll (texts ++ more) empty).groups[0]? = some g' ∧
      g.members <+: g'.members ∧ g.members.length = 1 ∧ g'.members.length = 2 := by
  intro texts more c
  obtain ⟨pushes, runs⟩ := groups_only_grow
  have refused : ∃ refusal, (c.push "impl T for A where U: B").2 = .error refusal := by
    have unplaced : (c.push "impl T for A where U: B").2.toOption = none := by decide +kernel
    cases answer : (c.push "impl T for A where U: B").2 with
    | error refusal => exact ⟨refusal, rfl⟩
    | ok n => simp [answer, Except.toOption] at unplaced
  have joined : (c.push "impl<A, B> T for (A, B)").2 = .ok 0 := by
    have first : (c.push "impl<A, B> T for (A, B)").2.toOption = some 0 := by decide +kernel
    cases answer : (c.push "impl<A, B> T for (A, B)").2 with
    | error refusal => simp [answer, Except.toOption] at first
    | ok n =>
      rw [answer] at first
      exact congrArg Except.ok (Option.some.inj first)
  have sizes : (c.groups[0]?.map fun g => g.members.length) = some 1 := by decide +kernel
  have sizes' : ((pushAll (texts ++ more) empty).groups[0]?.map fun g => g.members.length) =
      some 2 := by decide +kernel
  obtain ⟨refusal, refused⟩ := refused
  obtain ⟨m, index, -, appends⟩ := (pushes c _).1 0 joined
  obtain ⟨g, there, one⟩ := Option.map_eq_some_iff.1 sizes
  obtain ⟨g', there', before⟩ := runs texts more 0 g there
  rw [there', Option.map_some] at sizes'
  exact ⟨⟨refusal, refused, (pushes c _).2 refusal refused⟩, ⟨m, joined, index, appends⟩, g, g',
    there, there', before, one, Option.some.inj sizes'⟩

end Clustering

end ImplFamilies
