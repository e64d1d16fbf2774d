import ImplFamilies.Family.Clustering

/-!
What one arriving text can do to the groups. There are five outcomes: the text is refused, it is
no signature and stays alone, it opens a family, it joins the first family that accepts it, or it
joins that family and leads it from then on. Everything that holds along a run is proved from this
list of outcomes.
-/

namespace ImplFamilies

namespace Clustering

/-- The outcomes of pushing a text: the groups afterwards, and the answer. -/
inductive Step (c : Clustering) (text : String) : List Group → Except Refusal Nat → Prop
  | refused (violation : Violation) (reading : Reading.ofText text = .refused violation) :
      Step c text c.groups (.error ⟨text, violation⟩)
  | isolated (error : SyntaxError) (reading : Reading.ofText text = .unparsed error) :
      Step c text (c.groups ++ [.unparsed ⟨c.arrivals, text, error⟩]) (.ok c.groups.length)
  | opened (form : CanonicalForm) (reading : Reading.ofText text = .parsed form)
      (fresh : ∀ g ∈ c.groups, g.accepts form = false) :
      Step c text (c.groups ++ [.family [] ⟨c.arrivals, text, form⟩ []]) (.ok c.groups.length)
  | kept (form : CanonicalForm) (before after : List Group)
      (earlier later : List (Entry CanonicalForm)) (lead : Entry CanonicalForm)
      (reading : Reading.ofText text = .parsed form)
      (found : c.groups = before ++ .family earlier lead later :: after)
      (first : ∀ g ∈ before, g.accepts form = false)
      (covered : lead.content.includes form = true) :
      Step c text
        (before ++ .family earlier lead (later ++ [⟨c.arrivals, text, form⟩]) :: after)
        (.ok before.length)
  | promoted (form : CanonicalForm) (before after : List Group)
      (earlier later : List (Entry CanonicalForm)) (lead : Entry CanonicalForm)
      (reading : Reading.ofText text = .parsed form)
      (found : c.groups = before ++ .family earlier lead later :: after)
      (first : ∀ g ∈ before, g.accepts form = false)
      (wider : form.includes lead.content = true)
      (uncovered : lead.content.includes form = false) :
      Step c text
        (before ++ .family (earlier ++ lead :: later) ⟨c.arrivals, text, form⟩ [] :: after)
        (.ok before.length)

theorem place_eq_of_fresh {entry : Entry CanonicalForm} {groups : List Group}
    (fresh : ∀ g ∈ groups, g.accepts entry.content = false) :
    place entry groups = groups ++ [.family [] entry []] := by
  induction groups with
  | nil => rfl
  | cons g gs ih =>
    have hg : g.accepts entry.content = false := fresh g (List.mem_cons_self ..)
    simp only [place, hg, Bool.false_eq_true, if_false, List.cons_append]
    rw [ih fun h hm => fresh h (List.mem_cons_of_mem g hm)]

theorem place_eq_of_accepts {entry : Entry CanonicalForm} {before after : List Group} {g : Group}
    (first : ∀ h ∈ before, h.accepts entry.content = false)
    (accepts : g.accepts entry.content = true) :
    place entry (before ++ g :: after) = before ++ g.join entry :: after := by
  induction before with
  | nil => simp [place, accepts]
  | cons h hs ih =>
    have hh : h.accepts entry.content = false := first h (List.mem_cons_self ..)
    simp only [List.cons_append, place, hh, Bool.false_eq_true, if_false]
    rw [ih fun k hm => first k (List.mem_cons_of_mem h hm)]

theorem slot_eq_of_fresh {form : CanonicalForm} {groups : List Group}
    (fresh : ∀ g ∈ groups, g.accepts form = false) : slot form groups = groups.length := by
  simp only [slot, List.findIdx_eq_length]
  exact fresh

theorem slot_eq_of_accepts {form : CanonicalForm} {before after : List Group} {g : Group}
    (first : ∀ h ∈ before, h.accepts form = false) (accepts : g.accepts form = true) :
    slot form (before ++ g :: after) = before.length := by
  rw [slot, List.findIdx_append, if_neg]
  · rw [List.findIdx_cons, accepts, cond_true, Nat.zero_add]
  · simp only [List.findIdx_lt_length, not_exists, not_and, Bool.not_eq_true]
    exact first

theorem fresh_or_first (form : CanonicalForm) (groups : List Group) :
    (∀ g ∈ groups, g.accepts form = false) ∨
      ∃ before g after, groups = before ++ g :: after ∧
        (∀ h ∈ before, h.accepts form = false) ∧ g.accepts form = true := by
  induction groups with
  | nil => exact .inl fun g hg => absurd hg List.not_mem_nil
  | cons g gs ih =>
    cases hg : g.accepts form with
    | true => exact .inr ⟨[], g, gs, rfl, fun h hm => absurd hm List.not_mem_nil, hg⟩
    | false =>
      rcases ih with fresh | ⟨before, k, after, rfl, first, accepts⟩
      · exact .inl (List.forall_mem_cons.2 ⟨hg, fresh⟩)
      · exact .inr ⟨g :: before, k, after, rfl, List.forall_mem_cons.2 ⟨hg, first⟩, accepts⟩

/-- Only a family accepts a form, and its lead is then related to the form. -/
theorem accepts_iff {form : CanonicalForm} {g : Group} :
    g.accepts form = true ↔ ∃ earlier lead later, g = .family earlier lead later ∧
      (lead.content.includes form = true ∨ form.includes lead.content = true) := by
  cases g <;> simp [Group.accepts, and_assoc]

/- The reading is generalised before it is replaced: left in place, the whole grammar is unfolded
when the match on it is checked. -/

theorem push_of_refused {text : String} {violation : Violation} (c : Clustering)
    (reading : Reading.ofText text = .refused violation) :
    c.push text = (⟨c.groups, c.arrivals + 1⟩, .error ⟨text, violation⟩) := by
  unfold push
  generalize Reading.ofText text = r at reading ⊢
  subst reading
  rfl

theorem push_of_unparsed {text : String} {error : SyntaxError} (c : Clustering)
    (reading : Reading.ofText text = .unparsed error) :
    c.push text = (⟨c.groups ++ [.unparsed ⟨c.arrivals, text, error⟩], c.arrivals + 1⟩,
      .ok c.groups.length) := by
  unfold push
  generalize Reading.ofText text = r at reading ⊢
  subst reading
  rfl

theorem push_of_parsed {text : String} {form : CanonicalForm} (c : Clustering)
    (reading : Reading.ofText text = .parsed form) :
    c.push text = (⟨place ⟨c.arrivals, text, form⟩ c.groups, c.arrivals + 1⟩,
      .ok (slot form c.groups)) := by
  unfold push
  generalize Reading.ofText text = r at reading ⊢
  subst reading
  rfl

theorem arrivals_push (text : String) (c : Clustering) :
    (c.push text).1.arrivals = c.arrivals + 1 := by
  cases reading : Reading.ofText text with
  | unparsed error => rw [push_of_unparsed c reading]
  | refused violation => rw [push_of_refused c reading]
  | parsed form => rw [push_of_parsed c reading]

theorem push_step (text : String) (c : Clustering) :
    Step c text (c.push text).1.groups (c.push text).2 := by
  cases reading : Reading.ofText text with
  | unparsed error =>
    rw [push_of_unparsed c reading]
    exact .isolated error reading
  | refused violation =>
    rw [push_of_refused c reading]
    exact .refused violation reading
  | parsed form =>
    rw [push_of_parsed c reading]
    rcases fresh_or_first form c.groups with fresh | ⟨before, g, after, found, first, accepts⟩
    · rw [place_eq_of_fresh fresh, slot_eq_of_fresh fresh]
      exact .opened form reading fresh
    · obtain ⟨earlier, lead, later, rfl, related⟩ := accepts_iff.1 accepts
      rw [found, place_eq_of_accepts first accepts, slot_eq_of_accepts first accepts]
      cases covered : lead.content.includes form with
      | true =>
        rw [Group.join_of_covered covered]
        exact .kept form before after earlier later lead reading found first covered
      | false =>
        rw [Group.join_of_uncovered covered]
        have wider : form.includes lead.content = true := by simpa [covered] using related
        exact .promoted form before after earlier later lead reading found first wider covered

/-- What a step makes of a group that is there already. -/
inductive Turn : Group → Group → Prop
  | same (g : Group) : Turn g g
  | kept (earlier later : List (Entry CanonicalForm)) (lead entry : Entry CanonicalForm)
      (covered : lead.content.includes entry.content = true) :
      Turn (.family earlier lead later) (.family earlier lead (later ++ [entry]))
  | promoted (earlier later : List (Entry CanonicalForm)) (lead entry : Entry CanonicalForm)
      (wider : entry.content.includes lead.content = true)
      (uncovered : lead.content.includes entry.content = false) :
      Turn (.family earlier lead later) (.family (earlier ++ lead :: later) entry [])

theorem getElem?_replace {before after : List Group} {g g' : Group} {n : Nat} {h : Group}
    (turn : Turn g g') (there : (before ++ g :: after)[n]? = some h) :
    ∃ h', (before ++ g' :: after)[n]? = some h' ∧ Turn h h' := by
  rcases Nat.lt_trichotomy n before.length with hn | rfl | hn
  · rw [List.getElem?_append_left hn] at there ⊢
    exact ⟨h, there, .same h⟩
  · simp only [List.getElem?_append_right (Nat.le_refl _),
      Nat.sub_self, List.getElem?_cons_zero, Option.some.injEq] at there ⊢
    exact ⟨g', rfl, there ▸ turn⟩
  · obtain ⟨k, rfl⟩ : ∃ k, n = before.length + (k + 1) := ⟨n - before.length - 1, by omega⟩
    rw [List.getElem?_append_right (by omega), Nat.add_sub_cancel_left,
      List.getElem?_cons_succ] at there ⊢
    exact ⟨h, there, .same h⟩

theorem Step.turn {c : Clustering} {text : String} {groups : List Group}
    {answer : Except Refusal Nat} (step : Step c text groups answer) {n : Nat} {g : Group}
    (there : c.groups[n]? = some g) : ∃ g', groups[n]? = some g' ∧ Turn g g' := by
  have here : n < c.groups.length := (List.getElem?_eq_some_iff.1 there).1
  cases step with
  | refused violation reading => exact ⟨g, there, .same g⟩
  | isolated error reading => exact ⟨g, by rwa [List.getElem?_append_left here], .same g⟩
  | opened form reading fresh => exact ⟨g, by rwa [List.getElem?_append_left here], .same g⟩
  | kept form before after earlier later lead reading found first covered =>
    exact getElem?_replace (.kept earlier later lead _ covered) (found ▸ there)
  | promoted form before after earlier later lead reading found first wider uncovered =>
    exact getElem?_replace (.promoted earlier later lead _ wider uncovered) (found ▸ there)

theorem Step.new {c : Clustering} {text : String} {groups : List Group}
    {answer : Except Refusal Nat} (step : Step c text groups answer) {n : Nat} {g : Group}
    (there : groups[n]? = some g) (missing : c.groups[n]? = none) :
    (∃ entry, g = .unparsed entry) ∨ ∃ entry, g = .family [] entry [] := by
  have past : c.groups.length ≤ n := List.getElem?_eq_none_iff.1 missing
  have last {g' : Group} (h : (c.groups ++ [g'])[n]? = some g) : g = g' := by
    rw [List.getElem?_append_right past] at h
    exact List.mem_singleton.1 (List.mem_of_getElem? h)
  cases step with
  | refused violation reading =>
    rw [missing] at there
    cases there
  | isolated error reading => exact .inl ⟨_, last there⟩
  | opened form reading fresh => exact .inr ⟨_, last there⟩
  | kept form before after earlier later lead reading found first covered =>
    have short := (List.getElem?_eq_some_iff.1 there).1
    simp only [found, List.length_append, List.length_cons] at past short
    omega
  | promoted form before after earlier later lead reading found first wider uncovered =>
    have short := (List.getElem?_eq_some_iff.1 there).1
    simp only [found, List.length_append, List.length_cons] at past short
    omega

theorem getElem?_of_replaced {before after : List Group} {g g' : Group} {n : Nat} {h : Group}
    (there : (before ++ g' :: after)[n]? = some h) :
    (before ++ g :: after)[n]? = some h ∨ (before ++ g :: after)[n]? = some g ∧ h = g' := by
  rcases Nat.lt_trichotomy n before.length with hn | rfl | hn
  · rw [List.getElem?_append_left hn] at there ⊢
    exact .inl there
  · simp only [List.getElem?_append_right (Nat.le_refl _),
      Nat.sub_self, List.getElem?_cons_zero, Option.some.injEq] at there ⊢
    exact .inr ⟨trivial, there.symm⟩
  · obtain ⟨k, rfl⟩ : ∃ k, n = before.length + (k + 1) := ⟨n - before.length - 1, by omega⟩
    rw [List.getElem?_append_right (by omega), Nat.add_sub_cancel_left,
      List.getElem?_cons_succ] at there ⊢
    exact .inl there

/-- A signature in a group after a step was in the group of that place before, or is the one that
came; the latter is related to the lead that it met there. -/
theorem Step.newcomer {c : Clustering} {text : String} {groups : List Group}
    {answer : Except Refusal Nat} (step : Step c text groups answer) {n : Nat} {g' : Group}
    (there : groups[n]? = some g') {entry : Entry CanonicalForm}
    (member : .parsed entry ∈ g'.members) :
    (∃ g, c.groups[n]? = some g ∧ .parsed entry ∈ g.members) ∨
      entry.index = c.arrivals ∧ ∀ g lead, c.groups[n]? = some g → g.lead? = some lead →
        lead.content.includes entry.content = true ∨
          entry.content.includes lead.content = true := by
  have last {g : Group} (h : (c.groups ++ [g])[n]? = some g') :
      c.groups[n]? = some g' ∨ c.groups[n]? = none ∧ g' = g := by
    rcases Nat.lt_or_ge n c.groups.length with hn | hn
    · rw [List.getElem?_append_left hn] at h
      exact .inl h
    · rw [List.getElem?_append_right hn] at h
      exact .inr ⟨List.getElem?_eq_none hn, List.mem_singleton.1 (List.mem_of_getElem? h)⟩
  have joined {form : CanonicalForm} {before after : List Group} {g₁ : Group}
      {earlier later : List (Entry CanonicalForm)} {lead : Entry CanonicalForm}
      (found : c.groups = before ++ .family earlier lead later :: after)
      (grown : g₁.members =
        (Group.family earlier lead later).members ++ [.parsed ⟨c.arrivals, text, form⟩])
      (related : lead.content.includes form = true ∨ form.includes lead.content = true)
      (h : (before ++ g₁ :: after)[n]? = some g') :
      (∃ g, c.groups[n]? = some g ∧ .parsed entry ∈ g.members) ∨
        entry.index = c.arrivals ∧ ∀ g lead, c.groups[n]? = some g → g.lead? = some lead →
          lead.content.includes entry.content = true ∨
            entry.content.includes lead.content = true := by
    rw [found]
    rcases getElem?_of_replaced (g := .family earlier lead later) h with old | ⟨old, rfl⟩
    · exact .inl ⟨g', old, member⟩
    · rw [grown] at member
      rcases List.mem_append.1 member with held | new
      · exact .inl ⟨_, old, held⟩
      · obtain rfl := Member.parsed.inj (List.mem_singleton.1 new)
        refine .inr ⟨rfl, fun g lead' hg hlead => ?_⟩
        obtain rfl := Option.some.inj (hg.symm.trans old)
        obtain rfl := Option.some.inj hlead
        exact related
  cases step with
  | refused violation reading => exact .inl ⟨g', there, member⟩
  | isolated error reading =>
    rcases last there with old | ⟨_, rfl⟩
    · exact .inl ⟨g', old, member⟩
    · simp [Group.members] at member
  | opened form reading fresh =>
    rcases last there with old | ⟨missing, rfl⟩
    · exact .inl ⟨g', old, member⟩
    · have new : entry = ⟨c.arrivals, text, form⟩ := by simpa [Group.members] using member
      refine .inr ⟨by rw [new], fun g lead hg => ?_⟩
      rw [missing] at hg
      cases hg
  | kept form before after earlier later lead reading found first covered =>
    exact joined found (Group.members_of_kept covered) (.inl covered) there
  | promoted form before after earlier later lead reading found first wider uncovered =>
    exact joined found (Group.members_of_promoted uncovered) (.inr wider) there

/- Runs: a list of texts, pushed one after the other whatever becomes of each. -/

def answers : Clustering → List String → List (Except Refusal Nat)
  | _, [] => []
  | c, text :: texts => (c.push text).2 :: answers (c.push text).1 texts

@[simp] theorem pushAll_nil (c : Clustering) : pushAll [] c = c := rfl

@[simp] theorem pushAll_cons (text : String) (texts : List String) (c : Clustering) :
    pushAll (text :: texts) c = pushAll texts (c.push text).1 := by
  simp only [pushAll, List.foldl_cons]

theorem pushAll_append (texts more : List String) (c : Clustering) :
    pushAll (texts ++ more) c = pushAll more (pushAll texts c) := by
  simp only [pushAll, List.foldl_append]

theorem pushAll_concat (texts : List String) (text : String) (c : Clustering) :
    pushAll (texts ++ [text]) c = ((pushAll texts c).push text).1 := by
  rw [pushAll_append, pushAll_cons, pushAll_nil]

@[simp] theorem length_answers (texts : List String) (c : Clustering) :
    (answers c texts).length = texts.length := by
  induction texts generalizing c with
  | nil => rfl
  | cons text texts ih => simp [answers, ih]

theorem answers_concat (texts : List String) (text : String) (c : Clustering) :
    answers c (texts ++ [text]) = answers c texts ++ [((pushAll texts c).push text).2] := by
  induction texts generalizing c with
  | nil => rfl
  | cons t texts ih => simp only [List.cons_append, answers, ih, pushAll_cons]

theorem arrivals_pushAll (texts : List String) (c : Clustering) :
    (pushAll texts c).arrivals = c.arrivals + texts.length := by
  induction texts generalizing c with
  | nil => rfl
  | cons text texts ih =>
    rw [pushAll_cons, ih, arrivals_push, List.length_cons]
    omega

end Clustering

end ImplFamilies
