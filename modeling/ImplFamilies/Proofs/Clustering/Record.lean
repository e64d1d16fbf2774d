import ImplFamilies.Proofs.Clustering.Domination
import ImplFamilies.Proofs.Clustering.Partition

/-!
What the groups keep of the texts of a run: up to order, their members are what reading the texts
one after the other gives. A run in which no text is refused comes to the same groups whether or
not it would stop at a refusal.
-/

namespace ImplFamilies

namespace Reading

def member? (index : Nat) (text : String) : Reading → Option Member
  | .parsed form => some (.parsed ⟨index, text, form⟩)
  | .unparsed error => some (.unparsed ⟨index, text, error⟩)
  | .refused _ => none

def form? : Reading → Option CanonicalForm
  | .parsed form => some form
  | _ => none

def violation? : Reading → Option Violation
  | .refused violation => some violation
  | _ => none

theorem form?_eq_some {r : Reading} {form : CanonicalForm} :
    r.form? = some form ↔ r = .parsed form := by
  cases r <;> simp [form?]

theorem violation?_eq_some {r : Reading} {violation : Violation} :
    r.violation? = some violation ↔ r = .refused violation := by
  cases r <;> simp [violation?]

theorem violation?_eq_none {r : Reading} :
    r.violation? = none ↔ ∀ violation, r ≠ .refused violation := by
  cases r <;> simp [violation?]

theorem place_of_member? {index : Nat} {text : String} {r : Reading} {m : Member}
    (h : r.member? index text = some m) : m.index = index ∧ m.text = text := by
  cases r with
  | refused violation => cases h
  | parsed form => cases h; exact ⟨rfl, rfl⟩
  | unparsed error => cases h; exact ⟨rfl, rfl⟩

theorem exists_member? {r : Reading} (reads : ∀ violation, r ≠ .refused violation) (index : Nat)
    (text : String) : ∃ m, r.member? index text = some m := by
  cases r with
  | refused violation => exact absurd rfl (reads violation)
  | parsed form => exact ⟨_, rfl⟩
  | unparsed error => exact ⟨_, rfl⟩

theorem member?_eq_parsed {index : Nat} {text : String} {r : Reading}
    {entry : Entry CanonicalForm} : r.member? index text = some (.parsed entry) ↔
      index = entry.index ∧ text = entry.text ∧ r = .parsed entry.content := by
  rcases entry with ⟨i, t, form⟩
  cases r <;> simp [member?]

theorem member?_eq_unparsed {index : Nat} {text : String} {r : Reading}
    {entry : Entry SyntaxError} : r.member? index text = some (.unparsed entry) ↔
      index = entry.index ∧ text = entry.text ∧ r = .unparsed entry.content := by
  rcases entry with ⟨i, t, error⟩
  cases r <;> simp [member?]

end Reading

namespace Member

@[simp] theorem form?_parsed (entry : Entry CanonicalForm) :
    (parsed entry).form? = some entry.content := rfl

@[simp] theorem form?_unparsed (entry : Entry SyntaxError) : (unparsed entry).form? = none := rfl

@[simp] theorem text_parsed (entry : Entry CanonicalForm) : (parsed entry).text = entry.text := rfl

end Member

namespace Group

@[simp] theorem lead?_family (earlier later : List (Entry CanonicalForm))
    (lead : Entry CanonicalForm) : (family earlier lead later).lead? = some lead := rfl

@[simp] theorem lead?_unparsed (entry : Entry SyntaxError) : (unparsed entry).lead? = none := rfl

@[simp] theorem members_unparsed (entry : Entry SyntaxError) :
    (unparsed entry).members = [.unparsed entry] := rfl

@[simp] theorem members_singleton (entry : Entry CanonicalForm) :
    (family [] entry []).members = [.parsed entry] := rfl

theorem parsed_mem_members {g : Group} {entry : Entry CanonicalForm} :
    .parsed entry ∈ g.members ↔ entry ∈ g.entries := by
  cases g <;> simp [members, entries]

theorem unparsed_mem_members {g : Group} {entry : Entry SyntaxError} :
    .unparsed entry ∈ g.members ↔ g = .unparsed entry := by
  cases g <;> simp [members, eq_comm]

/-- A signature in a group that has grown by one was there before or is the new one. -/
theorem parsed_mem_of_grown {g g' : Group} {new entry : Entry CanonicalForm}
    (grown : g'.members = g.members ++ [.parsed new]) (h : .parsed entry ∈ g'.members) :
    .parsed entry ∈ g.members ∨ entry = new := by
  rw [grown] at h
  rcases List.mem_append.1 h with held | last
  · exact .inl held
  · exact .inr (Member.parsed.inj (List.mem_singleton.1 last))

theorem members_kept (earlier later : List (Entry CanonicalForm))
    (lead entry : Entry CanonicalForm) :
    (family earlier lead (later ++ [entry])).members =
      (family earlier lead later).members ++ [.parsed entry] := by
  simp [members]

theorem members_promoted (earlier later : List (Entry CanonicalForm))
    (lead entry : Entry CanonicalForm) :
    (family (earlier ++ lead :: later) entry []).members =
      (family earlier lead later).members ++ [.parsed entry] := by
  simp [members]

end Group

namespace Clustering

theorem arrivals_pushAll_empty (texts : List String) :
    (pushAll texts empty).arrivals = texts.length := by
  rw [arrivals_pushAll, show empty.arrivals = 0 from rfl, Nat.zero_add]

theorem Step.grows_member {c : Clustering} {text : String} {groups : List Group}
    {answer : Except Refusal Nat} (step : Step c text groups answer) {m : Member}
    (read : (Reading.ofText text).member? c.arrivals text = some m) : Grows c.groups m groups := by
  cases step with
  | refused violation reading => simp [reading, Reading.member?] at read
  | isolated error reading =>
    rw [reading] at read
    obtain rfl := Option.some.inj read
    exact .opened _ rfl
  | opened form reading fresh =>
    rw [reading] at read
    obtain rfl := Option.some.inj read
    exact .opened _ rfl
  | kept form before after earlier later lead reading found first covered =>
    rw [reading] at read
    obtain rfl := Option.some.inj read
    exact .joined before after _ _ found (Group.members_kept ..)
  | promoted form before after earlier later lead reading found first wider uncovered =>
    rw [reading] at read
    obtain rfl := Option.some.inj read
    exact .joined before after _ _ found (Group.members_promoted ..)

theorem Step.unchanged {c : Clustering} {text : String} {groups : List Group}
    {answer : Except Refusal Nat} (step : Step c text groups answer)
    (read : (Reading.ofText text).member? c.arrivals text = none) : groups = c.groups := by
  cases step with
  | refused violation reading => rfl
  | isolated error reading => simp [reading, Reading.member?] at read
  | opened form reading fresh => simp [reading, Reading.member?] at read
  | kept form before after earlier later lead reading found first covered =>
    simp [reading, Reading.member?] at read
  | promoted form before after earlier later lead reading found first wider uncovered =>
    simp [reading, Reading.member?] at read

/-- What the texts become, in the order of arrival. -/
def arrived (texts : List String) : List Member :=
  texts.zipIdx.filterMap fun (text, i) => (Reading.ofText text).member? i text

theorem arrived_concat (texts : List String) (text : String) :
    arrived (texts ++ [text]) =
      arrived texts ++ ((Reading.ofText text).member? texts.length text).toList := by
  simp only [arrived, List.zipIdx_append, List.filterMap_append, Nat.zero_add,
    List.zipIdx_singleton]
  cases read : (Reading.ofText text).member? texts.length text <;> simp [read]

theorem members_pushAll (texts : List String) :
    ((pushAll texts empty).groups.flatMap Group.members).Perm (arrived texts) := by
  induction texts using List.reverseRecOn with
  | nil => exact .nil
  | append_singleton texts text ih =>
    have step := push_step text (pushAll texts empty)
    rw [pushAll_concat, arrived_concat]
    cases read : (Reading.ofText text).member? texts.length text with
    | none =>
      rw [step.unchanged (by rwa [arrivals_pushAll_empty]), Option.toList_none, List.append_nil]
      exact ih
    | some m =>
      have grows := step.grows_member (m := m) (by rwa [arrivals_pushAll_empty])
      exact grows.members_perm.trans ((ih.cons m).trans (List.perm_append_singleton ..).symm)

theorem mem_arrived {texts : List String} {m : Member} :
    m ∈ arrived texts ↔
      ∃ i text, texts[i]? = some text ∧ (Reading.ofText text).member? i text = some m := by
  simp only [arrived, List.mem_filterMap, Prod.exists, List.mem_zipIdx_iff_getElem?]
  exact ⟨fun ⟨t, i, h⟩ => ⟨i, t, h⟩, fun ⟨i, t, h⟩ => ⟨t, i, h⟩⟩

theorem mem_groups {texts : List String} {m : Member} :
    (∃ g ∈ (pushAll texts empty).groups, m ∈ g.members) ↔
      ∃ i text, texts[i]? = some text ∧ (Reading.ofText text).member? i text = some m := by
  rw [← mem_arrived, ← (members_pushAll texts).mem_iff, List.mem_flatMap]

theorem unparsed_mem_groups {texts : List String} {entry : Entry SyntaxError} :
    .unparsed entry ∈ (pushAll texts empty).groups ↔
      texts[entry.index]? = some entry.text ∧
        Reading.ofText entry.text = .unparsed entry.content := by
  have alone : .unparsed entry ∈ (pushAll texts empty).groups ↔
      ∃ g ∈ (pushAll texts empty).groups, .unparsed entry ∈ g.members := by
    simp only [Group.unparsed_mem_members, exists_eq_right]
  simp only [alone, mem_groups, Reading.member?_eq_unparsed]
  constructor
  · rintro ⟨_, _, there, rfl, rfl, reading⟩
    exact ⟨there, reading⟩
  · rintro ⟨there, reading⟩
    exact ⟨_, _, there, rfl, rfl, reading⟩

/- Runs without a refusal. -/

/-- No text of the list is refused. -/
def Readable (texts : List String) : Prop :=
  ∀ text ∈ texts, ∀ violation, Reading.ofText text ≠ .refused violation

theorem readable_iff {texts : List String} :
    Readable texts ↔ ∀ text ∈ texts, (Reading.ofText text).violation? = none := by
  simp only [Readable, Reading.violation?_eq_none]

instance (texts : List String) : Decidable (Readable texts) :=
  decidable_of_iff _ readable_iff.symm

/-- The defining equation, here because finding it unfolds the reading of the text. -/
theorem pushUntilRefused_eq (c : Clustering) (text : String) (texts : List String) :
    c.pushUntilRefused (text :: texts) =
      match c.push text with
      | (c, .ok _) => pushUntilRefused c texts
      | (_, .error refusal) => .error refusal := by
  rfl

theorem pushUntilRefused_of_ok {c c' : Clustering} {text : String} {n : Nat}
    (pushed : c.push text = (c', .ok n)) (texts : List String) :
    c.pushUntilRefused (text :: texts) = c'.pushUntilRefused texts := by
  rw [pushUntilRefused_eq, pushed]

theorem pushUntilRefused_of_error {c c' : Clustering} {text : String} {refusal : Refusal}
    (pushed : c.push text = (c', .error refusal)) (texts : List String) :
    c.pushUntilRefused (text :: texts) = .error refusal := by
  rw [pushUntilRefused_eq, pushed]

theorem pushUntilRefused_cons {text : String} (c : Clustering) (texts : List String)
    (reads : ∀ violation, Reading.ofText text ≠ .refused violation) :
    c.pushUntilRefused (text :: texts) = (c.push text).1.pushUntilRefused texts := by
  cases reading : Reading.ofText text with
  | unparsed error =>
    rw [pushUntilRefused_of_ok (push_of_unparsed c reading), push_of_unparsed c reading]
  | refused violation => exact absurd reading (reads violation)
  | parsed form =>
    rw [pushUntilRefused_of_ok (push_of_parsed c reading), push_of_parsed c reading]

theorem pushUntilRefused_of_readable {texts : List String} (reads : Readable texts)
    (c : Clustering) : c.pushUntilRefused texts = .ok (pushAll texts c) := by
  induction texts generalizing c with
  | nil => rfl
  | cons text texts ih =>
    obtain ⟨first, rest⟩ := List.forall_mem_cons.1 reads
    rw [pushUntilRefused_cons c texts first, ih rest, pushAll_cons]

theorem pushUntilRefused_of_refused {before : List String} (reads : Readable before)
    {text : String} {violation : Violation} (reading : Reading.ofText text = .refused violation)
    (after : List String) (c : Clustering) :
    c.pushUntilRefused (before ++ text :: after) = .error ⟨text, violation⟩ := by
  induction before generalizing c with
  | nil => exact pushUntilRefused_of_error (push_of_refused c reading) after
  | cons t ts ih =>
    obtain ⟨first, rest⟩ := List.forall_mem_cons.1 reads
    rw [List.cons_append, pushUntilRefused_cons c _ first, ih rest]

theorem ofTexts_of_readable {texts : List String} (reads : Readable texts) :
    Group.ofTexts texts = .ok (pushAll texts empty).groups := by
  rw [Group.ofTexts, pushUntilRefused_of_readable reads]
  rfl

theorem length_arrived {texts : List String} (reads : Readable texts) :
    (arrived texts).length = texts.length := by
  induction texts using List.reverseRecOn with
  | nil => rfl
  | append_singleton texts text ih =>
    obtain ⟨init, last⟩ := List.forall_mem_append.1 reads
    obtain ⟨m, becomes⟩ := Reading.exists_member? (last text (by simp)) texts.length text
    rw [arrived_concat, becomes, List.length_append, ih init, List.length_append]
    rfl

end Clustering

end ImplFamilies
