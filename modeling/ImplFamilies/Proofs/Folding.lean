import ImplFamilies.Family.Fold
import ImplFamilies.Proofs.Clustering.Record
import Mathlib.Data.List.Flatten
import Mathlib.Data.List.Nodup

/-!
What folding asks of a document. Each group with more than one member is hidden but for its lead,
and the places that are hidden or anchor a control are members of different groups or different
members of one, so nothing is asked twice. A refused text leaves the document as it is.
-/

namespace ImplFamilies

variable {ν μ : Type}

def Fold.map (f : ν → μ) (fold : Fold ν) : Fold μ :=
  ⟨f fold.anchor, fold.hidden.map f⟩

namespace Change

def map (f : ν → μ) : Change ν → Change μ
  | .hide node => .hide (f node)
  | .toggle fold => .toggle (fold.map f)

def hidden? : Change ν → Option ν
  | .hide node => some node
  | .toggle _ => none

def anchor? : Change ν → Option ν
  | .hide _ => none
  | .toggle fold => some fold.anchor

def hidden (changes : List (Change ν)) : List ν :=
  changes.filterMap hidden?

def anchors (changes : List (Change ν)) : List ν :=
  changes.filterMap anchor?

theorem hidden_map (f : ν → μ) (changes : List (Change ν)) :
    hidden (changes.map (map f)) = (hidden changes).map f := by
  rw [hidden, hidden, List.filterMap_map, List.map_filterMap]
  congr 1
  funext change
  cases change <;> rfl

theorem hidden_append (first second : List (Change ν)) :
    hidden (first ++ second) = hidden first ++ hidden second :=
  List.filterMap_append

theorem anchors_append (first second : List (Change ν)) :
    anchors (first ++ second) = anchors first ++ anchors second :=
  List.filterMap_append

end Change

namespace Fold

theorem changes_map (f : ν → μ) (fold : Fold ν) :
    fold.changes.map (Change.map f) = (fold.map f).changes := by
  simp only [changes, map, List.map_append, List.map_map, List.map_cons, List.map_nil]
  rfl

@[simp] theorem hidden_changes (fold : Fold ν) : Change.hidden fold.changes = fold.hidden := by
  rw [changes, Change.hidden, List.filterMap_append, List.filterMap_map]
  simp [Function.comp_def, Change.hidden?]

@[simp] theorem anchors_changes (fold : Fold ν) : Change.anchors fold.changes = [fold.anchor] := by
  rw [changes, Change.anchors, List.filterMap_append, List.filterMap_map]
  simp [Function.comp_def, Change.anchor?]

end Fold

namespace Group

/-- The places of arrival of all members. -/
def places (g : Group) : List Nat :=
  g.members.map Member.index

/-- The places of arrival of all members but the lead. -/
def hiddenPlaces (g : Group) : List Nat :=
  g.places.filter fun i => g.lead?.map Entry.index != some i

/-- Every member but the lead is hidden in turn, then a control for them is put behind the lead. -/
def placeChanges (g : Group) : List (Change Nat) :=
  match g.lead? with
  | none => []
  | some lead => g.hiddenPlaces.map Change.hide ++ [.toggle ⟨lead.index, g.hiddenPlaces⟩]

theorem placeChanges_of_lead {g : Group} {lead : Entry CanonicalForm}
    (hlead : g.lead? = some lead) :
    g.placeChanges = Fold.changes ⟨lead.index, g.hiddenPlaces⟩ := by
  rw [placeChanges, hlead]
  rfl

theorem places_family (earlier later : List (Entry CanonicalForm)) (lead : Entry CanonicalForm) :
    (family earlier lead later).places =
      earlier.map Entry.index ++ lead.index :: later.map Entry.index := by
  simp only [places, members, List.map_map, List.map_append, List.map_cons]
  rfl

theorem hiddenPlaces_eq_others {g : Group} {lead : Entry CanonicalForm}
    (hlead : g.lead? = some lead) (once : g.places.Nodup) :
    g.hiddenPlaces = g.others.map Member.index := by
  cases g with
  | unparsed entry => cases hlead
  | family earlier first later =>
    have around : (family earlier first later).others.map Member.index =
        earlier.map Entry.index ++ later.map Entry.index := by
      simp only [others, List.map_map, List.map_append]
      rfl
    rw [places_family, List.nodup_middle, List.nodup_cons] at once
    have apart : ∀ i ∈ earlier.map Entry.index ++ later.map Entry.index,
        ((family earlier first later).lead?.map Entry.index != some i) = true := by
      intro i hi
      have other : first.index ≠ i := fun same => once.1 (same ▸ hi)
      simpa using other
    obtain ⟨before, after⟩ := List.forall_mem_append.1 apart
    rw [around, hiddenPlaces, places_family, List.filter_append, List.filter_cons_of_neg (by simp),
      List.filter_eq_self.2 before, List.filter_eq_self.2 after]

/-- The lead and the places hidden behind it make up the group. -/
theorem lead_and_hidden_perm {g : Group} {lead : Entry CanonicalForm} (hlead : g.lead? = some lead)
    (once : g.places.Nodup) : (lead.index :: g.hiddenPlaces).Perm g.places := by
  rw [hiddenPlaces_eq_others hlead once]
  cases g with
  | unparsed entry => cases hlead
  | family earlier first later =>
    obtain rfl := Option.some.inj hlead
    rw [places_family, others, List.map_map, List.map_append]
    exact List.perm_middle.symm

theorem length_of_not_folded {g : Group} (few : ¬ 2 ≤ g.members.length) :
    g.members.length = 1 := by
  have some : 0 < g.members.length := List.length_pos_iff.2 g.members_ne_nil
  omega

theorem lead?_of_folded {g : Group} (many : 2 ≤ g.members.length) :
    ∃ lead, g.lead? = some lead := by
  cases g with
  | unparsed entry => simp at many
  | family earlier lead later => exact ⟨lead, rfl⟩

theorem others_subset (g : Group) : g.others ⊆ g.members := by
  cases g with
  | unparsed entry => exact List.Subset.refl _
  | family earlier lead later =>
    apply List.map_subset
    intro entry hentry
    rcases List.mem_append.1 hentry with early | late
    · exact List.mem_append_left _ early
    · exact List.mem_append_right _ (List.mem_cons_of_mem _ late)

end Group

namespace Fold

theorem ofGroup?_of_few {g : Group} (few : ¬ 2 ≤ g.members.length) (nodes : List ν) :
    ofGroup? nodes g = none := by
  have single : g.isSingleton = true := by
    simp [Group.isSingleton, Group.length_of_not_folded few]
  rw [ofGroup?, if_pos single]

theorem ofGroup?_of_many {nodes : List ν} {g : Group} (many : 2 ≤ g.members.length)
    (within : ∀ m ∈ g.members, m.index < nodes.length) (once : g.places.Nodup) :
    ∃ fold, ofGroup? nodes g = some fold ∧
      fold.changes.map (Change.map some) = g.placeChanges.map (Change.map fun i => nodes[i]?) := by
  obtain ⟨lead, hlead⟩ := Group.lead?_of_folded many
  have single : ¬ g.isSingleton = true := by
    simp only [Group.isSingleton, beq_iff_eq]
    omega
  have there : lead.index < nodes.length := within _ (Group.lead_mem_members hlead).1
  have found : (g.others.filterMap fun m => nodes[m.index]?).map some =
      g.others.map fun m => nodes[m.index]? := by
    rw [List.map_filterMap_some_eq_filter_map_isSome, List.filter_eq_self, List.forall_mem_map]
    intro m hm
    simp [within m (g.others_subset hm)]
  refine ⟨⟨nodes[lead.index], g.others.filterMap fun m => nodes[m.index]?⟩, ?_, ?_⟩
  · simp [ofGroup?, single, hlead, there]
  · rw [Group.placeChanges_of_lead hlead, changes_map, changes_map,
      Group.hiddenPlaces_eq_others hlead once]
    simp only [map, found, List.getElem?_eq_getElem there, List.map_map]
    rfl

end Fold

namespace FoldingPass

/-- The defining equation, here because finding it unfolds the reading of the text. -/
theorem take_eq (pass : FoldingPass ν) (node : ν) (text : String)
    (candidates : List (ν × String)) :
    pass.take ((node, text) :: candidates) =
      match pass.clustering.push text with
      | (c, .ok _) => take ⟨pass.nodes ++ [node], c, pass.changes⟩ candidates
      | (c, .error refusal) => (⟨pass.nodes ++ [node], c, pass.changes⟩, .error refusal) := by
  rfl

theorem take_cons (pass : FoldingPass ν) (node : ν) (text : String)
    (candidates : List (ν × String)) :
    (∃ c n, pass.clustering.push text = (c, .ok n) ∧ pass.take ((node, text) :: candidates) =
      take ⟨pass.nodes ++ [node], c, pass.changes⟩ candidates) ∨
    ∃ c refusal, pass.clustering.push text = (c, .error refusal) ∧
      pass.take ((node, text) :: candidates) =
        (⟨pass.nodes ++ [node], c, pass.changes⟩, .error refusal) := by
  rw [take_eq]
  generalize pass.clustering.push text = pushed
  obtain ⟨c, answer⟩ := pushed
  cases answer with
  | ok n => exact .inl ⟨c, n, rfl, rfl⟩
  | error refusal => exact .inr ⟨c, refusal, rfl, rfl⟩

/-- Nothing is asked of the document while texts come in. -/
theorem changes_take (pass : FoldingPass ν) (candidates : List (ν × String)) :
    (pass.take candidates).1.changes = pass.changes := by
  induction candidates generalizing pass with
  | nil => rfl
  | cons candidate candidates ih =>
    obtain ⟨node, text⟩ := candidate
    rcases pass.take_cons node text candidates with ⟨c, n, _, same⟩ | ⟨c, refusal, _, same⟩
    · rw [same, ih]
    · rw [same]

theorem take_of_ok {pass : FoldingPass ν} {candidates : List (ν × String)} {c : Clustering}
    (h : pass.clustering.pushUntilRefused (candidates.map Prod.snd) = .ok c) :
    pass.take candidates = (⟨pass.nodes ++ candidates.map Prod.fst, c, pass.changes⟩, .ok ()) := by
  induction candidates generalizing pass with
  | nil =>
    obtain rfl : pass.clustering = c := Except.ok.inj h
    rw [List.map_nil, List.append_nil]
    rfl
  | cons candidate candidates ih =>
    obtain ⟨node, text⟩ := candidate
    rw [List.map_cons] at h
    rcases pass.take_cons node text candidates with ⟨c', n, pushed, same⟩ | ⟨c', _, pushed, _⟩
    · rw [Clustering.pushUntilRefused_of_ok pushed] at h
      rw [same, ih h, List.append_assoc, List.singleton_append, List.map_cons]
    · rw [Clustering.pushUntilRefused_of_error pushed] at h
      cases h

theorem take_of_error {pass : FoldingPass ν} {candidates : List (ν × String)} {refusal : Refusal}
    (h : pass.clustering.pushUntilRefused (candidates.map Prod.snd) = .error refusal) :
    (pass.take candidates).2 = .error refusal := by
  induction candidates generalizing pass with
  | nil => cases h
  | cons candidate candidates ih =>
    obtain ⟨node, text⟩ := candidate
    rw [List.map_cons] at h
    rcases pass.take_cons node text candidates with ⟨c, n, pushed, same⟩ | ⟨c, _, pushed, same⟩
    · rw [Clustering.pushUntilRefused_of_ok pushed] at h
      rw [same, ih h]
    · rw [Clustering.pushUntilRefused_of_error pushed] at h
      rw [same, Except.error.inj h]

theorem fold_eq (pass : FoldingPass ν) (g : Group) :
    pass.fold g = ⟨pass.nodes, pass.clustering,
      pass.changes ++ (Fold.ofGroup? pass.nodes g).toList.flatMap Fold.changes⟩ := by
  unfold fold
  cases Fold.ofGroup? pass.nodes g <;> simp

theorem foldl_fold (groups : List Group) (pass : FoldingPass ν) :
    (groups.foldl fold pass).clustering = pass.clustering ∧
      (groups.foldl fold pass).changes = pass.changes ++
        (groups.filterMap (Fold.ofGroup? pass.nodes)).flatMap Fold.changes := by
  induction groups generalizing pass with
  | nil => simp
  | cons g groups ih =>
    obtain ⟨kept, changes⟩ := ih (pass.fold g)
    rw [List.foldl_cons, kept, changes, fold_eq]
    refine ⟨rfl, ?_⟩
    dsimp only
    cases folded : Fold.ofGroup? pass.nodes g with
    | none => simp [List.filterMap_cons_none folded]
    | some f => simp [List.filterMap_cons_some folded]

end FoldingPass

namespace Folding

/-- What is asked of a document, each candidate named by its place: the groups with more than one
member are folded in turn. -/
def askedPlaces (groups : List Group) : List (Change Nat) :=
  (groups.filter fun g => decide (2 ≤ g.members.length)).flatMap Group.placeChanges

def touched (changes : List (Change Nat)) : List Nat :=
  Change.anchors changes ++ Change.hidden changes

/-- All that folding asks of a document, whether it comes to its end or not. -/
def asked (candidates : List (ν × String)) : List (Change ν) :=
  (FoldingPass.run candidates).1.changes

variable {nodes : List ν} {g : Group} {groups : List Group}

theorem askedPlaces_of_few (few : ¬ 2 ≤ g.members.length) (groups : List Group) :
    askedPlaces (g :: groups) = askedPlaces groups := by
  rw [askedPlaces, List.filter_cons_of_neg (by simpa using few), askedPlaces]

theorem askedPlaces_of_many (many : 2 ≤ g.members.length) (groups : List Group) :
    askedPlaces (g :: groups) = g.placeChanges ++ askedPlaces groups := by
  rw [askedPlaces, List.filter_cons_of_pos (by simpa using many), List.flatMap_cons, askedPlaces]

theorem changes_eq_askedPlaces
    (within : ∀ g ∈ groups, ∀ m ∈ g.members, m.index < nodes.length)
    (once : ∀ g ∈ groups, g.places.Nodup) :
    ((groups.filterMap (Fold.ofGroup? nodes)).flatMap Fold.changes).map (Change.map some) =
      (askedPlaces groups).map (Change.map fun i => nodes[i]?) := by
  induction groups with
  | nil => rfl
  | cons g groups ih =>
    obtain ⟨within_g, within⟩ := List.forall_mem_cons.1 within
    obtain ⟨once_g, once⟩ := List.forall_mem_cons.1 once
    by_cases many : 2 ≤ g.members.length
    · obtain ⟨fold, folded, same⟩ := Fold.ofGroup?_of_many many within_g once_g
      rw [List.filterMap_cons_some folded, List.flatMap_cons, List.map_append, same,
        ih within once, askedPlaces_of_many many, List.map_append]
    · rw [List.filterMap_cons_none (Fold.ofGroup?_of_few many nodes), ih within once,
        askedPlaces_of_few many]

theorem touched_append (first second : List (Change Nat)) :
    (touched (first ++ second)).Perm (touched first ++ touched second) := by
  rw [touched, Change.anchors_append, Change.hidden_append, touched, touched, List.append_assoc,
    List.append_assoc]
  exact (List.perm_append_comm_assoc ..).append_left _

theorem touched_placeChanges (many : 2 ≤ g.members.length) (once : g.places.Nodup) :
    (touched g.placeChanges).Perm g.places := by
  obtain ⟨lead, hlead⟩ := Group.lead?_of_folded many
  rw [touched, Group.placeChanges_of_lead hlead, Fold.anchors_changes, Fold.hidden_changes]
  exact Group.lead_and_hidden_perm hlead once

theorem touched_askedPlaces (once : ∀ g ∈ groups, g.places.Nodup) :
    (touched (askedPlaces groups)).Perm
      ((groups.filter fun g => decide (2 ≤ g.members.length)).flatMap Group.places) := by
  induction groups with
  | nil => exact .nil
  | cons g groups ih =>
    obtain ⟨once_g, once⟩ := List.forall_mem_cons.1 once
    by_cases many : 2 ≤ g.members.length
    · rw [askedPlaces_of_many many, List.filter_cons_of_pos (by simpa using many),
        List.flatMap_cons]
      exact (touched_append ..).trans ((touched_placeChanges many once_g).append (ih once))
    · rw [askedPlaces_of_few many, List.filter_cons_of_neg (by simpa using many)]
      exact ih once

theorem length_hidden_placeChanges (many : 2 ≤ g.members.length) (once : g.places.Nodup) :
    (Change.hidden g.placeChanges).length + 1 = g.members.length := by
  obtain ⟨lead, hlead⟩ := Group.lead?_of_folded many
  rw [Group.placeChanges_of_lead hlead, Fold.hidden_changes]
  simpa [Group.places] using (Group.lead_and_hidden_perm hlead once).length_eq

theorem length_hidden_askedPlaces (once : ∀ g ∈ groups, g.places.Nodup) :
    (Change.hidden (askedPlaces groups)).length + groups.length =
      (groups.flatMap Group.members).length := by
  induction groups with
  | nil => rfl
  | cons g groups ih =>
    obtain ⟨once_g, once⟩ := List.forall_mem_cons.1 once
    rw [List.length_cons, List.flatMap_cons, List.length_append, ← ih once]
    by_cases many : 2 ≤ g.members.length
    · rw [askedPlaces_of_many many, Change.hidden_append, List.length_append,
        ← length_hidden_placeChanges many once_g]
      omega
    · rw [askedPlaces_of_few many, Group.length_of_not_folded many]
      omega

theorem not_mem_touched (once : (groups.flatMap Group.places).Nodup) (hg : g ∈ groups)
    (few : ¬ 2 ≤ g.members.length) {i : Nat} (hi : i ∈ g.places) :
    i ∉ touched (askedPlaces groups) := by
  have each : ∀ g ∈ groups, g.places.Nodup := (List.nodup_flatMap.1 once).1
  have split :=
    (List.filter_append_perm (fun g => decide (2 ≤ g.members.length)) groups).flatMap_right
      Group.places
  rw [List.flatMap_append] at split
  have apart := List.disjoint_of_nodup_append (split.nodup_iff.2 once)
  rw [(touched_askedPlaces each).mem_iff]
  intro folded
  exact apart folded (List.mem_flatMap.2 ⟨g, List.mem_filter.2 ⟨hg, by simpa using few⟩, hi⟩)

/-- The changes asked of a document are those of its groups, place by place. -/
structure FoldsExactly (candidates : List (ν × String)) (groups : List Group)
    (changes : List (Change ν)) : Prop where
  grouped : Group.ofTexts (candidates.map Prod.snd) = .ok groups
  /-- Every candidate is a member at its own place. -/
  held (i : Nat) (text : String) :
    (∃ g ∈ groups, ∃ m ∈ g.members, m.index = i ∧ m.text = text) ↔
      (candidates.map Prod.snd)[i]? = some text
  calls : changes.map (Change.map some) =
    (askedPlaces groups).map (Change.map fun i => (candidates.map Prod.fst)[i]?)
  in_order : ∀ g ∈ groups, g.hiddenPlaces.Pairwise (· < ·)
  /-- Nothing is hidden twice, no two controls share an anchor, and no anchor is hidden. -/
  once : (touched (askedPlaces groups)).Nodup
  lone : ∀ g ∈ groups, ∀ m, g.members = [m] → m.index ∉ touched (askedPlaces groups)
  unparsed (i : Nat) (text : String) (error : SyntaxError) :
    (candidates.map Prod.snd)[i]? = some text → Reading.ofText text = .unparsed error →
      i ∉ touched (askedPlaces groups)
  count : (Change.hidden changes).length + groups.length = candidates.length

theorem ofCandidates_of_ok {candidates : List (ν × String)} {c : Clustering}
    (pushed : Clustering.empty.pushUntilRefused (candidates.map Prod.snd) = .ok c) :
    ofCandidates candidates = .ok ⟨c.groups, asked candidates⟩ ∧ asked candidates =
      (c.groups.filterMap (Fold.ofGroup? (candidates.map Prod.fst))).flatMap Fold.changes := by
  have took : FoldingPass.start.take candidates = (⟨candidates.map Prod.fst, c, []⟩, .ok ()) :=
    FoldingPass.take_of_ok pushed
  have ran : FoldingPass.run candidates = (c.groups.foldl FoldingPass.fold
      ⟨candidates.map Prod.fst, c, []⟩, .ok ()) := by
    rw [FoldingPass.run, took]
  obtain ⟨kept, changes⟩ := FoldingPass.foldl_fold c.groups ⟨candidates.map Prod.fst, c, []⟩
  refine ⟨by simp only [ofCandidates, asked, ran, kept], ?_⟩
  simp only [asked, ran, changes, List.nil_append]

theorem ofCandidates_of_readable {candidates : List (ν × String)}
    (reads : Clustering.Readable (candidates.map Prod.snd)) :
    ofCandidates candidates = .ok
        ⟨(Clustering.pushAll (candidates.map Prod.snd) Clustering.empty).groups,
          asked candidates⟩ ∧
      asked candidates =
        ((Clustering.pushAll (candidates.map Prod.snd) Clustering.empty).groups.filterMap
          (Fold.ofGroup? (candidates.map Prod.fst))).flatMap Fold.changes :=
  ofCandidates_of_ok (Clustering.pushUntilRefused_of_readable reads Clustering.empty)

theorem ofCandidates_of_error {candidates : List (ν × String)} {refusal : Refusal}
    (spoiled : Clustering.empty.pushUntilRefused (candidates.map Prod.snd) = .error refusal) :
    ofCandidates candidates = .error refusal ∧ asked candidates = [] := by
  have refused : (FoldingPass.start.take candidates).2 = .error refusal :=
    FoldingPass.take_of_error spoiled
  have unasked : (FoldingPass.start.take candidates).1.changes = [] := FoldingPass.changes_take ..
  rw [ofCandidates, asked, FoldingPass.run]
  generalize FoldingPass.start.take candidates = took at refused unasked ⊢
  obtain ⟨pass, answer⟩ := took
  subst refused
  exact ⟨rfl, unasked⟩

/-- As many nodes are hidden as places, when the changes are those of the places. -/
theorem length_hidden_of_calls {changes : List (Change ν)} {places : List (Change Nat)}
    {f : Nat → Option ν} (calls : changes.map (Change.map some) = places.map (Change.map f)) :
    (Change.hidden changes).length = (Change.hidden places).length := by
  have same := congrArg (fun cs => (Change.hidden cs).length) calls
  simpa only [Change.hidden_map, List.length_map] using same

theorem held_of_readable {texts : List String} (reads : Clustering.Readable texts) (i : Nat)
    (text : String) :
    (∃ g ∈ (Clustering.pushAll texts Clustering.empty).groups, ∃ m ∈ g.members,
      m.index = i ∧ m.text = text) ↔ texts[i]? = some text := by
  constructor
  · rintro ⟨g, hg, m, hm, rfl, rfl⟩
    obtain ⟨i, text, there, becomes⟩ := Clustering.mem_groups.1 ⟨g, hg, hm⟩
    obtain ⟨rfl, rfl⟩ := Reading.place_of_member? becomes
    exact there
  · intro there
    have reads := reads text (List.mem_of_getElem? there)
    obtain ⟨m, becomes⟩ := Reading.exists_member? reads i text
    obtain ⟨g, hg, hm⟩ := Clustering.mem_groups.2 ⟨i, text, there, becomes⟩
    exact ⟨g, hg, m, hm, Reading.place_of_member? becomes⟩

theorem foldsExactly_of_readable {candidates : List (ν × String)}
    (reads : Clustering.Readable (candidates.map Prod.snd)) :
    FoldsExactly candidates (Clustering.pushAll (candidates.map Prod.snd) Clustering.empty).groups
      (((Clustering.pushAll (candidates.map Prod.snd) Clustering.empty).groups.filterMap
        (Fold.ofGroup? (candidates.map Prod.fst))).flatMap Fold.changes) := by
  have parts := Clustering.partitions_pushAll (candidates.map Prod.snd)
  have once := parts.once
  rw [List.map_flatMap] at once
  have each := (List.nodup_flatMap.1 once).1
  have within : ∀ g ∈ (Clustering.pushAll (candidates.map Prod.snd) Clustering.empty).groups,
      ∀ m ∈ g.members, m.index < (candidates.map Prod.fst).length := by
    intro g hg m hm
    simpa using parts.index_lt hg hm
  have calls := changes_eq_askedPlaces within each
  constructor
  case grouped => exact Clustering.ofTexts_of_readable reads
  case held => exact held_of_readable reads
  case calls => exact calls
  case in_order =>
    intro g hg
    exact (parts.increasing g hg).sublist List.filter_sublist
  case once =>
    rw [(touched_askedPlaces each).nodup_iff]
    exact once.sublist (List.filter_sublist.flatMap _)
  case lone =>
    intro g hg m alone
    exact not_mem_touched once hg (by simp [alone]) (by simp [Group.places, alone])
  case unparsed =>
    intro i text error there reading
    have member := (@Clustering.unparsed_mem_groups _ ⟨i, text, error⟩).2 ⟨there, reading⟩
    exact not_mem_touched once member (by simp) (by simp [Group.places, Member.index])
  case count =>
    rw [length_hidden_of_calls calls, length_hidden_askedPlaces each,
      (Clustering.members_pushAll _).length_eq, Clustering.length_arrived reads, List.length_map]

/-- When no text is refused, folding hides what stands behind each lead and nothing else. The first
text that is refused is the answer, and nothing is asked of the document. -/
theorem folding_hides_all_but_leads (candidates : List (ν × String)) :
    (Clustering.Readable (candidates.map Prod.snd) →
      ∃ folding, ofCandidates candidates = .ok folding ∧
        asked candidates = folding.changes ∧
        FoldsExactly candidates folding.groups folding.changes) ∧
    ∀ before node text violation after, candidates = before ++ (node, text) :: after →
      Clustering.Readable (before.map Prod.snd) → Reading.ofText text = .refused violation →
      ofCandidates candidates = .error ⟨text, violation⟩ ∧ asked candidates = [] := by
  refine ⟨?_, ?_⟩
  · intro reads
    obtain ⟨folded, asks⟩ := ofCandidates_of_readable reads
    refine ⟨_, folded, rfl, ?_⟩
    rw [asks]
    exact foldsExactly_of_readable reads
  · rintro before node text violation after rfl reads reading
    apply ofCandidates_of_error
    rw [List.map_append, List.map_cons]
    exact Clustering.pushUntilRefused_of_refused reads reading _ _

/-- A one-place tuple goes behind the pair that comes later; a clause that fits no parameter
leaves it in sight. -/
theorem pair_hidden_or_left :
    let single := ("a", "impl<T> Foo for (T,)")
    let stray := ("b", "no signature")
    let pair := ("c", "impl<T, U> Foo for (T, U)")
    let unfit := ("d", "impl<T> Foo for T where U: Clone")
    (∃ folding, ofCandidates [single, stray, pair] = .ok folding ∧
      FoldsExactly [single, stray, pair] folding.groups folding.changes ∧
      folding.changes = [.hide "a", .toggle ⟨"c", ["a"]⟩]) ∧
    ofCandidates [single, unfit, pair] = .error ⟨unfit.2, .undeclared "U"⟩ ∧
      asked [single, unfit, pair] = [] := by
  intro single stray pair unfit
  constructor
  · have reads : Clustering.Readable ([single, stray, pair].map Prod.snd) := by decide +kernel
    have changes : asked [single, stray, pair] = [.hide "a", .toggle ⟨"c", ["a"]⟩] := by
      decide +kernel
    obtain ⟨folding, folded, same, exact⟩ :=
      (folding_hides_all_but_leads [single, stray, pair]).1 reads
    exact ⟨folding, folded, exact, same ▸ changes⟩
  · have reads : Clustering.Readable ([single].map Prod.snd) := by decide +kernel
    have refused : (Reading.ofText unfit.2).violation? = some (.undeclared "U") := by
      decide +kernel
    exact (folding_hides_all_but_leads [single, unfit, pair]).2 [single] _ _ _ [pair] rfl reads
      (Reading.violation?_eq_some.1 refused)

end Folding

end ImplFamilies
