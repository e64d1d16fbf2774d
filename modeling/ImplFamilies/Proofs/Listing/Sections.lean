import ImplFamilies.Listing.Page
import ImplFamilies.Proofs.Folding
import Mathlib

/-!
What a folded page shows. A page is cut into sections, each a line in sight and the lines that a
control behind it hides. As long as no line is hidden twice, no two controls share an anchor and no
anchor is hidden, the sections together hold every line of the page once.
-/

namespace ImplFamilies

namespace Sequence

theorem flatMap_filter {α β : Type} (kept : α → Bool) (f : α → List β) (xs : List α) :
    (xs.filter kept).flatMap f = xs.flatMap fun x => if kept x then f x else [] := by
  induction xs with
  | nil => rfl
  | cons x xs ih =>
    rw [List.filter_cons, List.flatMap_cons, ← ih]
    split <;> rfl

end Sequence

/-- A line in sight with the lines hidden behind it, if there is a control; lines have their
places. -/
structure Section where
  shown : Nat × String
  folded : Option (List (Nat × String))

namespace Section

def lines (s : Section) : List (Nat × String) :=
  s.shown :: s.folded.getD []

def count (s : Section) : Nat :=
  (s.folded.getD []).length

def opened (captions : Captions) (s : Section) : List String :=
  s.shown.2 ::
    match s.folded with
    | none => []
    | some hidden =>
      ("    [-] " ++ captions.hideLabel) :: hidden.map fun line => "        " ++ line.2

def closed (captions : Captions) (s : Section) : List String :=
  s.shown.2 ::
    match s.folded with
    | none => []
    | some hidden =>
      ["    [+] " ++ captions.showLabel ++ " (" ++ toString hidden.length ++ ")"]

theorem length_flatMap_lines (sections : List Section) :
    (sections.flatMap lines).length = (sections.map count).sum + sections.length := by
  induction sections with
  | nil => rfl
  | cons s sections ih =>
    simp only [List.flatMap_cons, List.length_append, ih, lines, count, List.length_cons,
      List.map_cons, List.sum_cons]
    omega

end Section

namespace Page

variable (p : Page)

def lineAt (place : Nat) : Option (Nat × String) :=
  p.lines[place]?.map fun text => (place, text)

def visible : List (Nat × String) :=
  p.candidates.filter fun line => !p.hidden.contains line.1

def sections : List Section :=
  p.visible.map fun line =>
    ⟨line, (p.toggleAt line.1).map fun fold => fold.hidden.filterMap p.lineAt⟩

variable {p}

theorem mem_candidates {line : Nat × String} :
    line ∈ p.candidates ↔ p.lines[line.1]? = some line.2 := by
  obtain ⟨place, text⟩ := line
  simp only [candidates, List.mem_map, Prod.exists, Prod.mk.injEq, List.mem_zipIdx_iff_getElem?]
  constructor
  · rintro ⟨_, _, there, rfl, rfl⟩
    exact there
  · intro there
    exact ⟨text, place, there, rfl, rfl⟩

theorem lineAt_eq_some {place : Nat} {line : Nat × String} :
    p.lineAt place = some line ↔ line.1 = place ∧ line ∈ p.candidates := by
  obtain ⟨place', text⟩ := line
  simp only [lineAt, Option.map_eq_some_iff, Prod.mk.injEq, mem_candidates]
  constructor
  · rintro ⟨_, there, rfl, rfl⟩
    exact ⟨rfl, there⟩
  · rintro ⟨rfl, there⟩
    exact ⟨text, there, rfl, rfl⟩

theorem places_candidates (p : Page) :
    p.candidates.map Prod.fst = List.range p.lines.length := by
  rw [candidates, List.map_map, List.range_eq_range', ← List.zipIdx_map_snd 0 p.lines]
  rfl

theorem nodup_places (p : Page) : (p.candidates.map Prod.fst).Nodup := by
  rw [places_candidates]
  exact List.nodup_range

theorem mem_visible {line : Nat × String} :
    line ∈ p.visible ↔ line ∈ p.candidates ∧ line.1 ∉ p.hidden := by
  simp [visible]

theorem shown_sections (p : Page) : p.sections.map Section.shown = p.visible := by
  rw [sections, List.map_map]
  exact List.map_id _

/-- A line in sight comes with the rows of the control at it; a hidden one comes with nothing. -/
theorem listing_eq_visible (p : Page) (captions : Captions) (expanded : Bool) :
    p.listing captions expanded = p.visible.flatMap fun line =>
      line.2 :: (p.toggleAt line.1).elim [] (p.captionLines captions expanded) := by
  rw [listing, visible, Sequence.flatMap_filter]
  apply List.flatMap_congr
  intro line _
  rw [entryLines]
  by_cases gone : line.1 ∈ p.hidden
  · simp [gone]
  · cases p.toggleAt line.1 <;> simp [gone]

theorem texts_behind (p : Page) (places : List Nat) :
    (places.filterMap p.lineAt).map Prod.snd = places.filterMap (p.lines[·]?) := by
  rw [List.map_filterMap]
  congr 1
  funext place
  simp [lineAt, Function.comp_def]

/-- The open listing shows each section with what it hides. -/
theorem listing_opened (p : Page) (captions : Captions) :
    p.listing captions true = p.sections.flatMap (Section.opened captions) := by
  rw [listing_eq_visible, sections, List.flatMap_map]
  apply List.flatMap_congr
  intro line _
  cases p.toggleAt line.1 with
  | none => rfl
  | some fold =>
    rw [Option.elim_some, captionLines, if_pos rfl, ← texts_behind, List.map_map]
    rfl

/-- Nothing is hidden twice, no two controls share an anchor, no anchor is hidden, and what is
hidden stands behind a control; all of it on the page. -/
structure Tidy (p : Page) : Prop where
  once : (p.toggles.map Fold.anchor ++ p.toggles.flatMap Fold.hidden).Nodup
  within : ∀ place ∈ p.toggles.map Fold.anchor ++ p.toggles.flatMap Fold.hidden,
    place < p.lines.length
  mem_hidden (place : Nat) : place ∈ p.hidden ↔ place ∈ p.toggles.flatMap Fold.hidden

namespace Tidy

variable (tidy : p.Tidy)
include tidy

theorem toggleAt_eq_some {place : Nat} {fold : Fold Nat} :
    p.toggleAt place = some fold ↔ fold ∈ p.toggles ∧ fold.anchor = place := by
  have apart := (List.nodup_append.1 tidy.once).1
  constructor
  · intro found
    exact ⟨List.mem_of_find?_eq_some found, by simpa using List.find?_some found⟩
  · rintro ⟨there, rfl⟩
    cases found : p.toggleAt fold.anchor with
    | none => exact absurd (List.find?_eq_none.1 found fold there) (by simp)
    | some other =>
      have same : other.anchor = fold.anchor := by simpa using List.find?_some found
      rw [List.inj_on_of_nodup_map apart (List.mem_of_find?_eq_some found) there same]

theorem hidden_within {fold : Fold Nat} (there : fold ∈ p.toggles) {place : Nat}
    (behind : place ∈ fold.hidden) : place < p.lines.length :=
  tidy.within place (List.mem_append_right _ (List.mem_flatMap.2 ⟨fold, there, behind⟩))

theorem places_behind {fold : Fold Nat} (there : fold ∈ p.toggles) :
    (fold.hidden.filterMap p.lineAt).map Prod.fst = fold.hidden := by
  rw [List.map_filterMap]
  calc
    _ = fold.hidden.filterMap some := by
      apply List.filterMap_congr
      intro place behind
      simp [lineAt, tidy.hidden_within there behind]
    _ = fold.hidden := List.filterMap_some

/-- The closed listing shows each section with the number of lines that it hides. -/
theorem listing_closed (captions : Captions) :
    p.listing captions false = p.sections.flatMap (Section.closed captions) := by
  rw [listing_eq_visible, sections, List.flatMap_map]
  apply List.flatMap_congr
  intro line _
  cases found : p.toggleAt line.1 with
  | none => rfl
  | some fold =>
    have all := congrArg List.length (tidy.places_behind (tidy.toggleAt_eq_some.1 found).1)
    rw [List.length_map] at all
    simp only [Option.elim_some, captionLines, Section.closed, Option.map_some, all]
    rfl

theorem anchor_visible {fold : Fold Nat} (there : fold ∈ p.toggles) :
    ∃ line ∈ p.visible, line.1 = fold.anchor := by
  have anchored := List.mem_map_of_mem (f := Fold.anchor) there
  have inside := tidy.within _ (List.mem_append_left _ anchored)
  refine ⟨(fold.anchor, p.lines[fold.anchor]), ?_, rfl⟩
  rw [mem_visible, mem_candidates, tidy.mem_hidden]
  refine ⟨List.getElem?_eq_getElem inside, fun behind => ?_⟩
  exact (List.nodup_append.1 tidy.once).2.2 _ anchored _ behind rfl

theorem anchored {fold : Fold Nat} (there : fold ∈ p.toggles) :
    ∃ s ∈ p.sections, s.shown.1 = fold.anchor := by
  obtain ⟨line, seen, at_line⟩ := tidy.anchor_visible there
  exact ⟨_, List.mem_map_of_mem seen, at_line⟩

theorem toggled {s : Section} (there : s ∈ p.sections) {places : List Nat} :
    s.folded.map (List.map Prod.fst) = some places ↔ ⟨s.shown.1, places⟩ ∈ p.toggles := by
  obtain ⟨line, -, rfl⟩ := List.mem_map.1 there
  simp only [Option.map_map, Option.map_eq_some_iff, tidy.toggleAt_eq_some, Function.comp_apply]
  constructor
  · rintro ⟨fold, ⟨held, at_line⟩, rfl⟩
    rw [tidy.places_behind held, ← at_line]
    exact held
  · intro held
    exact ⟨_, ⟨held, rfl⟩, tidy.places_behind held⟩

theorem toggles_perm : ((p.visible.map Prod.fst).filterMap p.toggleAt).Perm p.toggles := by
  rw [List.perm_ext_iff_of_nodup]
  · intro fold
    simp only [List.mem_filterMap, List.mem_map, tidy.toggleAt_eq_some]
    constructor
    · rintro ⟨_, _, there, _⟩
      exact there
    · intro there
      obtain ⟨line, seen, at_line⟩ := tidy.anchor_visible there
      exact ⟨_, ⟨line, seen, at_line⟩, there, rfl⟩
  · apply List.Nodup.filterMap
    · intro place place' fold found found'
      rw [← (tidy.toggleAt_eq_some.1 found).2, (tidy.toggleAt_eq_some.1 found').2]
    · exact p.nodup_places.sublist (List.filter_sublist.map _)
  · exact (List.nodup_append.1 tidy.once).1.of_map

theorem hidden_perm : (p.toggles.flatMap fun fold => fold.hidden.filterMap p.lineAt).Perm
    (p.candidates.filter fun line => p.hidden.contains line.1) := by
  rw [← List.filterMap_flatMap, List.perm_ext_iff_of_nodup]
  · intro line
    simp only [List.mem_filterMap, lineAt_eq_some, List.mem_filter, List.contains_eq_mem,
      decide_eq_true_eq, tidy.mem_hidden]
    constructor
    · rintro ⟨_, behind, rfl, there⟩
      exact ⟨there, behind⟩
    · rintro ⟨there, behind⟩
      exact ⟨line.1, behind, rfl, there⟩
  · apply List.Nodup.filterMap
    · intro place place' line found found'
      rw [← (lineAt_eq_some.1 found).1, (lineAt_eq_some.1 found').1]
    · exact (List.nodup_append.1 tidy.once).2.1
  · exact p.nodup_places.of_map.filter _

theorem lines_perm : (p.sections.flatMap Section.lines).Perm p.candidates := by
  let behind (fold : Fold Nat) := fold.hidden.filterMap p.lineAt
  have folded : (p.visible.flatMap fun line => ((p.toggleAt line.1).map behind).getD []) =
      ((p.visible.map Prod.fst).filterMap p.toggleAt).flatMap behind := by
    rw [List.filterMap_map, List.filterMap_eq_flatMap_toList, List.flatMap_assoc]
    apply List.flatMap_congr
    intro line _
    cases found : p.toggleAt line.1 <;> simp [found]
  calc
    p.sections.flatMap Section.lines
    _ = p.visible.flatMap fun line => line :: ((p.toggleAt line.1).map behind).getD [] := by
      rw [sections, List.flatMap_map]
      rfl
    List.Perm _ (p.visible.map id ++
        p.visible.flatMap fun line => ((p.toggleAt line.1).map behind).getD []) :=
      (List.map_append_flatMap_perm ..).symm
    List.Perm _ (p.visible ++ p.toggles.flatMap behind) := by
      rw [List.map_id, folded]
      exact (tidy.toggles_perm.flatMap_right behind).append_left _
    List.Perm _ (p.visible ++ p.candidates.filter fun line => p.hidden.contains line.1) :=
      tidy.hidden_perm.append_left _
    List.Perm _ p.candidates :=
      List.perm_append_comm.trans (List.filter_append_perm ..)

theorem count_eq : (p.sections.map Section.count).sum + p.sections.length = p.lines.length := by
  rw [← Section.length_flatMap_lines, tidy.lines_perm.length_eq, candidates, List.length_map,
    List.length_zipIdx]

end Tidy

end Page

end ImplFamilies
