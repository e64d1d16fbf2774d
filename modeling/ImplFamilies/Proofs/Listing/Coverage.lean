import ImplFamilies.Proofs.Listing.GroupRows
import ImplFamilies.Proofs.Listing.Sections
import ImplFamilies.Text.Lines

/-!
Every line is shown once. Folding asks for a page on which each line is in sight or behind one
control, so the plain listing holds every line once, opened or closed, and the groups hold what
arrived, so the listing by groups does too.
-/

namespace ImplFamilies

namespace Change

def toggle? {ν : Type} : Change ν → Option (Fold ν)
  | .hide _ => none
  | .toggle fold => some fold

def toggles {ν : Type} (changes : List (Change ν)) : List (Fold ν) :=
  changes.filterMap toggle?

variable {ν μ : Type}

theorem hidden_cons_hide (node : ν) (changes : List (Change ν)) :
    hidden (.hide node :: changes) = node :: hidden changes := rfl

theorem toggles_cons_toggle (fold : Fold ν) (changes : List (Change ν)) :
    toggles (.toggle fold :: changes) = fold :: toggles changes := rfl

theorem anchors_map (f : ν → μ) (changes : List (Change ν)) :
    anchors (changes.map (map f)) = (anchors changes).map f := by
  rw [anchors, anchors, List.filterMap_map, List.map_filterMap]
  congr 1
  funext change
  cases change <;> rfl

theorem mem_hidden {changes : List (Change ν)} {node : ν} :
    node ∈ hidden changes ↔ .hide node ∈ changes := by
  rw [hidden, List.mem_filterMap]
  constructor
  · rintro ⟨change, asked, same⟩
    cases change with
    | hide other => exact Option.some.inj same ▸ asked
    | toggle fold => cases same
  · intro asked
    exact ⟨_, asked, rfl⟩

theorem mem_toggles {changes : List (Change ν)} {fold : Fold ν} :
    fold ∈ toggles changes ↔ .toggle fold ∈ changes := by
  rw [toggles, List.mem_filterMap]
  constructor
  · rintro ⟨change, asked, same⟩
    cases change with
    | hide node => cases same
    | toggle other => exact Option.some.inj same ▸ asked
  · intro asked
    exact ⟨_, asked, rfl⟩

theorem anchors_eq_toggles (changes : List (Change ν)) :
    anchors changes = (toggles changes).map Fold.anchor := by
  rw [anchors, toggles, List.map_filterMap]
  congr 1
  funext change
  cases change <;> rfl

theorem hidden_folds (folds : List (Fold ν)) :
    hidden (folds.flatMap Fold.changes) = folds.flatMap Fold.hidden := by
  rw [hidden, List.filterMap_flatMap]
  exact List.flatMap_congr fun fold _ => fold.hidden_changes

theorem toggles_changes (fold : Fold ν) : toggles fold.changes = [fold] := by
  rw [Fold.changes, toggles, List.filterMap_append, List.filterMap_map]
  simp [Function.comp_def, toggle?]

theorem toggles_folds (folds : List (Fold ν)) : toggles (folds.flatMap Fold.changes) = folds := by
  rw [toggles, List.filterMap_flatMap]
  calc
    _ = folds.flatMap fun fold => [fold] := List.flatMap_congr fun fold _ => toggles_changes fold
    _ = folds := List.flatMap_singleton' folds

end Change

namespace Page

theorem applyAll_eq (changes : List (Change Nat)) (p : Page) :
    p.applyAll changes = ⟨p.lines, (Change.hidden changes).reverse ++ p.hidden,
      (Change.toggles changes).reverse ++ p.toggles⟩ := by
  induction changes generalizing p with
  | nil => rfl
  | cons change changes ih =>
    rw [applyAll, List.foldl_cons, ← applyAll, ih]
    cases change with
    | hide node =>
      rw [Change.hidden_cons_hide, List.reverse_cons, List.append_assoc]
      rfl
    | toggle fold =>
      rw [Change.toggles_cons_toggle, List.reverse_cons, List.append_assoc]
      rfl

theorem texts_candidates (p : Page) : p.candidates.map Prod.snd = p.lines := by
  rw [candidates, List.map_map]
  exact List.zipIdx_map_fst 0 p.lines

/-- A page is tidy after folds that touch no place twice. -/
theorem tidy_folded {lines : List String} {folds : List (Fold Nat)}
    (once : (Folding.touched (folds.flatMap Fold.changes)).Nodup)
    (within : ∀ place ∈ Folding.touched (folds.flatMap Fold.changes), place < lines.length) :
    ((Page.ofLines lines).applyAll (folds.flatMap Fold.changes)).Tidy := by
  rw [Folding.touched, Change.anchors_eq_toggles, Change.toggles_folds, Change.hidden_folds]
    at once within
  have same : (folds.reverse.map Fold.anchor ++ folds.reverse.flatMap Fold.hidden).Perm
      (folds.map Fold.anchor ++ folds.flatMap Fold.hidden) :=
    ((List.reverse_perm folds).map _).append ((List.reverse_perm folds).flatMap_right _)
  rw [applyAll_eq, Change.toggles_folds, Change.hidden_folds]
  constructor
  case once => simpa [ofLines] using same.nodup_iff.2 once
  case within =>
    intro place touched
    refine within place (same.mem_iff.1 ?_)
    simpa [ofLines] using touched
  case mem_hidden => simp [ofLines]

end Page

namespace Folding

theorem places_of_range {xs ys : List Nat} {n : Nat}
    (found : xs.map some = ys.map fun i => (List.range n)[i]?) : xs = ys ∧ ∀ x ∈ xs, x < n := by
  induction xs generalizing ys with
  | nil => cases ys <;> simp_all
  | cons x xs ih =>
    cases ys with
    | nil => cases found
    | cons y ys =>
      rw [List.map_cons, List.map_cons, List.cons.injEq] at found
      obtain ⟨inside, rfl⟩ := List.getElem?_eq_some_iff.1 found.1.symm
      obtain ⟨rfl, rest⟩ := ih found.2
      rw [List.getElem_range, List.forall_mem_cons]
      exact ⟨rfl, by simpa using inside, rest⟩

theorem touched_eq {lines : List String} {groups : List Group} {changes : List (Change Nat)}
    (exact : FoldsExactly (Page.ofLines lines).candidates groups changes) :
    touched changes = touched (askedPlaces groups) ∧
      ∀ place ∈ touched changes, place < lines.length := by
  apply places_of_range
  have calls := exact.calls
  rw [Page.places_candidates] at calls
  have anchors := congrArg Change.anchors calls
  have hidden := congrArg Change.hidden calls
  rw [Change.anchors_map, Change.anchors_map] at anchors
  rw [Change.hidden_map, Change.hidden_map] at hidden
  rw [touched, touched, List.map_append, List.map_append, anchors, hidden]
  rfl

end Folding

namespace Clustering

theorem readable_of_pushed {texts : List String} {c c' : Clustering}
    (pushed : c.pushUntilRefused texts = .ok c') : Readable texts := by
  induction texts generalizing c with
  | nil => exact fun _ none => absurd none List.not_mem_nil
  | cons text texts ih =>
    have reads : ∀ violation, Reading.ofText text ≠ .refused violation := by
      intro violation reading
      rw [pushUntilRefused_of_error (push_of_refused c reading)] at pushed
      cases pushed
    rw [pushUntilRefused_cons c texts reads] at pushed
    exact List.forall_mem_cons.2 ⟨reads, ih pushed⟩

theorem readable_of_grouped {texts : List String} {groups : List Group}
    (grouped : Group.ofTexts texts = .ok groups) : Readable texts := by
  rw [Group.ofTexts] at grouped
  cases pushed : empty.pushUntilRefused texts with
  | error refusal => simp [pushed, Except.map] at grouped
  | ok c => exact readable_of_pushed pushed

theorem lines_arrived {texts : List String} (reads : Readable texts) :
    (arrived texts).map Member.line = (Page.ofLines texts).candidates := by
  rw [arrived, List.map_filterMap, Page.candidates, ← List.filterMap_eq_map]
  apply List.filterMap_congr
  rintro ⟨text, i⟩ there
  obtain ⟨m, becomes⟩ :=
    Reading.exists_member? (reads text (List.fst_mem_of_mem_zipIdx there)) i text
  obtain ⟨rfl, rfl⟩ := Reading.place_of_member? becomes
  simp only [becomes]
  rfl

end Clustering

namespace Folding

/-- The renderings of folded lines. The plain listing consists of sections: a line in sight, and
when a control stands at it, a caption, behind which are the lines that it hides. -/
structure ShowsEachOnce (lines : List String) (folding : Folding Nat)
    (sections : List Section) : Prop where
  opened (captions : Captions) :
    ((Page.ofLines lines).applyAll folding.changes).listing captions true =
      sections.flatMap (Section.opened captions)
  closed (captions : Captions) :
    ((Page.ofLines lines).applyAll folding.changes).listing captions false =
      sections.flatMap (Section.closed captions)
  in_order : sections.map Section.shown =
    (Page.ofLines lines).candidates.filter fun line => .hide line.1 ∉ folding.changes
  toggled (s : Section) (places : List Nat) : s ∈ sections →
    (s.folded.map (List.map Prod.fst) = some places ↔
      .toggle ⟨s.shown.1, places⟩ ∈ folding.changes)
  anchored (fold : Fold Nat) : .toggle fold ∈ folding.changes →
    ∃ s ∈ sections, s.shown.1 = fold.anchor
  /-- Every line is in one section, in sight or behind the caption. -/
  once : (sections.flatMap Section.lines).Perm (Page.ofLines lines).candidates
  /-- The numbers on the captions and the lines in sight add up. -/
  count : (sections.map Section.count).sum + sections.length = lines.length
  tree : Group.treeListing folding.groups = (Group.treeRows folding.groups).map TreeRow.text
  /-- Every line is in one row, that of a lead, of another member or of no signature. -/
  tree_once : ((Group.treeRows folding.groups).filterMap TreeRow.line?).Perm
    (Page.ofLines lines).candidates

theorem readable_of_ok {ν : Type} {candidates : List (ν × String)} {folding : Folding ν}
    (folded : ofCandidates candidates = .ok folding) :
    Clustering.Readable (candidates.map Prod.snd) := by
  cases pushed : Clustering.empty.pushUntilRefused (candidates.map Prod.snd) with
  | error refusal => simp [ofCandidates_of_error pushed] at folded
  | ok c => exact Clustering.readable_of_grouped (by rw [Group.ofTexts, pushed]; rfl)

/-- Folds are asked of the lines, place by place, and the groups hold the lines. -/
theorem folds_of_ok {lines : List String} {folding : Folding Nat}
    (folded : ofCandidates (Page.ofLines lines).candidates = .ok folding) :
    (∃ folds : List (Fold Nat), folding.changes = folds.flatMap Fold.changes) ∧
      FoldsExactly (Page.ofLines lines).candidates folding.groups folding.changes ∧
      ((folding.groups.flatMap Group.members).map Member.line).Perm
        (Page.ofLines lines).candidates := by
  have reads := readable_of_ok folded
  obtain ⟨answer, asks⟩ := ofCandidates_of_readable reads
  rw [asks, folded] at answer
  obtain rfl := Except.ok.inj answer
  refine ⟨⟨_, rfl⟩, foldsExactly_of_readable reads, ?_⟩
  rw [Page.texts_candidates] at reads ⊢
  exact Clustering.lines_arrived reads ▸ (Clustering.members_pushAll lines).map Member.line

theorem tidy_of_ok {lines : List String} {folding : Folding Nat}
    (folded : ofCandidates (Page.ofLines lines).candidates = .ok folding) :
    ((Page.ofLines lines).applyAll folding.changes).Tidy := by
  obtain ⟨⟨folds, asks⟩, exact, -⟩ := folds_of_ok folded
  obtain ⟨same, within⟩ := touched_eq exact
  have once := same ▸ exact.once
  rw [asks] at once within ⊢
  exact Page.tidy_folded once within

/-- For every text and mark of comments: when the lines fold, each of them is in the open listing
once, in sight or behind one caption; the closed listing shows the same lines in sight and counts
the others; and the listing by groups shows each once as well. -/
theorem renderings_show_each_line_once (contents mark : String) (folding : Folding Nat)
    (folded : ofCandidates (Page.ofLines (Text.signatureLines contents mark)).candidates =
      .ok folding) :
    ∃ sections, ShowsEachOnce (Text.signatureLines contents mark) folding sections := by
  generalize Text.signatureLines contents mark = lines at folded ⊢
  have tidy := tidy_of_ok folded
  obtain ⟨-, -, held⟩ := folds_of_ok folded
  refine ⟨((Page.ofLines lines).applyAll folding.changes).sections, ?_⟩
  constructor
  case opened => exact Page.listing_opened _
  case closed => exact tidy.listing_closed
  case in_order =>
    rw [Page.shown_sections, Page.visible, Page.applyAll_eq]
    simp [Page.ofLines, Page.candidates, Change.mem_hidden]
  case toggled =>
    intro s places there
    rw [tidy.toggled there, Page.applyAll_eq, ← Change.mem_toggles]
    simp [Page.ofLines]
  case anchored =>
    intro fold asked
    apply tidy.anchored
    rw [Page.applyAll_eq]
    simpa [Page.ofLines, Change.mem_toggles] using asked
  case once =>
    have all := tidy.lines_perm
    rwa [Page.applyAll_eq] at all ⊢
  case count =>
    rw [tidy.count_eq, Page.applyAll_eq]
    rfl
  case tree => exact Group.treeListing_eq_rows folding.groups
  case tree_once => exact (Group.lines_treeRows_perm folding.groups).trans held

/-- A one-place tuple is listed behind the pair; the comment and the blank line are no lines. -/
theorem tuples_and_string_shown_once :
    let lines := Text.signatureLines
      "# tuples\nimpl<A> Debug for (A,)\n\nimpl Debug for String\nimpl<A, B> Debug for (A, B)\n" "#"
    ∃ folding, ofCandidates (Page.ofLines lines).candidates = .ok folding ∧
      (∃ sections, ShowsEachOnce lines folding sections) ∧
      ((Page.ofLines lines).applyAll folding.changes).listing ⟨"Show", "Hide"⟩ true =
        ["impl Debug for String", "impl<A, B> Debug for (A, B)", "    [-] Hide",
          "        impl<A> Debug for (A,)"] := by
  intro lines
  have reads : Clustering.Readable ((Page.ofLines lines).candidates.map Prod.snd) := by
    decide +kernel
  have changes : asked (Page.ofLines lines).candidates = [.hide 0, .toggle ⟨2, [0]⟩] := by
    decide +kernel
  obtain ⟨folded, -⟩ := ofCandidates_of_readable reads
  rw [changes] at folded
  exact ⟨_, folded, renderings_show_each_line_once _ _ _ folded, by decide +kernel⟩

end Folding

end ImplFamilies
