import ImplFamilies.Proofs.Grammar.ErrorSpan
import ImplFamilies.Proofs.Grammar.SignatureExpectations

/-!
Whether a rejected text is told what was expected. The names of two words that could have stood at
one place put each other out, and no rule names a character there: so nothing is said at the
opening, where `unsafe` and `impl` are missed, nor behind a star, where `mut` and `const` are.
Everywhere else the error says what was expected.
-/

namespace ImplFamilies

open Grammar Text

namespace Sequence

theorem sortedSet_eq_nil_iff {α : Type} {cmp : α → α → Ordering} {items : List α} :
    sortedSet cmp items = [] ↔ items = [] := by
  rcases List.eq_nil_or_concat items with rfl | ⟨front, x, rfl⟩
  · exact iff_of_true rfl rfl
  · rw [List.concat_eq_append]
    refine iff_of_false (fun none => ?_) (List.append_ne_nil_of_right_ne_nil _ (by simp))
    rw [sortedSet_concat] at none
    generalize sortedSet cmp front = sorted at none
    cases sorted with
    | nil => cases none
    | cons y ys =>
      unfold insertNew at none
      split at none <;> cases none

end Sequence

namespace Text

def lastInk (cs : List Char) : Option Char :=
  cs.reverse.find? fun c => !isBlank c

theorem lastInk_append (cs ds : List Char) : lastInk (cs ++ ds) = (lastInk ds).or (lastInk cs) := by
  rw [lastInk, List.reverse_append, List.find?_append]
  rfl

theorem lastInk_eq_none {cs : List Char} : lastInk cs = none ↔ ∀ c ∈ cs, isBlank c = true := by
  simp [lastInk]

theorem lastInk_takeWhile (cs : List Char) : lastInk (cs.takeWhile isBlank) = none :=
  lastInk_eq_none.2 fun c mem => List.all_eq_true.1 List.all_takeWhile c mem

theorem lastInk_concat {c : Char} {blanks : List Char} (ink : isBlank c = false)
    (blank : lastInk blanks = none) (front : List Char) :
    lastInk (front ++ c :: blanks) = some c := by
  have last : lastInk [c] = some c := by simp [lastInk, ink]
  rw [lastInk_append, ← List.singleton_append, lastInk_append, blank, last]
  rfl

theorem eq_of_lastInk {cs : List Char} {c : Char} (h : lastInk cs = some c) :
    ∃ front blanks, cs = front ++ c :: blanks ∧ ∀ x ∈ blanks, isBlank x = true := by
  obtain ⟨-, blanks, front, split, blank⟩ := List.find?_eq_some_iff_append.1 h
  refine ⟨front.reverse, blanks.reverse, ?_, fun x mem => ?_⟩
  · rw [← List.reverse_reverse cs, split]
    simp
  · simpa using blank x (List.mem_reverse.1 mem)

theorem skipBlanks_append_of_blank {blanks : List Char} (blank : ∀ x ∈ blanks, isBlank x = true)
    (cs : List Char) : skipBlanks (blanks ++ cs) = skipBlanks cs := by
  rw [skipBlanks, List.dropWhile_append_of_pos blank]
  rfl

end Text

namespace SyntaxError

variable {f : Failure}

theorem expectations_eq_nil_iff :
    expectations f = [] ↔ f.expected = [] ∧ labelTexts f.label = [] ∧ f.remark = none := by
  rw [expectations, Sequence.sortedSet_eq_nil_iff]
  simp

theorem expectations_ne_nil_of_expected (said : f.expected ≠ []) : expectations f ≠ [] :=
  fun none => said (expectations_eq_nil_iff.1 none).1

theorem expectations_ne_nil_of_named {name : String} (label : f.label = .named name) :
    expectations f ≠ [] := by
  intro none
  have unnamed := (expectations_eq_nil_iff.1 none).2.1
  rw [label] at unnamed
  cases unnamed

end SyntaxError

namespace Grammar

/-- A place where one of two words is missed: nothing stands before it, or a star whose pointer is
neither `mut` nor `const`. -/
def TwoWords (before behind : List Char) : Prop :=
  lastInk before = none ∨ lastInk before = some '*' ∧
    (skipBlanks behind).takeWhile isWordChar ∉ ["mut".toList, "const".toList]

theorem isDeadEnd_star {cs : List Char} :
    isDeadEnd ('*' :: cs) = true ↔
      (skipBlanks cs).takeWhile isWordChar ∉ ["mut".toList, "const".toList] := by
  rw [isDeadEnd, Bool.not_eq_true', ← Bool.not_eq_true, List.contains_iff_mem]

theorem isDeadEnd_of_fromDeadEnd {cs : List Char} {x : Char} {after : List Char}
    (h : fromDeadEnd cs = x :: after) : isDeadEnd (x :: after) = true := by
  induction cs with
  | nil => cases h
  | cons c cs ih =>
    unfold fromDeadEnd at h
    split at h
    · rwa [← h]
    · exact ih h

variable {source before behind front : List Char} {f : Failure} {c c₀ : Cursor}

structure Failure.Stands (f : Failure) (source before behind : List Char) : Prop where
  split : source = before ++ behind
  start : f.start = before.length

theorem Failure.Stands.unique {before' behind' : List Char} (h : f.Stands source before behind)
    (h' : f.Stands source before' behind') : before = before' ∧ behind = behind' :=
  List.append_inj (h.split.symm.trans h'.split) (h.start.symm.trans h'.start)

theorem Cursor.Reads.offset_eq (reads : (Cursor.ofText source).Reads before c) :
    c.offset = before.length :=
  reads.offset.trans (Nat.zero_add _)

theorem Cursor.Reads.stands (reads : (Cursor.ofText source).Reads before c)
    (start : f.start = c.offset) : f.Stands source before c.rest where
  split := reads.rest
  start := start.trans reads.offset_eq

theorem Failure.Stands.beyond (h : f.Stands source before behind)
    (reads : (Cursor.ofText source).Reads front c) (on : c.offset ≤ f.start) :
    ∃ read, before = front ++ read ∧ c.rest = read ++ behind := by
  have split : source = front ++ c.rest := reads.rest
  have first : front <+: source := ⟨c.rest, split.symm⟩
  have shorter : front.length ≤ before.length := by
    rw [← h.start, ← reads.offset_eq]
    exact on
  obtain ⟨read, rfl⟩ := List.prefix_of_prefix_length_le first ⟨behind, h.split.symm⟩ shorter
  refine ⟨read, rfl, ?_⟩
  rw [h.split, List.append_assoc] at split
  exact (List.append_cancel_left split).symm

/-- Up to the first dead end there is none: no star before the place lacks its word. -/
theorem Failure.Stands.not_twoWords_of_near {x : Char} (h : f.Stands source before behind)
    (reads : (Cursor.ofText source).Reads front c) (ink : lastInk front = some x) (ne : x ≠ '*')
    (on : c.offset ≤ f.start) (near : f.start ≤ c.stretch.stop) : ¬TwoWords before behind := by
  obtain ⟨read, rfl, rest⟩ := h.beyond reads on
  rw [TwoWords, lastInk_append, ink]
  rintro (none | ⟨last, other⟩)
  · simp at none
  · have star : lastInk read = some '*' := by
      cases last' : lastInk read with
      | none =>
        rw [last', Option.none_or] at last
        exact absurd (Option.some.inj last) ne
      | some y => rwa [last', Option.some_or] at last
    obtain ⟨clear, blanks, rfl, blank⟩ := eq_of_lastInk star
    have dead : isDeadEnd ('*' :: (blanks ++ behind)) = true := by
      rwa [isDeadEnd_star, skipBlanks_append_of_blank blank]
    have level := length_le_fromDeadEnd dead clear
    have whole : clear ++ '*' :: (blanks ++ behind) = c.rest := by
      rw [rest]
      simp
    have offset := reads.offset_eq
    have start := h.start
    have length := congrArg List.length whole
    have suffix := (fromDeadEnd_suffix c.rest).length_le
    rw [whole] at level
    simp only [Cursor.stretch, List.length_append, List.length_cons] at near level length start
    omega

theorem Cursor.reads_stretch (c : Cursor) :
    ∃ clear, c.Reads clear ⟨c.stretch.stop, c.stretch.rest⟩ := by
  obtain ⟨clear, split⟩ := fromDeadEnd_suffix c.rest
  refine ⟨clear, split.symm, ?_⟩
  have length := congrArg List.length split
  rw [List.length_append] at length
  simp only [Cursor.stretch]
  omega

theorem Failure.Stands.silent_iff_of_stuck (h : f.Stands source before behind)
    (reads : (Cursor.ofText source).Reads front c) (stuck : c.stretch.Stuck f) :
    SyntaxError.expectations f = [] ↔ TwoWords before behind := by
  obtain ⟨clear, past⟩ := c.reads_stretch
  have upTo := reads.append past
  cases stuck with
  | @quote after rest start label =>
    rw [rest] at upTo
    have at_quote := upTo.append (Cursor.reads_one c.stretch.stop _ after)
    obtain ⟨rfl, rfl⟩ := h.unique (at_quote.stands start)
    refine iff_of_false (SyntaxError.expectations_ne_nil_of_named label) ?_
    rw [TwoWords, lastInk_concat (by decide) rfl]
    simp
  | @semicolon after rest start label =>
    rw [rest] at upTo
    have behind_it := upTo.append ((Cursor.reads_one c.stretch.stop _ after).append
      (Cursor.reads_skipWhile isBlank _))
    obtain ⟨rfl, rfl⟩ := h.unique (behind_it.stands start)
    refine iff_of_false (SyntaxError.expectations_ne_nil_of_named label) ?_
    rw [TwoWords, List.singleton_append, lastInk_concat (by decide) (lastInk_takeWhile after)]
    simp
  | @star after rest start expected label remark =>
    rw [rest] at upTo
    have behind_it := upTo.append ((Cursor.reads_one c.stretch.stop _ after).append
      (Cursor.reads_skipWhile isBlank _))
    obtain ⟨rfl, rfl⟩ := h.unique (behind_it.stands start)
    refine iff_of_true ?_ (.inr ⟨?_, ?_⟩)
    · exact SyntaxError.expectations_eq_nil_iff.2 ⟨expected, by rw [label]; rfl, remark⟩
    · exact lastInk_concat (by decide) (lastInk_takeWhile after) _
    · have dead := isDeadEnd_of_fromDeadEnd (show fromDeadEnd c.rest = '*' :: after from rest)
      have same : skipBlanks (skipBlanks after) = skipBlanks after := skipBlanks_skipBlanks after
      rw [isDeadEnd_star, ← same] at dead
      exact dead

theorem Cursor.Reads.pastWord (letters : List Char) (x : Char) (reads : c₀.Reads front c)
    (word : c.rest.takeWhile isWordChar = letters ++ [x]) (ink : isBlank x = false) :
    ∃ read, c₀.Reads read c.pastWord ∧ lastInk read = some x := by
  refine ⟨_, reads.append ((Cursor.reads_skipWhile isWordChar c).append
    (Cursor.reads_skipWhile isBlank _)), ?_⟩
  rw [word, List.append_assoc, ← List.append_assoc, List.singleton_append]
  exact lastInk_concat ink (lastInk_takeWhile _) _

theorem standsFrom_of_refused {α : Type} {p : Rule α} [Forward p] (refused : p c = .fail f) :
    StandsFrom c f := by
  have advances := Forward.advances (p := p) c
  rw [refused] at advances
  cases advances with
  | fail told => exact told

/-- A refused text is silent about what was expected exactly where two words are missed. -/
theorem silent_iff_twoWords (refused : readSignature source = .fail f)
    (h : f.Stands source before behind) :
    SyntaxError.expectations f = [] ↔ TwoWords before behind := by
  have opening := Cursor.reads_skipWhile isBlank (Cursor.ofText source)
  cases verdict_of_refused refused with
  | opening start expected label remark =>
    obtain ⟨rfl, -⟩ := h.unique (opening.stands start)
    refine iff_of_true ?_ (.inl (lastInk_takeWhile source))
    exact SyntaxError.expectations_eq_nil_iff.2 ⟨expected, by rw [label]; rfl, remark⟩
  | second word start label =>
    obtain ⟨read, reads, ink⟩ := opening.pastWord "unsaf".toList 'e' word (by decide)
    obtain ⟨rfl, -⟩ := h.unique (reads.stands start)
    refine iff_of_false (SyntaxError.expectations_ne_nil_of_named label) ?_
    rw [TwoWords, ink]
    simp
  | behind c₁ place word speaks =>
    obtain ⟨front, reads⟩ : ∃ front, (Cursor.ofText source).Reads front c₁ := by
      rcases place with rfl | ⟨mark, rfl⟩
      · exact ⟨_, opening⟩
      · obtain ⟨read, reads, -⟩ := opening.pastWord "unsaf".toList 'e' mark (by decide)
        exact ⟨read, reads⟩
    obtain ⟨read, reads, ink⟩ := reads.pastWord "imp".toList 'l' word (by decide)
    have told : StandsFrom (Cursor.ofText source) f := standsFrom_of_refused refused
    have near (le : f.reach ≤ c₁.pastWord.stretch.stop) : ¬TwoWords before behind :=
      h.not_twoWords_of_near reads ink (by decide) speaks.start_le
        (Nat.le_trans told.start_le_reach le)
    rcases speaks with ⟨-, ⟨le, expected⟩ | ⟨-, stuck⟩⟩ | ⟨-, le, name, label⟩
    · exact iff_of_false (SyntaxError.expectations_ne_nil_of_expected expected) (near le)
    · exact h.silent_iff_of_stuck reads stuck
    · exact iff_of_false (SyntaxError.expectations_ne_nil_of_named label) (near le)

end Grammar

/-- The error of a text that is no signature says nothing of what was expected exactly where one of
two words was missed: behind nothing but white space, and behind a star with neither `mut` nor
`const` behind it. At every other place it says what was expected. -/
theorem expectations_missing_iff (text : String) (e : SyntaxError)
    (rejected : Signature.ofText text = .error e) :
    e.expected = [] ↔ ∃ before behind, text.toList = before ++ behind ∧
      e.position = .after before ∧ TwoWords before behind := by
  cases outcome : readSignature text.toList with
  | ok value c hint =>
    rw [Signature.ofText, outcome] at rejected
    cases rejected
  | fail f =>
    rw [Signature.ofText, outcome] at rejected
    obtain rfl := Except.error.inj rejected
    obtain ⟨before, refused, behind, cuts⟩ := (standsFrom_of_refused outcome).cuts
    have split : text.toList = before ++ (refused ++ behind) := by
      rw [cuts.source, List.append_assoc]
    have position : (SyntaxError.ofFailure text.toList f).position = .after before := by
      rw [SyntaxError.ofFailure, cuts.start, split, Position.ofIndex_length]
    constructor
    · intro missing
      exact ⟨before, refused ++ behind, split, position,
        (silent_iff_twoWords outcome ⟨split, cuts.start⟩).1 missing⟩
    · rintro ⟨before', behind', split', position', twoWords⟩
      obtain rfl : before' = before :=
        Position.eq_of_after_eq (split'.symm.trans split) (position'.symm.trans position)
      exact (silent_iff_twoWords outcome ⟨split', cuts.start⟩).2 twoWords

/-- A pointer that is neither `mut` nor `const`. -/
theorem expectations_missing_behind_star :
    ∃ e, Signature.ofText "unsafe impl Foo for *B" = .error e ∧ e.position = ⟨21, 1, 22⟩ ∧
      e.expected = [] := by
  obtain ⟨e, rejected⟩ : ∃ e, Signature.ofText "unsafe impl Foo for *B" = .error e := ⟨_, rfl⟩
  have missing := expectations_missing_iff _ e rejected
  have position : e.position = ⟨21, 1, 22⟩ := by
    obtain rfl := (Except.error.inj rejected).symm
    decide +kernel
  refine ⟨e, rejected, position, missing.2 ⟨"unsafe impl Foo for *".toList, ['B'], ?_, ?_, ?_⟩⟩
  · decide
  · rw [position]
    decide +kernel
  · exact .inr ⟨by decide, by decide⟩

/-- Nothing is said of the two words that can open a signature. -/
theorem not_every_rejection_tells :
    ¬∀ text e, Signature.ofText text = .error e → e.expected ≠ [] :=
  fun tells => tells "" _ rfl rfl

end ImplFamilies
