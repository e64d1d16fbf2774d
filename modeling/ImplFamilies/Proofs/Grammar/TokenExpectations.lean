import ImplFamilies.Proofs.Grammar.ExpectationInvariant

/-!
What is expected where a token fails. Punctuation informs of the character that is missing, and so
do names, which could open with a dot; a keyword tells its name only. Of the three characters behind
which a dead end may be, each is read together with what must follow it.
-/

namespace ImplFamilies.Grammar

open Text Rule

variable {α β : Type}

namespace Outcome.All

variable {good : Cursor → Option Failure → Prop} {bad : Failure → Prop} {p : Rule α} {c : Cursor}

theorem labelled {name : String}
    (h : (p c).All (fun c₁ hint => good c₁ (hint.map (Failure.withLabel name)))
      fun e => bad (e.withLabel name)) : (labelled name p c).All good bad := by
  unfold Rule.labelled
  generalize p c = x at h ⊢
  cases x <;> exact h

theorem padded
    (h : (p (c.skipWhile isBlank)).All (fun c₁ hint => good (c₁.skipWhile isBlank) hint) bad) :
    (padded p c).All good bad := by
  unfold Rule.padded
  generalize p (c.skipWhile isBlank) = x at h ⊢
  cases x <;> exact h

theorem padded_of_skipped (skipped : c.skipWhile isBlank = c)
    (h : (p c).All (fun c₁ hint => good (c₁.skipWhile isBlank) hint) bad) :
    (Rule.padded p c).All good bad :=
  .padded (by rwa [skipped])

end Outcome.All

theorem Outcome.All.keepRight_ok {good : Cursor → Option Failure → Prop} {bad : Failure → Prop}
    {p : Rule α} {q : Rule β} {c c₁ : Cursor} {a : α} (first : p c = .ok a c₁ none)
    (second : (q c₁).All good bad) : (p.keepRight q c).All good bad := by
  refine .map ?_ Prod.snd
  unfold Rule.andThen
  rw [first]
  dsimp only
  generalize q c₁ = x at second ⊢
  cases x <;> exact second

theorem Outcome.All.keepRight_fail {good : Cursor → Option Failure → Prop} {bad : Failure → Prop}
    {p : Rule α} {q : Rule β} {c : Cursor} {e : Failure} (first : p c = .fail e) (h : bad e) :
    (p.keepRight q c).All good bad := by
  refine .map ?_ Prod.snd
  unfold Rule.andThen
  rw [first]
  exact h

theorem run₁_of_none {p : Char → Bool} {c : Cursor} (none : c.rest.takeWhile p = []) :
    run₁ p c = .fail (c.unexpected []) := by
  rw [run₁, none]

theorem run₁_of_some {p : Char → Bool} {c : Cursor} (some : c.rest.takeWhile p ≠ []) :
    run₁ p c = run p c := by
  unfold run₁
  split
  · exact absurd ‹_› some
  · rfl

theorem literal_single (x : Char) (c : Cursor) :
    literal [x] c =
      if c.rest.head? = some x then .ok () ⟨c.offset + 1, c.rest.tail⟩ none
      else .fail (c.unexpected [.char x]) := by
  obtain ⟨offset, rest⟩ := c
  cases rest with
  | nil => rfl
  | cons y rest =>
    by_cases same : x = y
    · simp [literal, same]
    · simp [literal, same, Ne.symm same]

def Cursor.behind (c : Cursor) : Cursor :=
  Cursor.skipWhile isBlank ⟨c.offset + 1, c.rest.tail⟩

theorem Cursor.lt_offset_behind (c : Cursor) : c.offset < c.behind.offset :=
  Nat.lt_of_lt_of_le (Nat.lt_succ_self _) (Nat.le_add_right ..)

theorem Cursor.skipWhile_behind (c : Cursor) : c.behind.skipWhile isBlank = c.behind :=
  Cursor.skipWhile_of_skipped (skipBlanks_skipBlanks _)

namespace Stretch

variable {S : Stretch} {c c₁ : Cursor} {e f : Failure}

theorem Within.stop_of_isDeadEnd (h : S.Within c) (dead : isDeadEnd c.rest = true) :
    S.rest = c.rest ∧ S.stop = c.offset := by
  have rest : S.rest = c.rest := h.rest.symm.trans (fromDeadEnd_of_isDeadEnd dead)
  have level := h.level
  rw [rest] at level
  exact ⟨rest, by omega⟩

theorem Within.tail {x : Char} {cs : List Char} (h : S.Within c) (rest : c.rest = x :: cs)
    (alive : isDeadEnd c.rest = false) : S.Within ⟨c.offset + 1, cs⟩ := by
  have reads : c.Reads [x] ⟨c.offset + 1, cs⟩ := ⟨rest, rfl⟩
  refine h.reads reads ?_
  rw [rest] at alive ⊢
  exact (fromDeadEnd_cons alive).symm

structure NamesCharacter (S : Stretch) (e : Failure) : Prop where
  start_le : S.start ≤ e.start
  near : e.reach ≤ S.stop
  expected : e.expected ≠ []

theorem NamesCharacter.informs (h : S.NamesCharacter e) : S.Informs e :=
  ⟨h.start_le, .inl ⟨h.near, h.expected⟩⟩

theorem NamesCharacter.withLabel (h : S.NamesCharacter e) (name : String) :
    S.NamesCharacter (e.withLabel name) :=
  ⟨h.start_le, h.near, h.expected⟩

theorem NamesCharacter.furthest_of_le (h : S.NamesCharacter e) (near : f.reach ≤ e.reach) :
    S.NamesCharacter (Failure.furthest e f) := by
  rcases Nat.lt_or_eq_of_le near with less | same
  · rwa [Failure.furthest_eq_left less]
  · rw [Failure.furthest_of_eq same.symm]
    exact ⟨h.start_le, h.near, by simp [Failure.joinExpected, h.expected]⟩

theorem Within.shows (h : S.Within c) (x : Expectation) : S.NamesCharacter (c.unexpected [x]) :=
  ⟨h.start_le, h.offset_le_stop, List.cons_ne_nil x []⟩

/-- Characters that ask for nothing are read as they stand, or the first that is missing is told. -/
theorem literal_outcome {cs : List Char} (free : AllFree cs) (within : S.Within c) :
    (literal cs c).All
      (fun c₁ hint => S.Within c₁ ∧ c₁.offset = c.offset + cs.length ∧ hint = none)
      fun e => S.NamesCharacter e ∧ c.offset ≤ e.reach := by
  induction cs generalizing c with
  | nil => exact ⟨within, rfl, rfl⟩
  | cons x cs ih =>
    obtain ⟨first, free⟩ := List.forall_mem_cons.1 free
    obtain ⟨offset, rest⟩ := c
    cases rest with
    | nil => exact ⟨within.shows _, Nat.le_refl _⟩
    | cons y rest =>
      by_cases same : x = y
      · subst same
        dsimp only [literal]
        rw [if_pos rfl]
        refine (ih free (within.tail rfl (isDeadEnd_of_free first rest))).mono ?_ ?_
        · rintro c₁ hint ⟨within, further, none⟩
          refine ⟨within, further.trans ?_, none⟩
          simp only [List.length_cons]
          omega
        · rintro e ⟨shows, further⟩
          exact ⟨shows, Nat.le_trans (Nat.le_succ _) further⟩
      · dsimp only [literal]
        rw [if_neg same]
        exact ⟨within.shows _, Nat.le_refl _⟩

theorem token_outcome {text : String} (free : AllFree text.toList) (holds : S.Holds c) :
    (token text c).All
      (fun c₁ hint => S.Holds c₁ ∧ c.offset + text.toList.length ≤ c₁.offset ∧ hint = none)
      (S.FailureInforms c.offset) := by
  refine .padded_of_skipped holds.skipWhile_eq
    (.labelled ((literal_outcome free holds.toWithin).mono ?_ ?_))
  · rintro c₁ hint ⟨within, further, rfl⟩
    exact ⟨within.holds_skipWhile, further ▸ Nat.le_add_right .., rfl⟩
  · rintro e ⟨shows, further⟩
    exact ⟨(shows.withLabel text).informs, further⟩

theorem informing_token {text : String} (free : AllFree text.toList) (some : text.toList ≠ []) :
    S.Informing .here (token text) := by
  refine fun c holds => (token_outcome free holds).mono ?_ id
  rintro c₁ hint ⟨holds₁, further, rfl⟩
  have longer := List.length_pos_iff.2 some
  have on : c.offset < c₁.offset := by omega
  exact ⟨holds₁, fun e mem => absurd mem (Option.not_mem_none e), .inl on⟩

theorem silentTo_peek {text : String} (free : AllFree text.toList) :
    S.SilentTo .here .here (peek (token text)) := by
  intro c holds
  have outcome := token_outcome free holds
  unfold peek
  generalize token text c = x at outcome ⊢
  cases x with
  | fail e => exact outcome
  | ok a c₁ hint =>
    obtain ⟨-, -, rfl⟩ := outcome
    exact ⟨holds, Nat.le_refl _, fun e mem => absurd mem (Option.not_mem_none e)⟩

theorem noWordFirst_token {text : String} (bare : text.toList.head?.any isWordChar = false)
    (some : text.toList ≠ []) : NoWordFirst (token text) := by
  intro c a c₁ skipped read
  rw [result?_token, skipped] at read
  by_cases opening : text.toList <+: c.rest
  · obtain ⟨rest, opening⟩ := opening
    obtain ⟨x, xs, text⟩ := List.exists_cons_of_ne_nil some
    rw [text, List.cons_append] at opening
    rw [text] at bare
    have other : isWordChar x = false := bare
    rw [← opening, List.takeWhile_cons, other]
    rfl
  · have none : (literal text.toList ⟨(c.skipWhile isBlank).offset, c.rest⟩).result? = none :=
      result?_literal_eq_none opening
    rw [none] at read
    cases read

end Stretch

/- Keywords. -/

def Cursor.refusal (c : Cursor) (text : String) : Failure :=
  if c.rest.head?.any isWordStart = true then
    { reach := Edge.word.offset c
      start := c.offset
      stop := Edge.word.offset c
      expected := []
      found := none
      label := .named text
      remark := none }
  else (c.unexpected []).withLabel text

namespace Cursor

variable (c : Cursor) (text : String)

theorem start_refusal : (c.refusal text).start = c.offset := by
  unfold refusal
  split <;> rfl

theorem expected_refusal : (c.refusal text).expected = [] := by
  unfold refusal
  split <;> rfl

theorem label_refusal : (c.refusal text).label = .named text := by
  unfold refusal
  split <;> rfl

theorem remark_refusal : (c.refusal text).remark = none := by
  unfold refusal
  split <;> rfl

theorem reach_refusal (other : String) : (c.refusal text).reach = (c.refusal other).reach := by
  unfold refusal
  split <;> rfl

theorem reach_refusal_le : (c.refusal text).reach ≤ Edge.word.offset c := by
  unfold refusal
  split
  · exact Nat.le_refl _
  · exact Edge.word.offset_le c

theorem le_reach_refusal : c.offset ≤ (c.refusal text).reach := by
  unfold refusal
  split
  · exact Edge.word.offset_le c
  · exact Nat.le_refl _

end Cursor

theorem keyword_eq {text : String} (start : text.toList.head?.any isWordStart = true) {c : Cursor}
    (skipped : c.skipWhile isBlank = c) :
    keyword text c =
      if c.rest.takeWhile isWordChar = text.toList then
        .ok () ((c.skipWhile isWordChar).skipWhile isBlank)
          (some (((c.skipWhile isWordChar).unexpected []).withLabel text))
      else .fail (c.refusal text) := by
  rw [keyword, padded, skipped]
  obtain ⟨offset, rest⟩ := c
  cases rest with
  | nil =>
    have other : ¬ [] = text.toList := by
      intro same
      rw [← same] at start
      cases start
    rw [List.takeWhile_nil, if_neg other]
    rfl
  | cons x rest =>
    by_cases letter : isWordStart x = true
    · have word := isWordChar_of_isWordStart letter
      have onward : Cursor.skipWhile isWordChar ⟨offset + 1, rest⟩ =
          Cursor.skipWhile isWordChar ⟨offset, x :: rest⟩ := by
        simp only [Cursor.skipWhile, List.takeWhile_cons, List.dropWhile_cons, word, if_true,
          List.length_cons]
        congr 1
        omega
      rw [List.takeWhile_cons, word]
      simp only [Rule.labelled, refine, Rule.word, Rule.map, Rule.andThen, satisfy, letter, run,
        Failure.laterHint, if_true, onward]
      by_cases same : x :: rest.takeWhile isWordChar = text.toList
      · simp only [if_pos same]
        rfl
      · simp only [if_neg same, Cursor.refusal, List.head?_cons, Option.any_some, letter, if_true]
        rfl
    · have other : ¬ (x :: rest).takeWhile isWordChar = text.toList := by
        intro same
        rw [← same] at start
        rw [List.takeWhile_cons] at start
        split at start
        · exact letter start
        · cases start
      rw [if_neg other]
      simp only [Rule.labelled, refine, Rule.word, Rule.map, Rule.andThen, satisfy, letter,
        Cursor.refusal, List.head?_cons, Option.any_some, if_false, Bool.false_eq_true]

namespace Stretch

variable {S : Stretch} {c c₁ : Cursor} {e f : Failure}

theorem token_keepRight {text : String} {x : Char} (single : text.toList = [x]) (holds : S.Holds c)
    {p : Rule β} {good : Cursor → Option Failure → Prop}
    (behind : c.rest = x :: c.rest.tail → (p c.behind).All good (S.FailureInforms c.offset)) :
    ((token text).keepRight p c).All good (S.FailureInforms c.offset) := by
  have tried : token text c =
      if c.rest.head? = some x then .ok () c.behind none
      else .fail ((c.unexpected [.char x]).withLabel text) := by
    rw [token, padded, holds.skipWhile_eq, labelled, single, literal_single]
    by_cases head : c.rest.head? = some x
    · rw [if_pos head, if_pos head]
      rfl
    · rw [if_neg head, if_neg head]
  by_cases head : c.rest.head? = some x
  · obtain ⟨after, rest⟩ := List.head?_eq_some_iff.1 head
    have tail : c.rest = x :: c.rest.tail := by rw [rest]; rfl
    exact .keepRight_ok (tried.trans (if_pos head)) (behind tail)
  · refine .keepRight_fail (tried.trans (if_neg head)) ?_
    exact ⟨((holds.shows _).withLabel _).informs, Nat.le_refl _⟩

theorem hintSilentTo_of_word (within : S.Within c) {p : Char → Bool} {bar : Nat}
    (word : ∀ x, p x = true → isWordChar x = true) (le : bar ≤ (c.skipWhile p).offset)
    (name : String) :
    S.HintSilentTo .here bar ((c.skipWhile p).skipWhile isBlank)
      (some (((c.skipWhile p).unexpected []).withLabel name)) := by
  have read : S.Within (c.skipWhile p) :=
    within.skipWhile fun x letter => free_of_isWordChar (word x letter)
  have on : (c.skipWhile p).offset ≤ ((c.skipWhile p).skipWhile isBlank).offset :=
    Nat.le_add_right ..
  refine ⟨read.holds_skipWhile, Nat.le_trans le on, fun e mem => .inl ?_⟩
  obtain rfl := Option.some.inj mem
  exact Nat.lt_succ_of_le on

theorem keyword_outcome {text : String} (start : text.toList.head?.any isWordStart = true)
    (holds : S.Holds c) :
    (keyword text c).All (S.HintSilentTo .here (Edge.word.offset c)) (· = c.refusal text) := by
  rw [keyword_eq start holds.skipWhile_eq]
  split
  · exact hintSilentTo_of_word holds.toWithin (fun _ word => word) (Nat.le_refl _) text
  · exact rfl

theorem Holds.failureInformsOrWord_refusal (h : S.Holds c) (text : String) :
    S.FailureInformsOrWord c (c.refusal text) :=
  .inr ⟨c.reach_refusal_le text, (c.start_refusal text).symm ▸ h.start_le⟩

theorem keyword_keepRight {text : String} (start : text.toList.head?.any isWordStart = true)
    {p : Rule α} (hp : S.Informing .here p) (holds : S.Holds c) :
    ((keyword text).keepRight p c).All (S.HintInforms (Edge.word.offset c))
      fun e => S.Informs e ∨ e = c.refusal text :=
  (andThen_informing ((keyword_outcome start holds).mono id .inr)
    (fun failed => .inl failed.informs) hp).map _

theorem unlessWord_keyword {text : String} (start : text.toList.head?.any isWordStart = true)
    {p : Rule α} (hp : S.Informing .here p) :
    S.InformingUnlessWord ((keyword text).keepRight p) := by
  refine fun c holds => (keyword_keepRight start hp holds).mono id ?_
  rintro e (informs | rfl)
  · exact .inl informs
  · exact holds.failureInformsOrWord_refusal text

theorem silentTo_optional_keyword {text : String}
    (start : text.toList.head?.any isWordStart = true) :
    S.SilentTo .word .here (optional (keyword text)) := by
  intro c holds
  refine ((keyword_outcome start holds).mono (·.widen (Edge.word.offset_le c)) id).optional ?_
  rintro e rfl
  exact ⟨holds, Edge.word.offset_le c, fun f mem =>
    Option.some.inj mem ▸ .inl (Nat.lt_succ_of_le (c.reach_refusal_le text))⟩

/- Names. -/

theorem silentTo_identifier : S.SilentTo .here .word identifier := by
  intro c holds
  refine .padded_of_skipped holds.skipWhile_eq (.labelled ?_)
  by_cases bare : c.rest.takeWhile isWordChar = []
  · rw [Edge.word_offset_of_bare bare]
    unfold orElse
    rw [run₁_of_none bare]
    have free : AllFree "...".toList := by decide
    have dots := (literal_outcome free holds.toWithin).map fun _ => "...".toList
    generalize Rule.map _ (literal "...".toList) c = x at dots ⊢
    cases x with
    | ok a c₁ hint =>
      obtain ⟨within, further, rfl⟩ := dots
      refine ⟨within.holds_skipWhile, ?_, fun e mem => absurd mem (Option.not_mem_none e)⟩
      exact Nat.le_trans (further ▸ Nat.le_add_right ..) (Nat.le_add_right ..)
    | fail e =>
      obtain ⟨shows, further⟩ := dots
      exact ⟨((shows.furthest_of_le further).withLabel _).informs,
        Nat.le_trans further (Failure.le_reach_furthest_left ..)⟩
  · unfold orElse
    rw [run₁_of_some bare]
    exact hintSilentTo_of_word holds.toWithin (fun _ word => word) (Nat.le_refl _) "identifier"

/- What stands behind a quote, a semicolon or a star. -/

theorem silentTo_lifetime : S.SilentTo .here .here lifetime := by
  intro c holds
  refine .padded_of_skipped holds.skipWhile_eq (.labelled (.map ?_ _))
  by_cases quote : c.rest.head? = some '\''
  · obtain ⟨after, rest⟩ := List.head?_eq_some_iff.1 quote
    have first : literal ['\''] c = .ok () ⟨c.offset + 1, after⟩ none := by
      rw [literal_single, if_pos quote, rest]
      rfl
    refine .keepRight_ok first ?_
    by_cases bare : after.takeWhile isWordChar = []
    · have dead : isDeadEnd c.rest = true := by rw [rest, isDeadEnd, bare]; rfl
      obtain ⟨wall, stop⟩ := holds.stop_of_isDeadEnd dead
      rw [run₁_of_none (c := ⟨c.offset + 1, after⟩) bare]
      refine ⟨⟨Nat.le_succ_of_le holds.start_le, .inr ⟨?_, ?_⟩⟩, Nat.le_succ _⟩
      · exact Nat.lt_succ_of_le (Nat.le_of_eq stop)
      · exact .quote (wall.trans rest) (congrArg (· + 1) stop.symm) rfl
    · have alive : isDeadEnd c.rest = false := by rw [rest]; simp [isDeadEnd, bare]
      rw [run₁_of_some (c := ⟨c.offset + 1, after⟩) bare]
      exact hintSilentTo_of_word (holds.tail rest alive) (fun _ word => word)
        (Nat.le_trans (Nat.le_succ _) (Nat.le_add_right ..)) "lifetime"
  · refine .keepRight_fail (by rw [literal_single, if_neg quote]) ?_
    exact ⟨((holds.shows _).withLabel _).informs, Nat.le_refl _⟩

theorem Within.behind {x : Char} (h : S.Within c) (rest : c.rest = x :: c.rest.tail)
    (alive : isDeadEnd c.rest = false) : S.Within c.behind :=
  (h.tail rest alive).skipWhile fun _ => free_of_isBlank

theorem silentTo_size : S.SilentTo .here .here ((token ";").keepRight arrayLength) := by
  refine fun c holds => token_keepRight rfl holds fun rest => ?_
  refine .padded_of_skipped c.skipWhile_behind (.labelled ?_)
  have further := c.lt_offset_behind
  have death : isDeadEnd c.rest =
      ((c.behind.rest.takeWhile Char.isDigit).isEmpty ||
        decide (UInt64.size ≤ numeral (c.behind.rest.takeWhile Char.isDigit))) := by
    rw [rest]
    rfl
  -- The failure of the length, over its digits or without any.
  have stuck {e : Failure} (dead : isDeadEnd c.rest = true) (start : e.start = c.behind.offset)
      (reach : e.start ≤ e.reach) (label : e.label = .named "integer") :
      S.FailureInforms c.offset e := by
    obtain ⟨wall, stop⟩ := holds.stop_of_isDeadEnd dead
    have on : c.offset < e.reach := Nat.lt_of_lt_of_le further (start ▸ reach)
    refine ⟨⟨?_, .inr ⟨stop ▸ on, .semicolon (wall.trans rest) ?_ label⟩⟩, Nat.le_of_lt on⟩
    · exact start ▸ Nat.le_trans holds.start_le (Nat.le_of_lt further)
    · rw [start, stop]
      rfl
  unfold refine
  by_cases bare : c.behind.rest.takeWhile Char.isDigit = []
  · rw [run₁_of_none bare]
    exact stuck (by rw [death, bare]; rfl) rfl (Nat.le_refl _) rfl
  · rw [run₁_of_some bare]
    dsimp only [run]
    by_cases small : numeral (c.behind.rest.takeWhile Char.isDigit) < UInt64.size
    · have alive : isDeadEnd c.rest = false := by simp [death, bare, Nat.not_le.2 small]
      rw [if_pos small]
      exact hintSilentTo_of_word (holds.behind rest alive) isWordChar_of_isDigit
        (Nat.le_trans (Nat.le_of_lt further) (Nat.le_add_right ..)) "integer"
    · have dead : isDeadEnd c.rest = true := by simp [death, Nat.not_lt.1 small]
      rw [if_neg small]
      exact stuck dead rfl (Nat.le_add_right ..) rfl

/-- What the two words say behind the star of a pointer: together they leave no name. -/
theorem silentTo_star : S.SilentTo .here .here ((token "*").keepRight
    (((keyword "mut").map fun _ => true).orElse ((keyword "const").map fun _ => false))) := by
  refine fun c holds => token_keepRight rfl holds fun rest => ?_
  have further := c.lt_offset_behind
  have death : isDeadEnd c.rest =
      !(["mut".toList, "const".toList].contains (c.behind.rest.takeWhile isWordChar)) := by
    rw [rest]
    rfl
  have on : c.offset ≤ Edge.word.offset c.behind :=
    Nat.le_trans (Nat.le_of_lt further) (Edge.word.offset_le c.behind)
  unfold orElse Rule.map
  rw [keyword_eq (by decide) c.skipWhile_behind, keyword_eq (by decide) c.skipWhile_behind]
  by_cases mutable : c.behind.rest.takeWhile isWordChar = "mut".toList
  · have alive : isDeadEnd c.rest = false := by rw [death, mutable]; decide
    rw [if_pos mutable]
    exact hintSilentTo_of_word (holds.behind rest alive) (fun _ word => word) on "mut"
  rw [if_neg mutable]
  by_cases constant : c.behind.rest.takeWhile isWordChar = "const".toList
  · have alive : isDeadEnd c.rest = false := by rw [death, constant]; decide
    rw [if_pos constant]
    exact hintSilentTo_of_word (holds.behind rest alive) (fun _ word => word) on "const"
  rw [if_neg constant]
  have dead : isDeadEnd c.rest = true := by
    rw [death]
    simp only [List.contains_cons, List.contains_nil, beq_eq_false_iff_ne.2 mutable,
      beq_eq_false_iff_ne.2 constant]
    rfl
  obtain ⟨wall, stop⟩ := holds.stop_of_isDeadEnd dead
  have same := c.behind.reach_refusal "mut" "const"
  have reach := c.behind.le_reach_refusal "const"
  have past : c.offset < (c.behind.refusal "const").reach := Nat.lt_of_lt_of_le further reach
  dsimp only [Outcome.All]
  rw [Failure.furthest_of_eq same.symm]
  refine ⟨⟨?_, .inr ⟨stop ▸ past, .star (wall.trans rest) ?_ ?_ ?_ ?_⟩⟩, Nat.le_of_lt past⟩
  · exact (c.behind.start_refusal "const").symm ▸
      Nat.le_trans holds.start_le (Nat.le_of_lt further)
  · rw [c.behind.start_refusal, stop]
    rfl
  · simp [Cursor.expected_refusal, Failure.joinExpected]
  · simp [Cursor.label_refusal, Label.join]
  · exact c.behind.remark_refusal "const"

end Stretch

end ImplFamilies.Grammar
