import ImplFamilies.Proofs.Grammar.FailurePlaces

/-!
Where reading must stop. Behind a quote only a name can stand, behind a semicolon only an array
length, behind a star only `mut` or `const`. Where none of these stands no rule gets any further,
and one rule alone decides what is said to have been expected there: the name of what should have
followed, but nothing at all behind a star, where two words could have followed.
-/

namespace ImplFamilies.Grammar

open Text

/-- Whether the text cannot go on behind its first character as that character asks. -/
def isDeadEnd : List Char → Bool
  | '\'' :: cs => (cs.takeWhile isWordChar).isEmpty
  | ';' :: cs =>
    let digits := (skipBlanks cs).takeWhile Char.isDigit
    digits.isEmpty || UInt64.size ≤ Rule.numeral digits
  | '*' :: cs => !(["mut".toList, "const".toList].contains ((skipBlanks cs).takeWhile isWordChar))
  | _ => false

def fromDeadEnd : List Char → List Char
  | [] => []
  | c :: cs => if isDeadEnd (c :: cs) then c :: cs else fromDeadEnd cs

def Free (c : Char) : Prop :=
  c ≠ '\'' ∧ c ≠ ';' ∧ c ≠ '*'

instance : DecidablePred Free :=
  fun _ => inferInstanceAs (Decidable (_ ∧ _ ∧ _))

def AllFree (cs : List Char) : Prop :=
  ∀ x ∈ cs, Free x

instance : DecidablePred AllFree :=
  fun cs => List.decidableBAll Free cs

theorem free_of_isBlank {c : Char} (h : isBlank c = true) : Free c := by
  refine ⟨?_, ?_, ?_⟩ <;> rintro rfl <;> cases h

theorem free_of_isWordChar {c : Char} (h : isWordChar c = true) : Free c := by
  refine ⟨?_, ?_, ?_⟩ <;> rintro rfl <;> cases h

theorem isDeadEnd_of_free {c : Char} (h : Free c) (cs : List Char) :
    isDeadEnd (c :: cs) = false := by
  obtain ⟨quote, semicolon, star⟩ := h
  unfold isDeadEnd
  split
  · rename_i same
    exact absurd (List.cons.inj same).1 quote
  · rename_i same
    exact absurd (List.cons.inj same).1 semicolon
  · rename_i same
    exact absurd (List.cons.inj same).1 star
  · rfl

theorem fromDeadEnd_cons {c : Char} {cs : List Char} (h : isDeadEnd (c :: cs) = false) :
    fromDeadEnd (c :: cs) = fromDeadEnd cs := by
  rw [fromDeadEnd, h]
  exact if_neg Bool.false_ne_true

theorem fromDeadEnd_append {read : List Char} (free : AllFree read) (rest : List Char) :
    fromDeadEnd (read ++ rest) = fromDeadEnd rest := by
  induction read with
  | nil => rfl
  | cons c read ih =>
    obtain ⟨first, free⟩ := List.forall_mem_cons.1 free
    rw [List.cons_append, fromDeadEnd_cons (isDeadEnd_of_free first _), ih free]

theorem fromDeadEnd_suffix (cs : List Char) : fromDeadEnd cs <:+ cs := by
  induction cs with
  | nil => exact List.suffix_refl _
  | cons c cs ih =>
    unfold fromDeadEnd
    split
    · exact List.suffix_refl _
    · exact ih.trans (List.suffix_cons c cs)

theorem fromDeadEnd_of_isDeadEnd {cs : List Char} (h : isDeadEnd cs = true) :
    fromDeadEnd cs = cs := by
  cases cs with
  | nil => rfl
  | cons c cs => rw [fromDeadEnd, if_pos h]

/-- The first dead end is not behind any other. -/
theorem length_le_fromDeadEnd {cs : List Char} (h : isDeadEnd cs = true) (read : List Char) :
    cs.length ≤ (fromDeadEnd (read ++ cs)).length := by
  induction read with
  | nil => exact Nat.le_of_eq (congrArg List.length (fromDeadEnd_of_isDeadEnd h).symm)
  | cons c read ih =>
    rw [List.cons_append, fromDeadEnd]
    split
    · simp only [List.length_cons, List.length_append]
      omega
    · exact ih

namespace Failure

theorem furthest_eq_left {e f : Failure} (less : f.reach < e.reach) : furthest e f = e :=
  if_pos less

theorem furthest_eq_right {e f : Failure} (less : e.reach < f.reach) : furthest e f = f := by
  rw [furthest, if_neg (Nat.lt_asymm less), if_pos less]

theorem furthest_of_eq {e f : Failure} (same : e.reach = f.reach) :
    furthest e f =
      { e with expected := joinExpected e.expected f.expected, label := e.label.join f.label } := by
  rw [furthest, if_neg (by omega), if_neg (by omega)]

theorem le_reach_furthest_left (e f : Failure) : e.reach ≤ (furthest e f).reach := by
  rw [reach_furthest]
  exact Nat.le_max_left ..

end Failure

structure Stretch where
  start : Nat
  /-- The place of the first dead end behind the start, or of the end of the text. -/
  stop : Nat
  /-- What is left of the text at the dead end. -/
  rest : List Char

theorem Cursor.skipWhile_of_skipped {c : Cursor} (skipped : skipBlanks c.rest = c.rest) :
    c.skipWhile isBlank = c := by
  have rest : c.rest.dropWhile isBlank = c.rest := skipped
  have none : c.rest.takeWhile isBlank = [] := by
    have split := List.takeWhile_append_dropWhile (p := isBlank) (l := c.rest)
    rw [rest] at split
    exact List.append_left_eq_self.1 split
  rw [Cursor.skipWhile, none, rest]
  rfl

def Cursor.stretch (c : Cursor) : Stretch where
  start := c.offset
  stop := c.offset + (c.rest.length - (fromDeadEnd c.rest).length)
  rest := fromDeadEnd c.rest

namespace Stretch

variable {S : Stretch} {c c₁ : Cursor} {e f : Failure}

structure Within (S : Stretch) (c : Cursor) : Prop where
  start_le : S.start ≤ c.offset
  level : c.offset + c.rest.length = S.stop + S.rest.length
  rest : fromDeadEnd c.rest = S.rest

structure Holds (S : Stretch) (c : Cursor) : Prop extends S.Within c where
  skipped : skipBlanks c.rest = c.rest

theorem within_stretch (c : Cursor) : c.stretch.Within c where
  start_le := Nat.le_refl _
  level := by
    have suffix := (fromDeadEnd_suffix c.rest).length_le
    simp only [Cursor.stretch]
    omega
  rest := rfl

theorem Within.offset_le_stop (h : S.Within c) : c.offset ≤ S.stop := by
  have suffix := (fromDeadEnd_suffix c.rest).length_le
  have level := h.level
  rw [h.rest] at suffix
  omega

theorem Within.reads {read : List Char} (h : S.Within c) (reads : c.Reads read c₁)
    (same : fromDeadEnd c₁.rest = fromDeadEnd c.rest) : S.Within c₁ where
  start_le := Nat.le_trans h.start_le reads.onto.offset_le
  level := by
    have level := h.level
    rw [reads.rest, List.length_append] at level
    rw [reads.offset]
    omega
  rest := same.trans h.rest

theorem Within.reads_free {read : List Char} (h : S.Within c) (reads : c.Reads read c₁)
    (free : AllFree read) : S.Within c₁ :=
  h.reads reads (by rw [reads.rest, fromDeadEnd_append free])

theorem Within.skipWhile (h : S.Within c) {p : Char → Bool} (free : ∀ x, p x = true → Free x) :
    S.Within (c.skipWhile p) :=
  h.reads_free (c.reads_skipWhile p) fun x mem =>
    free x (List.all_eq_true.1 List.all_takeWhile x mem)

theorem Within.holds_skipWhile (h : S.Within c) : S.Holds (c.skipWhile isBlank) where
  toWithin := h.skipWhile fun _ => free_of_isBlank
  skipped := skipBlanks_skipBlanks c.rest

theorem Holds.skipWhile_eq (h : S.Holds c) : c.skipWhile isBlank = c :=
  Cursor.skipWhile_of_skipped h.skipped

/-- What the rule that reads behind a dead end says; nobody else gets there. -/
inductive Stuck (S : Stretch) (e : Failure) : Prop
  | quote {after : List Char} (rest : S.rest = '\'' :: after) (start : e.start = S.stop + 1)
      (label : e.label = .named "lifetime")
  | semicolon {after : List Char} (rest : S.rest = ';' :: after)
      (start : e.start = S.stop + 1 + (after.takeWhile isBlank).length)
      (label : e.label = .named "integer")
  | star {after : List Char} (rest : S.rest = '*' :: after)
      (start : e.start = S.stop + 1 + (after.takeWhile isBlank).length)
      (expected : e.expected = []) (label : e.label = .mixed) (remark : e.remark = none)

/-- A failure in the stretch that says by a character, or the end of the input, what was expected;
or a failure behind it. -/
structure Informs (S : Stretch) (e : Failure) : Prop where
  start_le : S.start ≤ e.start
  said : e.reach ≤ S.stop ∧ e.expected ≠ [] ∨ S.stop < e.reach ∧ S.Stuck e

theorem Stuck.join (he : S.Stuck e) (hf : S.Stuck f) :
    S.Stuck { e with
      expected := Failure.joinExpected e.expected f.expected, label := e.label.join f.label } := by
  cases he with
  | quote rest start label =>
    cases hf with
    | quote rest' start' label' => exact .quote rest start (by simp [label, label', Label.join])
    | semicolon rest' | star rest' => cases rest.symm.trans rest'
  | semicolon rest start label =>
    cases hf with
    | semicolon rest' start' label' =>
      exact .semicolon rest start (by simp [label, label', Label.join])
    | quote rest' | star rest' => cases rest.symm.trans rest'
  | star rest start expected label remark =>
    cases hf with
    | star rest' start' expected' label' remark' =>
      exact .star rest start (by simp [expected, expected', Failure.joinExpected])
        (by simp [label, label', Label.join]) remark
    | quote rest' | semicolon rest' => cases rest.symm.trans rest'

/-- What is put together with a failure that does not read further leaves it what it says, as long
as only failures with something to say reach behind the dead end. -/
theorem Informs.furthest_of_le (he : S.Informs e) (near : f.reach ≤ e.reach)
    (hf : S.Informs f ∨ f.reach ≤ S.stop) : S.Informs (Failure.furthest e f) := by
  rcases Nat.lt_or_eq_of_le near with less | same
  · rwa [Failure.furthest_eq_left less]
  rw [Failure.furthest_of_eq same.symm]
  refine ⟨he.start_le, he.said.imp ?_ ?_⟩
  · rintro ⟨within, expected⟩
    exact ⟨within, by simp [Failure.joinExpected, expected]⟩
  · rintro ⟨behind, stuck⟩
    have said : S.Informs f := hf.resolve_right (by omega)
    exact ⟨behind, stuck.join (said.said.resolve_left (by omega)).2⟩

theorem Informs.furthest (he : S.Informs e) (hf : S.Informs f) :
    S.Informs (Failure.furthest e f) := by
  rcases Nat.lt_or_ge e.reach f.reach with less | ge
  · rwa [Failure.furthest_eq_right less]
  · exact he.furthest_of_le ge (.inl hf)

theorem Informs.furthest_of_ge (hf : S.Informs f) (near : e.reach ≤ f.reach)
    (he : e.reach ≤ S.stop ∧ S.start ≤ e.start) : S.Informs (Failure.furthest e f) := by
  rcases Nat.lt_or_eq_of_le near with less | same
  · rwa [Failure.furthest_eq_right less]
  rw [Failure.furthest_of_eq same]
  refine ⟨he.2, .inl ⟨he.1, ?_⟩⟩
  obtain ⟨-, expected⟩ := hf.said.resolve_right (by omega)
  obtain ⟨x, mem⟩ := List.exists_mem_of_ne_nil _ expected
  exact List.ne_nil_of_mem (Failure.mem_joinExpected.2 (.inr mem))

end Stretch

end ImplFamilies.Grammar
