import ImplFamilies.Text.Position
import Mathlib.Data.List.Induction

/-!
A place in a text by the characters before it: as many bytes as they have, one line for every line
feed among them, one column for every character behind the last. So places follow each other as the
characters do, by their bytes as well as by line and column.
-/

namespace ImplFamilies.Position

theorem offset_next (p : Position) (c : Char) : (p.next c).offset = p.offset + c.utf8Size := by
  unfold next
  split <;> rfl

theorem offset_after (cs : List Char) :
    (after cs).offset = (String.ofList cs).utf8ByteSize := by
  induction cs using List.reverseRecOn with
  | nil => rfl
  | append_singleton cs c ih =>
    have bytes : (String.ofList [c]).utf8ByteSize = c.utf8Size := by simp
    rw [after_concat, offset_next, ih, String.ofList_append, String.utf8ByteSize_append, bytes]

theorem line_after (cs : List Char) : (after cs).line = 1 + cs.count '\n' := by
  induction cs using List.reverseRecOn with
  | nil => rfl
  | append_singleton cs c ih =>
    rw [after_concat, List.count_append, next]
    by_cases feed : c = '\n'
    · simp [feed, ih, Nat.add_assoc]
    · simp [feed, ih]

theorem column_after (cs : List Char) :
    (after cs).column = 1 + (cs.reverse.takeWhile (· ≠ '\n')).length := by
  induction cs using List.reverseRecOn with
  | nil => rfl
  | append_singleton cs c ih =>
    rw [after_concat, List.reverse_concat, List.takeWhile_cons, next]
    by_cases feed : c = '\n'
    · simp [feed]
    · simp [feed, ih, Nat.add_comm]

theorem ofIndex_length (cs ds : List Char) : ofIndex (cs ++ ds) cs.length = after cs := by
  rw [ofIndex, List.take_left]

theorem le_offset_ofIndex {front source : List Char} {index : Nat}
    (before : front <+: source) (far : front.length ≤ index) :
    (String.ofList front).utf8ByteSize ≤ (ofIndex source index).offset := by
  have taken : front <+: source.take index :=
    List.prefix_take_iff.2 ⟨before, far⟩
  obtain ⟨more, taken⟩ := taken
  rw [ofIndex, offset_after, ← taken, String.ofList_append, String.utf8ByteSize_append]
  exact Nat.le_add_right ..

/-- What a place says of the characters before it. -/
structure Measures (p : Position) (before : List Char) : Prop where
  offset : p.offset = (String.ofList before).utf8ByteSize
  line : p.line = 1 + before.count '\n'
  column : p.column = 1 + (before.reverse.takeWhile (· ≠ '\n')).length

theorem measures_after (cs : List Char) : (after cs).Measures cs :=
  ⟨offset_after cs, line_after cs, column_after cs⟩

def Precedes (p q : Position) : Prop :=
  p.line < q.line ∨ p.line = q.line ∧ p.column < q.column

theorem Precedes.trans {p q r : Position} (first : p.Precedes q) (second : q.Precedes r) :
    p.Precedes r := by
  unfold Precedes at first second ⊢
  omega

theorem precedes_next (p : Position) (c : Char) : p.Precedes (p.next c) := by
  unfold next
  split
  · exact .inl (Nat.lt_succ_self _)
  · exact .inr ⟨rfl, Nat.lt_succ_self _⟩

theorem offset_lt_next (p : Position) (c : Char) : p.offset < (p.next c).offset := by
  rw [offset_next]
  exact Nat.lt_add_of_pos_right c.utf8Size_pos

theorem advances_of_append (cs : List Char) {ds : List Char} (more : ds ≠ []) :
    (after cs).offset < (after (cs ++ ds)).offset ∧ (after cs).Precedes (after (cs ++ ds)) := by
  induction ds using List.reverseRecOn with
  | nil => exact absurd rfl more
  | append_singleton ds d ih =>
    rw [← List.append_assoc, after_concat]
    have last := offset_lt_next (after (cs ++ ds)) d
    have beyond := precedes_next (after (cs ++ ds)) d
    by_cases first : ds = []
    · rw [first, List.append_nil] at last beyond ⊢
      exact ⟨last, beyond⟩
    · obtain ⟨less, precedes⟩ := ih first
      exact ⟨Nat.lt_trans less last, precedes.trans beyond⟩

theorem eq_of_after_eq {cs cs' ds ds' : List Char} (split : cs ++ ds = cs' ++ ds')
    (same : after cs = after cs') : cs = cs' := by
  have none {cs ds : List Char} (same : after cs = after (cs ++ ds)) : ds = [] := by
    by_contra more
    exact Nat.ne_of_lt (advances_of_append cs more).1 (congrArg offset same)
  rcases List.append_eq_append_iff.1 split with ⟨more, rfl, -⟩ | ⟨more, rfl, -⟩
  · rw [none same, List.append_nil]
  · rw [none same.symm, List.append_nil]

/-- The place of a character, or of the end of the text behind it, measures the characters before
it; and places of different characters differ as these do, strictly. -/
theorem places_measure_and_advance (text : List Char) :
    (∀ index, (ofIndex text index).Measures (text.take (min index text.length))) ∧
    ∀ i j, i < j → j ≤ text.length →
      (ofIndex text i).offset < (ofIndex text j).offset ∧
        (ofIndex text i).Precedes (ofIndex text j) := by
  refine ⟨fun index => ?_, fun i j less within => ?_⟩
  · have taken : text.take (min index text.length) = text.take index := List.take_eq_take_min.symm
    rw [taken]
    exact measures_after _
  · obtain ⟨ds, split⟩ : text.take i <+: text.take j :=
      List.take_prefix_take_left (Nat.le_of_lt less)
    have more : ds ≠ [] := by
      rintro rfl
      have lengths := congrArg List.length split
      rw [List.append_nil, List.length_take, List.length_take] at lengths
      omega
    rw [ofIndex, ofIndex, ← split]
    exact advances_of_append _ more

/-- Behind a line feed after a letter of two bytes, and at the end of the text. -/
theorem places_around_line_feed :
    ofIndex "é\nab".toList 2 = ⟨3, 2, 1⟩ ∧ ofIndex "é\nab".toList 9 = ⟨5, 2, 3⟩ ∧
      (ofIndex "é\nab".toList 1).offset < (ofIndex "é\nab".toList 2).offset ∧
      (ofIndex "é\nab".toList 1).Precedes (ofIndex "é\nab".toList 2) :=
  ⟨by decide +kernel, by decide +kernel,
    (places_measure_and_advance "é\nab".toList).2 1 2 (by decide) (by decide +kernel)⟩

end ImplFamilies.Position
