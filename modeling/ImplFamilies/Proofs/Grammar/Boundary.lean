import Mathlib.Data.List.DropRight
import Mathlib.Data.List.Find
import Mathlib.Data.List.TakeWhile
import ImplFamilies.Proofs.Grammar.Lexeme

/-!
Places between lexemes. Cut at a place that is not inside a lexeme, a text has the lexemes of the
one part and then those of the other; so white space may be put there, and may be as long as one
likes wherever it already is.
-/

namespace ImplFamilies.Grammar

open Text Lexeme

/-- The place between the two parts is inside a word, between the apostrophe and the name of a
lifetime, or inside a mark of more than one character. -/
def Inside (front back : List Char) : Prop :=
  (∃ x ∈ front.getLast?, ∃ y ∈ back.head?,
      isWordChar y = true ∧ (isWordChar x = true ∨ x = '\'')) ∨
    ∃ m ∈ longMarks, ∃ k < m.length, 0 < k ∧ m.take k <:+ front ∧ m.drop k <+: back

/-- Decided at the two characters beside the place, not by a search among all characters. -/
instance (front back : List Char) : Decidable (Inside front back) :=
  @instDecidableOr _ _ (@Option.decidableExistsMem _ _ (fun _ => Option.decidableExistsMem _) _)
    (List.decidableBEx _ _)

variable {front back : List Char}

theorem getLast?_of_suffix {α : Type} {x : α} {w v : List α} (behind : w <:+ v)
    (last : w.getLast? = some x) : v.getLast? = some x := by
  obtain ⟨d, rfl⟩ := behind
  rw [List.getLast?_append, last, Option.some_or]

theorem Inside.of_suffix {w : List Char} (behind : w <:+ front) (h : Inside w back) :
    Inside front back := by
  rcases h with ⟨x, last, run⟩ | ⟨m, long, k, short, some, left, right⟩
  · exact .inl ⟨x, getLast?_of_suffix behind last, run⟩
  · exact .inr ⟨m, long, k, short, some, left.trans behind, right⟩

theorem not_inside_blank {w : Char} (blank : isBlank w = true) (front back : List Char) :
    ¬ Inside front (w :: back) := by
  rintro (⟨x, -, y, first, word, -⟩ | ⟨m, long, k, short, -, -, right⟩)
  · obtain rfl := Option.some.inj first
    exact nomatch blank.symm.trans (not_blank_of_isWordChar word)
  · have visible : ∀ m ∈ longMarks, m.all (fun c => !isBlank c) = true := by decide
    have some : m.drop k ≠ [] := by
      rw [ne_eq, List.drop_eq_nil_iff]
      omega
    obtain ⟨c, r, shape⟩ := List.exists_cons_of_ne_nil some
    rw [shape, List.cons_prefix_cons] at right
    obtain ⟨rfl, -⟩ := right
    have mem : c ∈ m := List.mem_of_mem_drop (i := k) (shape ▸ List.mem_cons_self)
    simpa [blank] using List.all_eq_true.1 (visible m long) c mem

/- The lexeme at the front of a text that is cut. -/

theorem run_append (ended : front.dropWhile isWordChar = [] → Detached back) :
    (front ++ back).takeWhile isWordChar = front.takeWhile isWordChar ∧
      (front ++ back).dropWhile isWordChar = front.dropWhile isWordChar ++ back := by
  by_cases all : front.dropWhile isWordChar = []
  · have chars := List.dropWhile_eq_nil_iff.1 all
    obtain ⟨taken, dropped⟩ := takeWhile_of_detached chars (ended all)
    exact ⟨by rw [taken, List.takeWhile_eq_self_iff.2 chars], by rw [dropped, all, List.nil_append]⟩
  · have short : (front.takeWhile isWordChar).length ≠ front.length := by
      have whole := congrArg List.length
        (List.takeWhile_append_dropWhile (p := isWordChar) (l := front))
      have left := List.length_pos_iff.2 all
      rw [List.length_append] at whole
      omega
    rw [List.takeWhile_append, if_neg short, List.dropWhile_append,
      if_neg (by simpa using all)]
    exact ⟨rfl, rfl⟩

theorem detached_of_not_inside {x : Char} {w : List Char} (apart : ¬ Inside (x :: w) back)
    (runs : isWordChar x = true ∨ x = '\'') (ended : w.dropWhile isWordChar = []) :
    Detached back := by
  intro y first
  cases word : isWordChar y with
  | false => rfl
  | true =>
    refine absurd (.inl ?_) apart
    have chars := List.dropWhile_eq_nil_iff.1 ended
    cases last : w.getLast? with
    | none =>
      obtain rfl := List.getLast?_eq_none_iff.1 last
      exact ⟨x, rfl, y, first, word, runs⟩
    | some z =>
      exact ⟨z, getLast?_of_suffix (List.suffix_cons x w) last, y, first, word,
        .inl (chars z (List.mem_of_getLast? last))⟩

theorem isPrefixOf_append_of_not_inside (apart : ¬ Inside front back) (left : front ≠ [])
    {m : List Char} (long : m ∈ longMarks) :
    m.isPrefixOf (front ++ back) = m.isPrefixOf front := by
  rw [Bool.eq_iff_iff, List.isPrefixOf_iff_prefix, List.isPrefixOf_iff_prefix]
  refine ⟨fun whole => ?_, fun short => short.trans (List.prefix_append front back)⟩
  rcases List.prefix_or_prefix_of_prefix whole (List.prefix_append front back) with short | beyond
  · exact short
  · obtain ⟨r, rfl⟩ := beyond
    by_cases ends : r = []
    · simp [ends]
    · have some := List.length_pos_iff.2 left
      have more := List.length_pos_iff.2 ends
      refine absurd (.inr ⟨_, long, front.length, ?_, some, ?_, ?_⟩) apart
      · rw [List.length_append]
        omega
      · simp
      · rw [List.drop_left]
        exact (List.prefix_append_right_inj front).1 whole

theorem markLength_append (apart : ¬ Inside front back) (left : front ≠ []) :
    markLength (front ++ back) = markLength front ∧ markLength front ≤ front.length := by
  have same : longMarks.find? (·.isPrefixOf (front ++ back)) =
      longMarks.find? (·.isPrefixOf front) :=
    List.find?_congr fun _ long => isPrefixOf_append_of_not_inside apart left long
  refine ⟨by rw [markLength, markLength, same], ?_⟩
  unfold markLength
  cases found : longMarks.find? (·.isPrefixOf front) with
  | none => exact List.length_pos_iff.2 left
  | some m =>
    have short : m.isPrefixOf front = true :=
      List.find?_some (p := fun m : List Char => m.isPrefixOf front) found
    exact (List.isPrefixOf_iff_prefix.1 short).length_le

theorem munch_append (apart : ¬ Inside front back) (left : front ≠ []) :
    ∃ l rest, munch front = some (l, rest) ∧ munch (front ++ back) = some (l, rest ++ back) ∧
      rest <:+ front := by
  obtain ⟨marks, within⟩ := markLength_append apart left
  obtain ⟨x, w, rfl⟩ := List.exists_cons_of_ne_nil left
  have dropped := List.dropWhile_suffix (l := w) isWordChar
  by_cases word : isWordChar x = true
  · obtain ⟨taken, rest⟩ := run_append (detached_of_not_inside apart (.inl word))
    refine ⟨_, _, munch_word word, ?_, dropped.trans (List.suffix_cons x w)⟩
    rw [List.cons_append, munch_word word, taken, rest]
  by_cases named : x = '\'' ∧ w.head?.any isWordChar = true
  · obtain ⟨rfl, follows⟩ := named
    obtain ⟨taken, rest⟩ := run_append (detached_of_not_inside apart (.inr rfl))
    have heads : (w ++ back).head?.any isWordChar = true := by
      cases w with
      | nil => cases follows
      | cons y w => exact follows
    refine ⟨.lifetime (String.ofList ('\'' :: w.takeWhile isWordChar)), w.dropWhile isWordChar,
      ?_, ?_, dropped.trans (List.suffix_cons _ w)⟩
    · simp [munch, word, follows]
    · rw [List.cons_append, munch, if_neg word, if_pos ⟨rfl, heads⟩, taken, rest]
  · have heads : ¬ (x = '\'' ∧ (w ++ back).head?.any isWordChar = true) := by
      rintro ⟨rfl, follows⟩
      cases w with
      | cons y w => exact named ⟨rfl, follows⟩
      | nil =>
        obtain ⟨y, first, wordChar⟩ := (Option.any_eq_true _ _).1 follows
        exact apart (.inl ⟨_, rfl, y, first, wordChar, .inr rfl⟩)
    refine ⟨_, _, by rw [munch, if_neg word, if_neg named], ?_, List.drop_suffix _ _⟩
    rw [← List.take_append_of_le_length within, ← List.drop_append_of_le_length within, ← marks,
      List.cons_append, munch, if_neg word, if_neg heads]

theorem skipBlanks_append (some : skipBlanks front ≠ []) (back : List Char) :
    skipBlanks (front ++ back) = skipBlanks front ++ back := by
  have left : ¬ (front.dropWhile isBlank).isEmpty = true := by
    rw [List.isEmpty_iff]
    exact some
  rw [skipBlanks, List.dropWhile_append, if_neg left]
  rfl

/-- Cut at a place that is inside no lexeme, a text has the lexemes of both parts. -/
theorem lexemes_append (apart : ¬ Inside front back) :
    lexemes (front ++ back) = lexemes front ++ lexemes back := by
  induction length : front.length using Nat.strongRecOn generalizing front with
  | ind n ih =>
    subst length
    by_cases blank : skipBlanks front = []
    · have all := List.dropWhile_eq_nil_iff.1 blank
      have skipped : skipBlanks (front ++ back) = skipBlanks back :=
        List.dropWhile_append_of_pos all
      rw [← lexemes_skipBlanks (front ++ back), skipped, lexemes_skipBlanks, lexemes_of_blank blank]
      rfl
    · have behind : skipBlanks front <:+ front := List.dropWhile_suffix isBlank
      obtain ⟨l, rest, first, whole, further⟩ :=
        munch_append (fun inside => apart (inside.of_suffix behind)) blank
      have shorter := length_lt_of_munch first
      have skipped := behind.length_le
      rw [← skipBlanks_append blank] at whole
      rw [lexemes_of_munch first, lexemes_of_munch whole, List.cons_append,
        ih rest.length (by omega)
          (fun inside => apart (inside.of_suffix (further.trans behind))) rfl]

theorem lexemes_append_blank {w : Char} (blank : isBlank w = true) (front back : List Char) :
    lexemes (front ++ w :: back) = lexemes front ++ lexemes back := by
  rw [lexemes_append (not_inside_blank blank front back), lexemes_blank blank]

theorem lexemes_append_blanks {blanks : List Char} (all : ∀ c ∈ blanks, isBlank c = true)
    (front : List Char) : lexemes (front ++ blanks) = lexemes front := by
  cases blanks with
  | nil => rw [List.append_nil]
  | cons w ws =>
    obtain ⟨first, others⟩ := List.forall_mem_cons.1 all
    rw [lexemes_append_blank first, lexemes_of_blank (List.dropWhile_eq_nil_iff.2 others),
      List.append_nil]

theorem lexemes_trim (cs : List Char) : lexemes (trim cs) = lexemes cs := by
  have whole : trim cs ++ (skipBlanks cs).rtakeWhile isBlank = skipBlanks cs :=
    List.rdropWhile_append_rtakeWhile
  have behind : ∀ c ∈ (skipBlanks cs).rtakeWhile isBlank, isBlank c = true :=
    fun c mem => List.mem_rtakeWhile_imp mem
  rw [← lexemes_skipBlanks cs, ← whole, lexemes_append_blanks behind]

end ImplFamilies.Grammar
