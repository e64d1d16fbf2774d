import ImplFamilies.Proofs.Grammar.Mirror

/-!
Tokens, and lists of what a rule reads, each with its reader. A colon and an array length are
stated together with what follows them.
-/

namespace ImplFamilies.Grammar

open Text

namespace Rule

theorem result?_token (text : String) (c : Cursor) :
    (token text c).result? =
      (literal text.toList ⟨(c.skipWhile isBlank).offset, skipBlanks c.rest⟩).result?.map
        fun (u, rest) => (u, rest.skipWhile isBlank) := by
  rw [token, result?_padded, result?_labelled]
  rfl

theorem mirrors_token {text : String} (h : IsMark text.toList) :
    Mirrors (token text) (Reader.mark text) := by
  refine Mirrors.padded text fun offset cs skipped => ?_
  by_cases prefixed : text.toList <+: cs
  · obtain ⟨rest, rfl⟩ := prefixed
    rw [result?_literal_append, lexemes_of_munch (by rw [skipped]; exact h rest),
      String.ofList_toList, Reader.mark_cons]
    rfl
  · rw [result?_literal_eq_none prefixed]
    have front := front_lexemes skipped
    generalize lexemes cs = ts at front ⊢
    cases front with
    | empty | word _ | lifetime _ => rfl
    | mark word alone read =>
      rename_i t
      by_cases same : t = text
      · subst same
        exact absurd ⟨_, read.symm⟩ prefixed
      · simp only [Reader.mark, if_neg same, Option.map_none]

theorem mirrors_single (text : String) (h : isSingle text = true) :
    Mirrors (token text) (Reader.mark text) :=
  mirrors_token (isMark_of_isSingle h)

theorem isWordChar_of_isWordStart {c : Char} (h : isWordStart c = true) : isWordChar c = true := by
  simp only [isWordStart, isWordChar, Char.isAlphanum, Bool.or_eq_true] at h ⊢
  rcases h with h | h
  · exact .inl (.inl h)
  · exact .inr h

theorem isWordStart_eq_false {c : Char} (h : isWordChar c = false) : isWordStart c = false := by
  cases start : isWordStart c with
  | false => rfl
  | true => exact nomatch h.symm.trans (isWordChar_of_isWordStart start)

theorem result?_word (offset : Nat) (x : Char) (cs : List Char) :
    (word ⟨offset, x :: cs⟩).result? =
      if isWordStart x = true then
        some (x :: cs.takeWhile isWordChar, Cursor.skipWhile isWordChar ⟨offset + 1, cs⟩)
      else none := by
  rw [word, result?_map, result?_andThen, result?_satisfy]
  by_cases start : isWordStart x = true
  · simp only [if_pos start]
    rfl
  · simp only [if_neg start]
    rfl

theorem mirrors_keyword (text : String) (h : text.toList.head?.any isWordStart = true) :
    Mirrors (keyword text) (Reader.keyword text) := by
  refine Mirrors.padded text fun offset cs skipped => ?_
  have front := front_lexemes skipped
  generalize lexemes cs = ts at front ⊢
  rw [result?_refine]
  cases front with
  | empty => rfl
  | lifetime word => rfl
  | mark word alone read =>
    rw [result?_word, if_neg (by simp [isWordStart_eq_false word])]
    rfl
  | word word =>
    rename_i x rest
    rw [result?_word]
    by_cases same : x :: rest.takeWhile isWordChar = text.toList
    · have start : isWordStart x = true := by simpa [← same] using h
      have read : String.ofList (x :: rest.takeWhile isWordChar) = text := by
        rw [same, String.ofList_toList]
      rw [read, if_pos start]
      simp only [Reader.keyword, Option.bind_some, if_pos same, if_true]
      rfl
    · have other : ¬ String.ofList (x :: rest.takeWhile isWordChar) = text := by
        rintro rfl
        exact same String.toList_ofList.symm
      simp only [Reader.keyword, if_neg other]
      split
      · simp only [Option.bind_some, if_neg same]
        rfl
      · rfl

theorem mirrors_identifier : Mirrors identifier Reader.identifier := by
  refine Mirrors.padded "identifier" fun offset cs skipped => ?_
  have front := front_lexemes skipped
  by_cases dotted : "...".toList <+: cs
  · obtain ⟨rest, rfl⟩ := dotted
    rw [result?_orElse, result?_run₁, result?_map, result?_literal_append,
      lexemes_of_munch (by rw [skipped]; exact isMark_of_long (by decide) rest)]
    rfl
  generalize lexemes cs = ts at front ⊢
  rw [result?_orElse, result?_run₁, result?_map, result?_literal_eq_none dotted]
  cases front with
  | empty => rfl
  | word word =>
    simp only [List.takeWhile_cons, word, if_true, Reader.identifier, String.toList_ofList]
    simp [Cursor.skipWhile, word]
  | lifetime word => rfl
  | mark word alone read =>
    rename_i t
    have other : ¬ t = "..." := by
      rintro rfl
      exact dotted ⟨_, read.symm⟩
    simp [word, Reader.identifier, other]

theorem mirrors_lifetime : Mirrors lifetime Reader.lifetime := by
  refine Mirrors.padded "lifetime" fun offset cs skipped => ?_
  have front := front_lexemes skipped
  generalize lexemes cs = ts at front ⊢
  rw [result?_map, keepRight, result?_map, result?_andThen]
  cases front with
  | empty => rfl
  | word word =>
    rename_i x rest
    have other : ¬ ['\''] <+: x :: rest := by
      intro prefixed
      obtain rfl : '\'' = x := by simpa using prefixed
      exact absurd word (by decide)
    rw [result?_literal_eq_none other]
    rfl
  | lifetime word =>
    rename_i x rest
    have read := result?_literal_append ['\''] (x :: rest) offset
    rw [List.singleton_append] at read
    rw [read]
    simp [result?_run₁, word, Reader.lifetime, Cursor.skipWhile, -String.ofList_cons]
  | mark word alone read =>
    rename_i x rest _ _
    by_cases same : x = '\''
    · subst same
      have read := result?_literal_append ['\''] rest offset
      rw [List.singleton_append] at read
      rw [read]
      simp only [result?_run₁, Option.bind_some, alone rfl, if_true]
      rfl
    · have other : ¬ ['\''] <+: x :: rest := by
        intro prefixed
        exact same (by simpa [eq_comm] using prefixed)
      rw [result?_literal_eq_none other]
      rfl

/- Modifiers: as many as there are. -/

def modifierReader : Reader (List Char) :=
  ((Reader.keyword "unsafe").map fun _ => "unsafe".toList).orElse <|
    ((Reader.keyword "extern").map fun _ => "extern".toList).orElse <|
      (Reader.mark "\"C\"").map fun _ => "\"C\"".toList

theorem mirrors_modifier : Mirrors modifier modifierReader :=
  ((mirrors_keyword "unsafe" rfl).map _).orElse <| ((mirrors_keyword "extern" rfl).map _).orElse <|
    (mirrors_token (isMark_of_long (by decide))).map _

theorem modifierReader_cons (l : Lexeme) (ts : List Lexeme) :
    modifierReader (l :: ts) =
      if Reader.isModifier l = true then some (l.text.toList, ts) else none := by
  cases l with
  | lifetime name => rfl
  | mark text =>
    by_cases named : text = "\"C\""
    · subst named
      rfl
    · simp [modifierReader, Reader.orElse, Reader.map, Reader.keyword, Reader.mark,
        Reader.isModifier, named]
  | word text =>
    by_cases first : text = "unsafe"
    · subst first
      rfl
    · by_cases second : text = "extern"
      · subst second
        rfl
      · simp [modifierReader, Reader.orElse, Reader.map, Reader.keyword, Reader.mark,
          Reader.isModifier, first, second]

theorem manyUpTo_modifier {n : Nat} {c : Cursor} (hint : Option Failure)
    (h : (lexemes c.rest).length < n) :
    (manyUpTo modifier n c hint).1 =
        ((lexemes c.rest).takeWhile Reader.isModifier).map (·.text.toList) ∧
      lexemes (manyUpTo modifier n c hint).2.1.rest =
        (lexemes c.rest).dropWhile Reader.isModifier := by
  induction n generalizing c hint with
  | zero => exact absurd h (Nat.not_lt_zero _)
  | succ n ih =>
    have same := mirrors_modifier c
    unfold manyUpTo
    cases e : modifier c with
    | fail failure =>
      rw [e] at same
      cases hts : lexemes c.rest with
      | nil => exact ⟨rfl, rfl⟩
      | cons l ts =>
        rw [hts, modifierReader_cons] at same
        have other : ¬ Reader.isModifier l = true := fun is => by simp [is, Outcome.result?] at same
        simp [other]
    | ok a c₁ hint₁ =>
      rw [e] at same
      cases hts : lexemes c.rest with
      | nil =>
        rw [hts] at same
        cases same
      | cons l ts =>
        rw [hts, modifierReader_cons] at same
        have is : Reader.isModifier l = true :=
          Decidable.byContradiction fun other => by simp [other, Outcome.result?] at same
        rw [if_pos is] at same
        obtain ⟨rfl, rest⟩ := Prod.mk.inj (Option.some.inj same)
        have rest : lexemes c₁.rest = ts := rest
        rw [hts, ← rest, List.length_cons] at h
        obtain ⟨items, last⟩ := ih (Failure.laterHint hint hint₁) (c := c₁) (by omega)
        simp only [List.takeWhile_cons, List.dropWhile_cons, is, if_true, List.map_cons, ← rest]
        exact ⟨congrArg _ items, last⟩

theorem mirrors_modifiers : Mirrors modifiers Reader.modifiers := by
  intro c
  have length := length_lexemes_le c.rest
  obtain ⟨items, last⟩ := manyUpTo_modifier none (c := c) (n := c.rest.length + 1) (by omega)
  rw [modifiers, result?_map]
  simp only [Reader.modifiers, many, Outcome.result?, Option.map_some, items, last]

/- Lists: the items and the place after the last of them. -/

section Lists

variable {α : Type} {item : Rule α} {r : Reader α} {separator : String}

theorem pairs_pairsUpTo (hi : Mirrors item r)
    (hs : Mirrors (token separator) (Reader.mark separator)) (shrinks : Reader.Shrinks r)
    {n : Nat} {c : Cursor} (hint : Option Failure) (h : (lexemes c.rest).length < n) :
    Reader.Pairs r separator (lexemes c.rest) (pairsUpTo item (token separator) n c hint).items
      (lexemes (pairsUpTo item (token separator) n c hint).cursor.rest) := by
  induction n generalizing c hint with
  | zero => exact absurd h (Nat.not_lt_zero _)
  | succ n ih =>
    have pair := hs.keepRight hi c
    rw [keepRight, result?_map, result?_andThen] at pair
    unfold pairsUpTo
    cases e : token separator c with
    | fail failure =>
      rw [e] at pair
      exact .stop pair.symm
    | ok u c₁ hint₁ =>
      cases e₂ : item c₁ with
      | fail failure =>
        rw [e] at pair
        simp only [Outcome.result?, Option.bind_some, e₂] at pair
        simp only [e₂]
        exact .stop pair.symm
      | ok a c₂ hint₂ =>
        have opened := hs.of_some (congrArg Outcome.result? e)
        have first := hi.of_some (congrArg Outcome.result? e₂)
        have front := Reader.mark_eq_some.1 opened
        have shorter := (shrinks first).length_le
        rw [front, List.length_cons] at h
        simp only [front, e₂]
        exact .next first (ih _ (by omega))

theorem series_of_fail {e : Failure} {c : Cursor} (h : item c = .fail e) :
    series item (token separator) c = ⟨[], c, none, e⟩ := by
  simp only [series, h]

theorem row_series (hi : Mirrors item r)
    (hs : Mirrors (token separator) (Reader.mark separator)) (shrinks : Reader.Shrinks r)
    {c c₁ : Cursor} {a : α} {hint : Option Failure} (h : item c = .ok a c₁ hint) :
    ∃ as last hint₁ ended, series item (token separator) c = ⟨a :: as, last, hint₁, ended⟩ ∧
      Reader.Row r separator (lexemes c.rest) (a :: as) (lexemes last.rest) := by
  have first := hi.of_some (congrArg Outcome.result? h)
  have length := length_lexemes_le c₁.rest
  have pairs := pairs_pairsUpTo hi hs shrinks (c := c₁) (n := c₁.rest.length + 1) hint (by omega)
  simp only [series, h]
  exact ⟨_, _, _, _, rfl, a, _, _, rfl, first, pairs⟩

theorem Mirrors.separated₁ (hi : Mirrors item r)
    (hs : Mirrors (token separator) (Reader.mark separator)) (shrinks : Reader.Shrinks r) :
    Mirrors (Rule.separated₁ item (token separator)) (Reader.separated₁ r separator) := by
  intro c
  unfold Rule.separated₁
  cases e : item c with
  | fail failure =>
    rw [series_of_fail e]
    exact (Reader.separated₁_eq_none.2 (hi.of_none (congrArg Outcome.result? e))).symm
  | ok a c₁ hint =>
    obtain ⟨as, last, hint₁, ended, same, row⟩ := row_series hi hs shrinks e
    rw [same]
    exact ((Reader.separated₁_eq_some shrinks).2 row).symm

theorem result?_closeList (hs : Mirrors (token separator) (Reader.mark separator))
    (items : List α) (last : Cursor) (hint : Option Failure) (ended : Failure) :
    ((closeList (token separator) items last hint ended).result?.map
        fun (as, rest) => (as, lexemes rest.rest)) =
      some (items, Reader.skipMark separator (lexemes last.rest)) := by
  have close := hs last
  unfold closeList Reader.skipMark
  rw [← close]
  cases token separator last <;> rfl

theorem Mirrors.list (hi : Mirrors item r)
    (hs : Mirrors (token separator) (Reader.mark separator)) (shrinks : Reader.Shrinks r) :
    Mirrors (Rule.list item (token separator)) (Reader.list r separator) := by
  intro c
  unfold Rule.list
  cases e : item c with
  | fail failure =>
    rw [series_of_fail e]
    exact (Reader.list_of_none (hi.of_none (congrArg Outcome.result? e))).symm
  | ok a c₁ hint =>
    obtain ⟨as, last, hint₁, ended, same, row⟩ := row_series hi hs shrinks e
    rw [same]
    simp only [result?_closeList hs]
    exact ((Reader.list_eq_some shrinks).2 (.inr ⟨_, row, rfl⟩)).symm

theorem Mirrors.list₁ (hi : Mirrors item r)
    (hs : Mirrors (token separator) (Reader.mark separator)) (shrinks : Reader.Shrinks r) :
    Mirrors (Rule.list₁ item (token separator)) (Reader.list₁ r separator) := by
  intro c
  unfold Rule.list₁
  cases e : item c with
  | fail failure =>
    rw [series_of_fail e]
    exact (Reader.list₁_eq_none.2 (hi.of_none (congrArg Outcome.result? e))).symm
  | ok a c₁ hint =>
    obtain ⟨as, last, hint₁, ended, same, row⟩ := row_series hi hs shrinks e
    rw [same]
    simp only [result?_closeList hs]
    exact ((Reader.list₁_eq_some shrinks).2 ⟨_, row, rfl⟩).symm

end Lists

/- A colon, which is also read off the front of a double colon. -/

def ColonFirst (ts : List Lexeme) : Prop :=
  ∃ text rest, ts = .mark text :: rest ∧ (text = ":" ∨ text = "::")

theorem lexemes_colon (rest : List Char) :
    lexemes (':' :: rest) = .mark ":" :: lexemes rest ∨
      ∃ ts, lexemes (':' :: rest) = .mark "::" :: ts ∧ ColonFirst (lexemes rest) := by
  induction rest with
  | nil => exact .inl rfl
  | cons y rest ih =>
    by_cases double : y = ':'
    · subst double
      have front := isMark_of_long (m := [':', ':']) (by decide) rest
      refine .inr ⟨lexemes rest, lexemes_of_munch front, ?_⟩
      rcases ih with h | ⟨ts, h, _⟩
      · exact ⟨_, _, h, .inl rfl⟩
      · exact ⟨_, _, h, .inr rfl⟩
    · refine .inl (lexemes_of_munch ?_)
      have colon : skipBlanks (':' :: y :: rest) = ':' :: y :: rest :=
        skipBlanks_cons_of_not_blank rfl _
      have none : ¬ ':' = y := fun e => double e.symm
      have other : isWordChar ':' = false := by decide
      rw [colon]
      simp [Lexeme.munch, other, Lexeme.markLength, Lexeme.longMarks, List.isPrefixOf, none]

theorem colon_cases (c : Cursor) :
    ((token ":" c).result? = none ∧ Reader.mark ":" (lexemes c.rest) = none) ∨
      ∃ c₁, (token ":" c).result? = some ((), c₁) ∧
        (lexemes c.rest = .mark ":" :: lexemes c₁.rest ∨
          ∃ ts, lexemes c.rest = .mark "::" :: ts ∧ ColonFirst (lexemes c₁.rest)) := by
  have skipped := skipBlanks_skipBlanks c.rest
  rw [result?_token, show ":".toList = [':'] from rfl, ← lexemes_skipBlanks c.rest]
  generalize (c.skipWhile isBlank).offset = offset
  generalize skipBlanks c.rest = cs at skipped
  by_cases prefixed : [':'] <+: cs
  · right
    obtain ⟨rest, rfl⟩ := prefixed
    rw [result?_literal_append]
    refine ⟨_, rfl, ?_⟩
    change lexemes (':' :: rest) = .mark ":" :: lexemes (skipBlanks rest) ∨
      ∃ ts, lexemes (':' :: rest) = .mark "::" :: ts ∧ ColonFirst (lexemes (skipBlanks rest))
    rw [lexemes_skipBlanks]
    exact lexemes_colon rest
  · left
    rw [result?_literal_eq_none prefixed]
    refine ⟨rfl, ?_⟩
    have front := front_lexemes skipped
    generalize lexemes cs = ts at front ⊢
    cases front with
    | empty | word _ | lifetime _ => rfl
    | mark word alone read =>
      rename_i t
      by_cases same : t = ":"
      · subst same
        exact absurd ⟨_, read.symm⟩ prefixed
      · simp only [Reader.mark, if_neg same]

theorem mirrors_after_colon {α : Type} {q : Rule α} {s : Reader α} (hq : Mirrors q s)
    (refuses : ∀ ts, ColonFirst ts → s ts = none) :
    Mirrors ((token ":").andThen q) ((Reader.mark ":").andThen s) := by
  refine .andThen_of_stuck hq fun c => ?_
  rcases colon_cases c with ⟨none, refused⟩ | ⟨c₁, read, colon | ⟨ts, double, again⟩⟩
  · exact .inl (by rw [none, refused]; rfl)
  · exact .inl (by rw [read, colon, Reader.mark_cons]; rfl)
  · refine .inr ⟨fun u mid e => ?_, by rw [double]; rfl⟩
    obtain ⟨_, rfl⟩ := Prod.mk.inj (Option.some.inj (read.symm.trans e))
    have same := hq c₁
    rw [refuses _ again] at same
    exact Option.map_eq_none_iff.1 same

/- An array length, which is also read off the front of a longer word. -/

/-- The digits at the front of a text are the whole word, or the word goes on behind them. -/
theorem digits_cases (cs : List Char) :
    ((cs.takeWhile isWordChar).all Char.isDigit = true ∧
        cs.takeWhile Char.isDigit = cs.takeWhile isWordChar ∧
        cs.dropWhile Char.isDigit = cs.dropWhile isWordChar) ∨
      ((cs.takeWhile isWordChar).all Char.isDigit = false ∧
        ∃ y ys, cs.dropWhile Char.isDigit = y :: ys ∧ isWordChar y = true) := by
  induction cs with
  | nil => exact .inl ⟨rfl, rfl, rfl⟩
  | cons x cs ih =>
    cases digit : x.isDigit with
    | true =>
      have word : isWordChar x = true := by simp [isWordChar, Char.isAlphanum, digit]
      simpa [digit, word] using ih
    | false =>
      cases word : isWordChar x with
      | true => exact .inr ⟨by simp [digit, word], x, cs, by simp [digit], word⟩
      | false => exact .inl (by simp [digit, word])

theorem result?_arrayLength (c : Cursor) :
    (arrayLength c).result? =
      if (skipBlanks c.rest).takeWhile Char.isDigit ≠ [] ∧
          numeral ((skipBlanks c.rest).takeWhile Char.isDigit) < UInt64.size then
        some (UInt64.ofNat (numeral ((skipBlanks c.rest).takeWhile Char.isDigit)),
          ((c.skipWhile isBlank).skipWhile Char.isDigit).skipWhile isBlank)
      else none := by
  rw [arrayLength, result?_padded, result?_labelled, result?_refine, result?_run₁,
    show (c.skipWhile isBlank).rest = skipBlanks c.rest from rfl]
  by_cases empty : (skipBlanks c.rest).takeWhile Char.isDigit = []
  · simp [empty]
  · by_cases small : numeral ((skipBlanks c.rest).takeWhile Char.isDigit) < UInt64.size
    · simp [empty, small, Except.toOption]
    · simp [empty, small, Except.toOption]

theorem arrayLength_cases (c : Cursor) :
    ((arrayLength c).result?.map fun (n, rest) => (n, lexemes rest.rest)) =
        Reader.arrayLength (lexemes c.rest) ∨
      ∃ n c₁ text ts, (arrayLength c).result? = some (n, c₁) ∧
        lexemes c₁.rest = .word text :: ts ∧ Reader.arrayLength (lexemes c.rest) = none := by
  have skipped := skipBlanks_skipBlanks c.rest
  have front := front_lexemes skipped
  rw [lexemes_skipBlanks] at front
  have left : lexemes (((c.skipWhile isBlank).skipWhile Char.isDigit).skipWhile isBlank).rest =
      lexemes ((skipBlanks c.rest).dropWhile Char.isDigit) := lexemes_skipBlanks _
  rw [result?_arrayLength]
  generalize ((c.skipWhile isBlank).skipWhile Char.isDigit).skipWhile isBlank = c₁ at left ⊢
  generalize skipBlanks c.rest = cs at front left ⊢
  generalize lexemes c.rest = ts at front ⊢
  cases front with
  | empty => exact .inl rfl
  | lifetime word => exact .inl rfl
  | mark word alone read =>
    rename_i x rest after text
    have digit : x.isDigit = false := by
      simp only [isWordChar, Char.isAlphanum, Bool.or_eq_false_iff] at word
      exact word.1.2
    exact .inl (by simp [digit, Reader.arrayLength])
  | word word =>
    rename_i x rest
    cases digit : x.isDigit with
    | false => exact .inl (by simp [digit, Reader.arrayLength, -String.ofList_cons])
    | true =>
      rcases digits_cases rest with ⟨all, taken, dropped⟩ | ⟨longer, y, ys, rest', word'⟩
      · left
        rw [List.dropWhile_cons, if_pos digit, dropped] at left
        simp only [List.takeWhile_cons, digit, if_true, taken, Reader.arrayLength,
          String.toList_ofList, List.all_cons, all, Bool.true_and, true_and, ne_eq, reduceCtorEq,
          not_false_eq_true]
        split <;> simp [left]
      · have refused : Reader.arrayLength (.word (String.ofList (x :: rest.takeWhile isWordChar)) ::
            lexemes (rest.dropWhile isWordChar)) = none := by
          simp [Reader.arrayLength, longer, -String.ofList_cons]
        split
        · right
          rw [List.dropWhile_cons, if_pos digit, rest'] at left
          exact ⟨_, c₁, _, _, rfl, left.trans (lexemes_word word'), refused⟩
        · exact .inl refused.symm

theorem mirrors_size {α : Type} {q : Rule α} {s : Reader α} (hq : Mirrors q s)
    (semicolon : Mirrors (token ";") (Reader.mark ";"))
    (words : ∀ text ts, s (.word text :: ts) = none)
    (refuses : ∀ ts, s (.mark ";" :: ts) = none) :
    Mirrors ((optional ((token ";").keepRight arrayLength)).andThen q)
      ((Reader.optional ((Reader.mark ";").keepRight Reader.arrayLength)).andThen s) := by
  refine .andThen_of_stuck hq fun c => ?_
  rw [result?_optional, keepRight, result?_map, result?_andThen]
  cases opened : (token ";" c).result? with
  | none =>
    left
    have none := Reader.keepRight_eq_none (q := Reader.arrayLength) (semicolon.of_none opened)
    rw [Reader.optional, none]
    rfl
  | some found =>
    obtain ⟨u, c₁⟩ := found
    have front := Reader.mark_eq_some.1 (semicolon.of_some opened)
    rw [Option.bind_some, front, Reader.optional, Reader.keepRight_mark_cons]
    dsimp only
    rcases arrayLength_cases c₁ with same | ⟨n, c₂, text, ts, read, word, refused⟩
    · left
      rw [← same]
      cases (arrayLength c₁).result? with
      | none => exact congrArg (fun ts => some (none, ts)) front
      | some found => rfl
    · right
      simp only [read, Reader.andThen, Reader.optional, Reader.keepRight_mark_cons, refused,
        refuses, and_true]
      intro o mid e
      obtain ⟨_, rfl⟩ := Prod.mk.inj (Option.some.inj e)
      have same := hq c₂
      rw [word, words] at same
      exact Option.map_eq_none_iff.1 same

end Rule

end ImplFamilies.Grammar
