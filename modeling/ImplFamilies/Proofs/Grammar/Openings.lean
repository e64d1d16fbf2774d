import ImplFamilies.Proofs.Grammar.Alternatives

/-!
What an input that is not read begins with. A word is always read as a type, a path or a bound, so
these fail at marks only; and where one input begins with the word of another, or with a new name
in its place, what failed on the first fails on the second.
-/

namespace ImplFamilies.Grammar.Reader

variable {ts us rest : List Lexeme}

/- Where nothing is read. -/

def Boundless (ts : List Lexeme) : Prop :=
  ts = [] ∨ ∃ text inner, ts = .mark text :: inner ∧ text ∉ ["?", "...", "\"C\""]

def Typeless (ts : List Lexeme) : Prop :=
  ts = [] ∨ ∃ text inner, ts = .mark text :: inner ∧
    text ∈ ["::", "<", ",", ")", ">", "]", ";", "+"]

theorem typeless_mark {text : String} (h : text ∈ ["::", "<", ",", ")", ">", "]", ";", "+"]) :
    Typeless (.mark text :: ts) :=
  .inr ⟨text, ts, rfl, h⟩

theorem Typeless.boundless (h : Typeless ts) : Boundless ts := by
  rcases h with rfl | ⟨text, inner, rfl, mem⟩
  · exact .inl rfl
  · refine .inr ⟨text, inner, rfl, ?_⟩
    exact (by decide : ∀ t ∈ ["::", "<", ",", ")", ">", "]", ";", "+"],
      t ∉ ["?", "...", "\"C\""]) text mem

theorem Typeless.readTy_eq_none (h : Typeless ts) (spot : Spot) : readTy spot ts = none := by
  rcases h with rfl | ⟨text, inner, rfl, mem⟩
  · cases spot with
    | plain => rw [readTy_plain]; rfl
    | full => rw [readTy_full, readTy_plain]; rfl
  · exact readTy_mark spot text ((by decide : ["::", "<", ",", ")", ">", "]", ";", "+"] ⊆
      [")", ">", "<", "]", ",", ";", "=", "::", "+"]) mem)

theorem Boundless.typePath_eq_none {full : Reader Ty} (h : Boundless ts) :
    typePath full ts = none := by
  cases found : typePath full ts with
  | none => rfl
  | some other =>
    rcases h with rfl | ⟨text, inner, rfl, other⟩
    · cases typePath_first found
    · cases typePath_first found <;> exact absurd (by decide) other

theorem Boundless.traitBound_eq_none {full : Reader Ty} (h : Boundless ts) :
    traitBound full ts = none := by
  have unasked : mark "?" ts = none := by
    rcases h with rfl | ⟨text, inner, rfl, other⟩
    · rfl
    · refine if_neg fun same => ?_
      rw [same] at other
      exact absurd (by decide) other
  simp only [traitBound, map, andThen, optional, unasked, h.typePath_eq_none]

theorem Boundless.bounds_eq_none {full : Reader Ty} (h : Boundless ts) :
    bounds full ts = none := by
  refine separated₁_eq_none.2 ?_
  have unnamed : lifetime ts = none := by
    rcases h with rfl | ⟨text, inner, rfl, _⟩ <;> rfl
  simp only [bound, orElse, map, unnamed, h.traitBound_eq_none]

theorem Typeless.segments_eq_none (h : Typeless ts) : segments ts = none := by
  cases found : segments ts with
  | none => rfl
  | some other =>
    obtain ⟨name, rest⟩ := other
    rcases h with rfl | ⟨text, inner, rfl, mem⟩
    · cases PathFirst.of_name found
    · cases PathFirst.of_name found <;> exact absurd mem (by decide)

/- A word is always read. -/

theorem segments_word (text : String) (ts : List Lexeme) :
    segments (.word text :: ts) ≠ none :=
  fun none => nomatch separated₁_eq_none.1 (map_eq_none.1 none)

theorem orElse_eq_none {α : Type} {p q : Reader α} :
    p.orElse q ts = none ↔ p ts = none ∧ q ts = none := by
  unfold orElse
  cases p ts <;> simp

theorem optional_ne_none {α : Type} {p : Reader α} : p.optional ts ≠ none := by
  unfold optional
  cases p ts <;> simp

theorem andThen_eq_none {α β : Type} {p : Reader α} {q : Reader β} :
    p.andThen q ts = none ↔ p ts = none ∨ ∃ a mid, p ts = some (a, mid) ∧ q mid = none := by
  unfold andThen
  cases p ts with
  | none => simp
  | some found =>
    obtain ⟨a, mid⟩ := found
    cases h : q mid with
    | none => exact iff_of_true (by simp only [h]) (.inr ⟨a, mid, rfl, h⟩)
    | some next => simp [h]

variable {full : Reader Ty}

theorem UnlessOpened.traitBound (h : UnlessOpened (bounds full) ts) :
    UnlessOpened (traitBound full) ts := by
  intro opener inner opened
  have unread : bound full inner = none := separated₁_eq_none.1 (h opener inner opened)
  exact map_eq_none.1 (orElse_eq_none.1 unread).2

theorem typePath_word (text : String) (ts : List Lexeme) :
    typePath full (.word text :: ts) ≠ none := by
  intro unread
  rcases andThen_eq_none.1 (map_eq_none.1 (orElse_eq_none.1 unread).2) with name | ⟨_, _, _, args⟩
  · exact segments_word text ts name
  · exact optional_ne_none args

theorem traitBound_word (text : String) (ts : List Lexeme) :
    traitBound full (.word text :: ts) ≠ none := by
  intro unread
  rcases andThen_eq_none.1 (map_eq_none.1 unread) with asked | ⟨_, mid, asked, path⟩
  · exact optional_ne_none asked
  · have unasked : optional (mark "?") (.word text :: ts) = some (none, .word text :: ts) := rfl
    obtain ⟨_, rfl⟩ := Prod.mk.inj (Option.some.inj (unasked.symm.trans asked))
    exact typePath_word text ts path

theorem bounds_word (text : String) (ts : List Lexeme) :
    bounds full (.word text :: ts) ≠ none := by
  intro unread
  have bound := (orElse_eq_none.1 (separated₁_eq_none.1 unread)).2
  exact traitBound_word text ts (map_eq_none.1 bound)

theorem readTy_word (text : String) (ts : List Lexeme) :
    readTy .full (.word text :: ts) ≠ none := by
  intro unread
  have path : (typePath (readTy .full)).map Ty.path (.word text :: ts) = none := by
    rw [readTy_full, readTy_plain] at unread
    simp only [fullType, plainType, orElse_eq_none] at unread
    exact unread.2.2.2.2.2.2.2.2.2.2
  exact typePath_word text ts (map_eq_none.1 path)

/- An opening parenthesis: a list of types between parentheses is a type. -/

theorem typed_of_list {inner : List Lexeme} {xs : List Ty}
    (h : list (readTy .full) "," inner = some (xs, .mark ")" :: rest)) :
    readTy .full (.mark "(" :: inner) ≠ none := by
  have unopened : UnlessOpened (bounds (readTy .full)) (.mark "(" :: inner) :=
    fun _ _ same => nomatch same
  have read {t : Ty} (h : PlainRead (.mark "(" :: inner) t rest) :
      readTy .full (.mark "(" :: inner) ≠ none := by
    rw [readTy_full_iff.2 (.inr ⟨unopened, h⟩)]
    exact Option.some_ne_none _
  cases first : readTy .full inner with
  | none =>
    rw [list_of_none first] at h
    obtain ⟨_, rfl⟩ := Prod.mk.inj (Option.some.inj h)
    exact read .unit
  | some found =>
    rw [list_of_some first] at h
    exact read (.tuple h)

theorem PlainRead.of_round {inner : List Lexeme} {t : Ty} (h : PlainRead ts t rest)
    (first : ts = .mark "(" :: inner) :
    inner = .mark ")" :: rest ∨ ∃ xs, list₁ (readTy .full) "," inner =
      some (xs, .mark ")" :: rest) := by
  cases h with
  | unit => exact .inl (List.cons.inj first).2.symm
  | tuple elements =>
    rw [(List.cons.inj first).2] at elements
    exact .inr ⟨_, elements⟩
  | path path =>
    rw [first, Boundless.typePath_eq_none (.inr ⟨"(", inner, rfl, by decide⟩)] at path
    cases path
  | _ => simp at first

theorem list_of_typed {inner : List Lexeme} {t : Ty}
    (h : readTy .full (.mark "(" :: inner) = some (t, rest)) :
    ∃ xs, list (readTy .full) "," inner = some (xs, .mark ")" :: rest) := by
  rcases readTy_full_iff.1 h with ⟨_, _, _, same, _⟩ | ⟨_, read⟩
  · cases same
  · rcases read.of_round rfl with rfl | ⟨xs, elements⟩
    · exact ⟨[], list_of_none (readTy_mark .full ")" (by decide))⟩
    · refine ⟨xs, ?_⟩
      cases first : readTy .full inner with
      | none => exact nomatch (list₁_eq_none.2 first).symm.trans elements
      | some found => rw [list_of_some first, elements]

/- Paths called like functions, and those that are not. -/

theorem callPath_eq_none_of_uncalled
    (h : ∀ name after, segments (ts.dropWhile isModifier) = some (name, after) →
      mark "(" after = none) : callPath full ts = none := by
  cases found : callPath full ts with
  | none => rfl
  | some other =>
    obtain ⟨_, read, _⟩ := map_eq_some.1 found
    obtain ⟨_, read, _⟩ := andThen_eq_some.1 read
    obtain ⟨_, read, _⟩ := andThen_eq_some.1 read
    obtain ⟨named, worded, called⟩ := andThen_eq_some.1 read
    obtain ⟨after, _, name, peeked⟩ := keepLeft_eq_some.1 called
    obtain ⟨⟨_, opened⟩, _⟩ := peek_eq_some.1 peeked
    obtain ⟨_, rfl⟩ := Prod.mk.inj (Option.some.inj worded)
    exact nomatch (h _ _ name).symm.trans opened

theorem callPath_of_typed {name : String} {inner : List Lexeme} {found : Ty × List Lexeme}
    (named : segments (ts.dropWhile isModifier) = some (name, .mark "(" :: inner))
    (type : readTy .full (.mark "(" :: inner) = some found) :
    callPath (readTy .full) ts ≠ none := by
  obtain ⟨t, closed⟩ := found
  obtain ⟨xs, listed⟩ := list_of_typed type
  have called : segments.keepLeft (peek (mark "(")) (ts.dropWhile isModifier) =
      some (name, .mark "(" :: inner) :=
    keepLeft_eq_some.2 ⟨_, (), named, peek_eq_some.2 ⟨⟨_, mark_cons "(" inner⟩, rfl⟩⟩
  obtain ⟨words, worded⟩ : ∃ words, modifiers ts = some (words, ts.dropWhile isModifier) :=
    ⟨_, rfl⟩
  have head := andThen_eq_some.2 ⟨_, andThen_eq_some.2 ⟨_, worded, called⟩,
    between_eq_some.2 ⟨_, rfl, listed⟩⟩
  intro unread
  rcases andThen_eq_none.1 (map_eq_none.1 unread) with stuck | ⟨_, _, _, result⟩
  · exact nomatch stuck.symm.trans head
  · exact optional_ne_none result

end ImplFamilies.Grammar.Reader
