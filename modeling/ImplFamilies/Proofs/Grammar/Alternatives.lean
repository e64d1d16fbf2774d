import ImplFamilies.Proofs.Grammar.Completeness

/-!
Which alternative reads a type. The first lexeme decides between them, except that the words `impl`
and `dyn` may also be names: they are names where no bound stands behind them. So the alternatives
exclude each other, and what is read is told by one of them, without the order in which they are
tried.
-/

namespace ImplFamilies.Grammar.Reader

variable {ts rest : List Lexeme} {t : Ty}

theorem keepRight_keyword_cons {α : Type} {p : Reader α} (text : String) (ts : List Lexeme) :
    (keyword text).keepRight p (.word text :: ts) = p ts := by
  simp only [keepRight, map, andThen, keyword, if_true]
  cases p ts <;> rfl

/-- The reader fails behind a word that opens a list of bounds, if the input begins with one. -/
def UnlessOpened {α : Type} (p : Reader α) (ts : List Lexeme) : Prop :=
  ∀ (opener : Opener) (inner : List Lexeme), ts = .word opener.word :: inner → p inner = none

inductive PlainRead : List Lexeme → Ty → List Lexeme → Prop
  | never {ts : List Lexeme} : PlainRead (.mark "!" :: ts) .never ts
  | unit {ts : List Lexeme} : PlainRead (.mark "(" :: .mark ")" :: ts) (.tuple []) ts
  | tuple {ts rest : List Lexeme} {xs : List Ty}
      (elements : list₁ (readTy .full) "," ts = some (xs, .mark ")" :: rest)) :
      PlainRead (.mark "(" :: ts) (.tuple xs) rest
  | array {ts mid rest : List Lexeme} {x : Ty} {size : UInt64}
      (element : readTy .full ts = some (x, .mark ";" :: mid))
      (length : arrayLength mid = some (size, .mark "]" :: rest)) :
      PlainRead (.mark "[" :: ts) (.array x size) rest
  | slice {ts rest : List Lexeme} {x : Ty}
      (element : readTy .full ts = some (x, .mark "]" :: rest)) :
      PlainRead (.mark "[" :: ts) (.slice x) rest
  | pointer {ts mid rest : List Lexeme} {mutable : Bool} {x : Ty}
      (word : mutability ts = some (mutable, mid)) (element : readTy .plain mid = some (x, rest)) :
      PlainRead (.mark "*" :: ts) (.pointer mutable x) rest
  | reference {ts mid after rest : List Lexeme} {name : Option String} {mutable : Option Unit}
      {x : Ty} (named : optional lifetime ts = some (name, mid))
      («mut» : optional (keyword "mut") mid = some (mutable, after))
      (element : readTy .plain after = some (x, rest)) :
      PlainRead (.mark "&" :: ts) (.reference name mutable.isSome x) rest
  | single {opener : Opener} {ts rest : List Lexeme} {b : TraitBound}
      (bound : traitBound (readTy .full) ts = some (b, rest)) :
      PlainRead (.word opener.word :: ts) (.single opener b) rest
  | path {ts rest : List Lexeme} {p : TypePath} (path : typePath (readTy .full) ts = some (p, rest))
      (unopened : UnlessOpened (traitBound (readTy .full)) ts) : PlainRead ts (.path p) rest

/- Paths begin with a name or a modifier. -/

inductive PathFirst : List Lexeme → Prop
  | word {text : String} {ts : List Lexeme} : PathFirst (.word text :: ts)
  | dots {ts : List Lexeme} : PathFirst (.mark "..." :: ts)
  | abi {ts : List Lexeme} : PathFirst (.mark "\"C\"" :: ts)

theorem PathFirst.mark {text : String} (h : PathFirst (.mark text :: ts)) :
    text = "..." ∨ text = "\"C\"" := by
  cases h with
  | dots => exact .inl rfl
  | abi => exact .inr rfl

theorem PathFirst.of_name {name : String} {ts : List Lexeme} (h : segments ts = some (name, rest)) :
    PathFirst ts := by
  obtain ⟨_, read, _⟩ := map_eq_some.1 h
  obtain ⟨_, _, _, _, first, _⟩ := (separated₁_eq_some consumes_identifier.shrinks).1 read
  obtain ⟨l, segment, rfl, _⟩ := segment_of_identifier first
  rcases segment with ⟨text, rfl⟩ | rfl
  · exact .word
  · exact .dots

theorem typePath_first {full : Reader Ty} {found : TypePath × List Lexeme}
    (h : typePath full ts = some found) : PathFirst ts := by
  obtain ⟨p, rest⟩ := found
  rcases orElse_eq_some.1 h with called | ⟨_, plain⟩
  · obtain ⟨_, read, _⟩ := map_eq_some.1 called
    obtain ⟨_, read, _⟩ := andThen_eq_some.1 read
    obtain ⟨_, read, _⟩ := andThen_eq_some.1 read
    obtain ⟨named, words, name⟩ := andThen_eq_some.1 read
    obtain ⟨_, _, name, _⟩ := keepLeft_eq_some.1 name
    obtain ⟨_, rfl⟩ := Prod.mk.inj (Option.some.inj words)
    cases ts with
    | nil => exact .of_name name
    | cons l ts =>
      cases modifier : isModifier l with
      | false =>
        rw [List.dropWhile_cons_of_neg (by simp [modifier])] at name
        exact .of_name name
      | true =>
        have kind : l = .word "unsafe" ∨ l = .word "extern" ∨ l = .mark "\"C\"" := by
          simpa [isModifier, or_assoc] using modifier
        rcases kind with rfl | rfl | rfl
        · exact .word
        · exact .word
        · exact .abi
  · obtain ⟨_, read, _⟩ := map_eq_some.1 plain
    obtain ⟨_, name, _⟩ := andThen_eq_some.1 read
    exact .of_name name

theorem plainType_of_path {full plain : Reader Ty} (first : PathFirst ts)
    (unopened : UnlessOpened (traitBound full) ts) :
    plainType full plain ts = (typePath full).map Ty.path ts := by
  cases first with
  | word =>
    rename_i text inner
    have single (opener : Opener) : singleType full opener (.word text :: inner) = none := by
      refine map_eq_none.2 ?_
      by_cases same : text = opener.word
      · rw [same, keepRight_keyword_cons]
        exact unopened opener inner (same ▸ rfl)
      · exact keepRight_eq_none (by simp only [keyword, if_neg same])
    have others : plainType full plain (.word text :: inner) =
        ((singleType full .impl).orElse ((singleType full .dyn).orElse
          ((typePath full).map Ty.path))) (.word text :: inner) := rfl
    rw [others, orElse_of_none (single .impl), orElse_of_none (single .dyn)]
  | dots => rfl
  | abi => rfl

theorem PlainRead.of_array {mid after : List Lexeme} {x : Ty} {size : Option UInt64}
    (element : readTy .full ts = some (x, mid))
    (sized : optional ((mark ";").keepRight arrayLength) mid = some (size, .mark "]" :: after)) :
    PlainRead (.mark "[" :: ts)
      (match (x, size) with
        | (element, some size) => .array element size
        | (element, none) => .slice element) after := by
  rcases optional_eq_some.1 sized with ⟨n, rfl, counted⟩ | ⟨rfl, _, rfl⟩
  · obtain ⟨inner, rfl, length⟩ := keepRight_mark_eq_some.1 counted
    exact .array element length
  · exact .slice element

theorem plainRead_of_read (h : readTy .plain ts = some (t, rest)) : PlainRead ts t rest := by
  rw [readTy_plain] at h
  rcases orElse_eq_some.1 h with never | ⟨_, h⟩
  · obtain ⟨u, mark, rfl⟩ := map_eq_some.1 never
    obtain rfl := mark_eq_some.1 mark
    exact .never
  rcases orElse_eq_some.1 h with unit | ⟨_, h⟩
  · obtain ⟨_, read, rfl⟩ := map_eq_some.1 unit
    obtain ⟨_, opened, closed⟩ := andThen_eq_some.1 read
    obtain rfl := mark_eq_some.1 opened
    obtain rfl := mark_eq_some.1 closed
    exact .unit
  rcases orElse_eq_some.1 h with tuple | ⟨_, h⟩
  · obtain ⟨xs, read, rfl⟩ := map_eq_some.1 tuple
    obtain ⟨inner, rfl, elements⟩ := between_eq_some.1 read
    exact .tuple elements
  rcases orElse_eq_some.1 h with array | ⟨_, h⟩
  · obtain ⟨⟨x, size⟩, read, rfl⟩ := map_eq_some.1 array
    obtain ⟨inner, rfl, bracketed⟩ := between_eq_some.1 read
    obtain ⟨mid, element, sized⟩ := andThen_eq_some.1 bracketed
    exact .of_array element sized
  rcases orElse_eq_some.1 h with pointer | ⟨_, h⟩
  · obtain ⟨⟨mutable, x⟩, read, rfl⟩ := map_eq_some.1 pointer
    obtain ⟨mid, star, element⟩ := andThen_eq_some.1 read
    obtain ⟨inner, rfl, word⟩ := keepRight_mark_eq_some.1 star
    exact .pointer word element
  rcases orElse_eq_some.1 h with reference | ⟨_, h⟩
  · obtain ⟨⟨⟨name, mutable⟩, x⟩, read, rfl⟩ := map_eq_some.1 reference
    obtain ⟨after, read, element⟩ := andThen_eq_some.1 read
    obtain ⟨mid, ampersand, word⟩ := andThen_eq_some.1 read
    obtain ⟨inner, rfl, named⟩ := keepRight_mark_eq_some.1 ampersand
    obtain ⟨_, «mut», rfl⟩ := map_eq_some.1 word
    exact .reference named «mut» element
  have single {opener : Opener} (h : singleType (readTy .full) opener ts = some (t, rest)) :
      PlainRead ts t rest := by
    obtain ⟨b, read, rfl⟩ := map_eq_some.1 h
    obtain ⟨_, _, word, bound⟩ := keepRight_eq_some.1 read
    obtain rfl := keyword_eq_some.1 word
    exact .single bound
  have behind {opener : Opener} (none : singleType (readTy .full) opener ts = none)
      (inner : List Lexeme) (same : ts = .word opener.word :: inner) :
      traitBound (readTy .full) inner = Option.none := by
    have unread := map_eq_none.1 none
    rwa [same, keepRight_keyword_cons] at unread
  rcases orElse_eq_some.1 h with read | ⟨«impl», h⟩
  · exact single read
  rcases orElse_eq_some.1 h with read | ⟨«dyn», h⟩
  · exact single read
  obtain ⟨p, path, rfl⟩ := map_eq_some.1 h
  refine .path path fun opener => ?_
  cases opener with
  | impl => exact behind «impl»
  | dyn => exact behind «dyn»

theorem PlainRead.read (h : PlainRead ts t rest) : readTy .plain ts = some (t, rest) := by
  have stuck (ts : List Lexeme) : readTy .full (.mark ")" :: ts) = none :=
    readTy_mark .full ")" (by decide)
  rw [readTy_plain]
  cases h with
  | never => rfl
  | unit => rfl
  | @tuple inner _ xs elements =>
    have filled := brackets_eq_none "(" stuck elements
    have read : tupleType (readTy .full) (.mark "(" :: inner) = some (.tuple xs, rest) :=
      map_eq_some.2 ⟨xs, between_eq_some.2 ⟨inner, rfl, elements⟩, rfl⟩
    exact orElse_next rfl (orElse_next (map_eq_none.2 filled) (orElse_first read))
  | @array inner mid _ x size element length =>
    have semicolon : (mark ";").keepRight arrayLength (.mark ";" :: mid) =
        some (size, .mark "]" :: rest) := by rw [keepRight_mark_cons, length]
    have read : arrayOrSlice (readTy .full) (.mark "[" :: inner) = some (.array x size, rest) :=
      map_eq_some.2 ⟨(x, some size), between_eq_some.2 ⟨inner, rfl, andThen_eq_some.2
        ⟨_, element, optional_eq_some.2 (.inl ⟨size, rfl, semicolon⟩)⟩⟩, rfl⟩
    exact orElse_next rfl (orElse_next rfl (orElse_next rfl (orElse_first read)))
  | @slice inner _ x element =>
    have read : arrayOrSlice (readTy .full) (.mark "[" :: inner) = some (.slice x, rest) :=
      map_eq_some.2 ⟨(x, none), between_eq_some.2 ⟨inner, rfl, andThen_eq_some.2
        ⟨_, element, rfl⟩⟩, rfl⟩
    exact orElse_next rfl (orElse_next rfl (orElse_next rfl (orElse_first read)))
  | @pointer inner mid _ mutable x word element =>
    have star : (mark "*").keepRight mutability (.mark "*" :: inner) = some (mutable, mid) := by
      rw [keepRight_mark_cons, word]
    have read : pointerType (readTy .plain) (.mark "*" :: inner) =
        some (.pointer mutable x, rest) :=
      map_eq_some.2 ⟨(mutable, x), andThen_eq_some.2 ⟨_, star, element⟩, rfl⟩
    exact orElse_next rfl (orElse_next rfl (orElse_next rfl (orElse_next rfl (orElse_first read))))
  | @reference inner mid _ _ name mutable x named «mut» element =>
    have ampersand : (mark "&").keepRight (optional lifetime) (.mark "&" :: inner) =
        some (name, mid) := by rw [keepRight_mark_cons, named]
    have read : referenceType (readTy .plain) (.mark "&" :: inner) =
        some (.reference name mutable.isSome x, rest) :=
      map_eq_some.2 ⟨((name, mutable.isSome), x), andThen_eq_some.2 ⟨_, andThen_eq_some.2
        ⟨_, ampersand, map_eq_some.2 ⟨mutable, «mut», rfl⟩⟩, element⟩, rfl⟩
    exact orElse_next rfl (orElse_next rfl (orElse_next rfl (orElse_next rfl (orElse_next rfl
      (orElse_first read)))))
  | @single opener inner _ b bound =>
    have read : singleType (readTy .full) opener (.word opener.word :: inner) =
        some (.single opener b, rest) :=
      map_eq_some.2 ⟨b, by rw [keepRight_keyword_cons, bound], rfl⟩
    refine orElse_next rfl (orElse_next rfl (orElse_next rfl (orElse_next rfl (orElse_next rfl
      (orElse_next rfl ?_)))))
    cases opener with
    | impl => exact orElse_first read
    | dyn => exact orElse_next rfl (orElse_first read)
  | path path unopened =>
    rw [plainType_of_path (typePath_first path) unopened]
    exact map_eq_some.2 ⟨_, path, rfl⟩

/-- A type behind a star or an ampersand is read by the one alternative that can read it. -/
theorem readTy_plain_iff : readTy .plain ts = some (t, rest) ↔ PlainRead ts t rest :=
  ⟨plainRead_of_read, PlainRead.read⟩

/-- Anywhere else it may have a list of bounds, if there are bounds behind the word that opens
one. -/
theorem readTy_full_iff : readTy .full ts = some (t, rest) ↔
    (∃ opener inner bs, ts = .word opener.word :: inner ∧
      bounds (readTy .full) inner = some (bs, rest) ∧ t = bounded opener bs) ∨
    (UnlessOpened (bounds (readTy .full)) ts ∧ PlainRead ts t rest) := by
  rw [← readTy_plain_iff]
  constructor
  · intro h
    have listed {opener : Opener} (h : boundedType (readTy .full) opener ts = some (t, rest)) :
        ∃ opener inner bs, ts = .word opener.word :: inner ∧
          bounds (readTy .full) inner = some (bs, rest) ∧ t = bounded opener bs := by
      obtain ⟨bs, read, rfl⟩ := map_eq_some.1 h
      obtain ⟨inner, _, word, read⟩ := keepRight_eq_some.1 read
      exact ⟨opener, inner, bs, keyword_eq_some.1 word, read, rfl⟩
    have behind {opener : Opener} (none : boundedType (readTy .full) opener ts = none)
        (inner : List Lexeme) (same : ts = .word opener.word :: inner) :
        bounds (readTy .full) inner = Option.none := by
      have unread := map_eq_none.1 none
      rwa [same, keepRight_keyword_cons] at unread
    rw [readTy_full] at h
    rcases orElse_eq_some.1 h with read | ⟨«impl», h⟩
    · exact .inl (listed read)
    rcases orElse_eq_some.1 h with read | ⟨«dyn», h⟩
    · exact .inl (listed read)
    refine .inr ⟨fun opener => ?_, h⟩
    cases opener with
    | impl => exact behind «impl»
    | dyn => exact behind «dyn»
  · rintro (⟨opener, inner, bs, rfl, listed, rfl⟩ | ⟨unopened, read⟩)
    · have read : boundedType (readTy .full) opener (.word opener.word :: inner) =
          some (bounded opener bs, rest) :=
        map_eq_some.2 ⟨bs, by rw [keepRight_keyword_cons, listed], rfl⟩
      rw [readTy_full]
      cases opener with
      | impl => exact orElse_first read
      | dyn => exact orElse_next rfl (orElse_first read)
    · have none (opener : Opener) : boundedType (readTy .full) opener ts = none := by
        refine map_eq_none.2 ?_
        cases word : keyword opener.word ts with
        | none => exact keepRight_eq_none word
        | some found =>
          have same := keyword_eq_some.1 word
          rw [same, keepRight_keyword_cons]
          exact unopened opener _ same
      rw [readTy_full, fullType, orElse_of_none (none .impl), orElse_of_none (none .dyn)]
      exact read

end ImplFamilies.Grammar.Reader
