import ImplFamilies.Proofs.Grammar.Completeness

/-!
Signatures are accepted exactly where they are derivable. A derivable inherent signature is not
taken for one of a trait, because the word `for` does not occur in it.
-/

namespace ImplFamilies.Grammar

open Phrase

namespace Reader

variable {ts mid rest : List Lexeme}

theorem exact_lifetimeBounds {bounds : List String} (h : DerivesLifetimeBounds ts bounds rest)
    (ends : Ends rest) : lifetimeBounds ts = some (bounds, rest) := by
  have row : Row lifetime "+" ts bounds rest := by
    induction h with
    | last only =>
      cases only
      exact ⟨_, [], _, rfl, rfl, .stop (keepRight_eq_none (ends.mark_eq_none "+" (by decide)))⟩
    | more first others ih =>
      cases first
      obtain ⟨c, cs, mid, rfl, item, pairs⟩ := ih ends
      exact ⟨_, c :: cs, _, rfl, rfl, .next item pairs⟩
  exact (separated₁_eq_some consumes_lifetime.shrinks).2 row

theorem after_complete {α : Type} {p : Reader α} {d : Phrase α} {text : String} {a : α}
    (h : ∀ {ts}, d ts a rest → ∃ b, p ts = some (b, rest)) (read : After text d ts a rest) :
    ∃ b, (Reader.mark text).keepRight p ts = some (b, rest) := by
  cases read with
  | read behind =>
    rw [keepRight_mark_cons]
    exact h behind

theorem optionalAfter_complete {α : Type} {p : Reader α} {d : Phrase α} {text : String}
    {o : Option α} (h : ∀ {ts a}, d ts a rest → ∃ b, p ts = some (b, rest))
    (read : Optional (After text d) ts o rest) (missing : Reader.mark text rest = none) :
    ∃ b, optional ((Reader.mark text).keepRight p) ts = some (b, rest) := by
  cases read with
  | absent => exact ⟨none, optional_eq_some.2 (.inr ⟨rfl, keepRight_eq_none missing, rfl⟩)⟩
  | present read =>
    obtain ⟨b, found⟩ := after_complete h read
    exact ⟨some b, optional_eq_some.2 (.inl ⟨b, rfl, found⟩)⟩

def ItemEnds (ts : List Lexeme) : Prop :=
  ts = [] ∨ ∃ text inner, ts = .mark text :: inner ∧ text ∈ [",", ">"]

theorem itemEnds_of_comma (ts : List Lexeme) : ItemEnds (.mark "," :: ts) :=
  .inr ⟨",", ts, rfl, by decide⟩

theorem ItemEnds.ends (h : ItemEnds ts) : Ends ts := by
  rcases h with rfl | ⟨text, inner, rfl, mem⟩
  · exact ends_nil
  · exact ends_of_mark
      ((by decide : ∀ t ∈ [",", ">"], t ∉ ["::", "<", "(", "->", "+"]) text mem)

theorem ItemEnds.mark_eq_none (h : ItemEnds ts) (text : String) (mem : text ∈ [":", "="]) :
    Reader.mark text ts = none := by
  rcases h with rfl | ⟨closing, inner, rfl, mem'⟩
  · rfl
  · have other : closing ≠ text :=
      (by decide : ∀ s ∈ [",", ">"], ∀ t ∈ [":", "="], s ≠ t) closing mem' text mem
    simp only [Reader.mark, if_neg other]

theorem param_complete {param : Param} (h : DerivesParam NotKeyword ts param rest)
    (ends : ItemEnds rest) :
    ∃ q, (lifetimeParam.orElse (typeParam (readTy .full))) ts = some (q, rest) := by
  cases h with
  | lifetime read listed =>
    cases read
    obtain ⟨bounds, found⟩ := optionalAfter_complete
      (fun h => ⟨_, exact_lifetimeBounds h ends.ends⟩) listed (ends.mark_eq_none ":" (by decide))
    exact ⟨_, orElse_first (map_eq_some.2 ⟨_, andThen_eq_some.2 ⟨_, rfl, found⟩, rfl⟩)⟩
  | type read listed given =>
    rename_i named declared name bounds default
    have closed : Ends declared ∧ Reader.mark ":" declared = none := by
      cases given with
      | absent => exact ⟨ends.ends, ends.mark_eq_none ":" (by decide)⟩
      | present read => cases read; exact ⟨ends_of_mark (by decide), rfl⟩
    have head := identifier_complete read
    obtain ⟨bs, bounded⟩ := optionalAfter_complete
      (fun h => readBounds_complete h closed.1) listed closed.2
    obtain ⟨t, given⟩ := optionalAfter_complete
      (fun h => readTy_complete h ends.ends) given (ends.mark_eq_none "=" (by decide))
    have other : lifetimeParam ts = none := by
      cases read <;> rfl
    exact ⟨_, orElse_next other (map_eq_some.2 ⟨_, andThen_eq_some.2 ⟨_, andThen_eq_some.2
      ⟨_, head, bounded⟩, given⟩, rfl⟩)⟩

theorem generics_complete {params : List Param} (h : DerivesGenerics NotKeyword ts params rest) :
    ∃ qs, generics (readTy .full) ts = some (qs, rest) := by
  cases h with
  | read listed =>
    rename_i inner
    have params : ExactBelow ItemEnds (inner.length + 1)
        (lifetimeParam.orElse (typeParam (readTy .full))) (DerivesParam NotKeyword) :=
      fun _ _ _ _ => param_complete
    obtain ⟨qs, found⟩ := params.list (consumes_param (shrinks_readTy .full)) itemEnds_of_comma
      (Nat.lt_succ_self _) listed (.inr ⟨">", rest, rfl, by decide⟩) rfl rfl
    exact ⟨qs, between_eq_some.2 ⟨_, rfl, found⟩⟩

theorem whereItem_complete {item : Param} (h : DerivesWhereItem NotKeyword ts item rest)
    (ends : ItemEnds rest) :
    ∃ q, (lifetimeItem.orElse (typeItem (readTy .full))) ts = some (q, rest) := by
  cases h with
  | lifetime read listed =>
    cases read
    cases listed with
    | read behind =>
      have found := exact_lifetimeBounds behind ends.ends
      exact ⟨_, orElse_first (map_eq_some.2 ⟨_, andThen_eq_some.2 ⟨_, rfl, found⟩, rfl⟩)⟩
  | type read listed =>
    cases listed with
    | read behind =>
      obtain ⟨bs, found⟩ := readBounds_complete behind ends.ends
      have head := keepLeft_eq_some.2 ⟨_, (), identifier_complete read, mark_cons ":" _⟩
      have other : lifetimeItem ts = none := by
        cases read <;> rfl
      exact ⟨_, orElse_next other
        (map_eq_some.2 ⟨_, andThen_eq_some.2 ⟨_, head, found⟩, rfl⟩)⟩

theorem where_complete {items : List Param} (h : DerivesWhere NotKeyword ts items []) :
    ∃ qs, whereClause (readTy .full) ts = some (qs, []) := by
  cases h with
  | read listed =>
    rename_i inner
    have params : ExactBelow ItemEnds (inner.length + 1)
        (lifetimeItem.orElse (typeItem (readTy .full))) (DerivesWhereItem NotKeyword) :=
      fun _ _ _ _ => whereItem_complete
    obtain ⟨qs, found⟩ := params.list (consumes_whereItem (shrinks_readTy .full))
      itemEnds_of_comma (Nat.lt_succ_self _) listed (.inl rfl) rfl rfl
    exact ⟨qs, keepRight_eq_some.2 ⟨_, (), keyword_eq_some.2 rfl, found⟩⟩

theorem ends_of_where {clause : Option (List Param)}
    (h : Optional (DerivesWhere NotKeyword) ts clause []) : Ends ts := by
  cases h with
  | absent => exact ends_nil
  | present read => cases read; exact ends_of_word

theorem optionalWhere_complete {clause : Option (List Param)}
    (h : Optional (DerivesWhere NotKeyword) ts clause []) :
    ∃ qs, optional (whereClause (readTy .full)) ts = some (qs, []) := by
  cases h with
  | absent => exact ⟨none, rfl⟩
  | present read =>
    obtain ⟨qs, found⟩ := where_complete read
    exact ⟨some qs, optional_eq_some.2 (.inl ⟨qs, rfl, found⟩)⟩

theorem optionalGenerics_complete {params : Option (List Param)}
    (h : Optional (DerivesGenerics NotKeyword) ts params rest)
    (missing : Reader.mark "<" rest = none) :
    ∃ qs, optional (generics (readTy .full)) ts = some (qs, rest) := by
  cases h with
  | absent =>
    have none : generics (readTy .full) ts = none := by
      simp only [generics, between, keepLeft, keepRight, map, andThen, missing]
    exact ⟨_, optional_eq_some.2 (.inr ⟨rfl, none, rfl⟩)⟩
  | present read =>
    obtain ⟨qs, found⟩ := generics_complete read
    exact ⟨some qs, optional_eq_some.2 (.inl ⟨qs, rfl, found⟩)⟩

theorem mark_eq_none_of_read {α : Type} {p : Reader α} {text : String} {found : α × List Lexeme}
    (read : p ts = some found) (none : ∀ inner, p (.mark text :: inner) = none) :
    Reader.mark text ts = Option.none := by
  cases marked : Reader.mark text ts with
  | none => rfl
  | some other =>
    rw [mark_eq_some.1 marked, none] at read
    cases read

theorem traitSignature_complete {opened typed named self after : List Lexeme}
    {mark negation : Option Unit} {params : Option (List Param)} {p : TypePath} {t : Ty}
    {clause : Option (List Param)}
    (marked : Optional (Token (.word "unsafe")) ts mark (.word "impl" :: opened))
    (listed : Optional (DerivesGenerics NotKeyword) opened params typed)
    (negated : Optional (Token (.mark "!")) typed negation named)
    (path : DerivesPath NotKeyword named p (.word "for" :: self))
    (type : DerivesTy NotKeyword .full self t after)
    («where» : Optional (DerivesWhere NotKeyword) after clause []) :
    ∃ e, traitSignature (readTy .full) ts = some (e, []) := by
  obtain ⟨q, path⟩ := readPath_complete path ends_of_word
  obtain ⟨u, type⟩ := readTy_complete type (ends_of_where «where»)
  obtain ⟨items, «where»⟩ := optionalWhere_complete «where»
  have exclaimed : optional (Reader.mark "!") typed = some (negation, named) := by
    cases negated with
    | absent =>
      exact optional_eq_some.2 (.inr ⟨rfl, mark_eq_none_of_read path fun _ => rfl, rfl⟩)
    | present read => cases read; rfl
  have unlisted : Reader.mark "<" typed = none := by
    cases negated with
    | absent => exact mark_eq_none_of_read path fun _ => rfl
    | present read => cases read; rfl
  obtain ⟨qs, listed⟩ := optionalGenerics_complete listed unlisted
  have worded : ((optional (Reader.keyword "unsafe")).keepLeft (Reader.keyword "impl")) ts =
      some (mark, opened) := by
    cases marked with
    | absent => rfl
    | present read => cases read; rfl
  have head := andThen_eq_some.2 ⟨_, andThen_eq_some.2 ⟨_, andThen_eq_some.2
    ⟨_, worded, listed⟩, exclaimed⟩, path⟩
  have target : (Reader.keyword "for") (.word "for" :: self) = some ((), self) := rfl
  exact ⟨_, map_eq_some.2 ⟨_, andThen_eq_some.2 ⟨_, andThen_eq_some.2
    ⟨_, keepLeft_eq_some.2 ⟨_, _, head, target⟩, type⟩, «where»⟩, rfl⟩⟩

theorem for_mem_of_traitSignature {d : Signature}
    (h : traitSignature (readTy .full) ts = some (d, rest)) : .word "for" ∈ ts := by
  obtain ⟨_, read, _⟩ := map_eq_some.1 h
  obtain ⟨_, read, _⟩ := andThen_eq_some.1 read
  obtain ⟨self, read, _⟩ := andThen_eq_some.1 read
  obtain ⟨before, u, head, target⟩ := keepLeft_eq_some.1 read
  obtain rfl := keyword_eq_some.1 target
  exact (shrinks_traitHead (shrinks_readTy .full) head).subset (List.mem_cons_self ..)

theorem for_not_mem_of_inherent {opened self after : List Lexeme} {params : Option (List Param)}
    {t : Ty} {clause : Option (List Param)}
    (listed : Optional (DerivesGenerics NotKeyword) opened params self)
    (type : DerivesTy NotKeyword .full self t after)
    («where» : Optional (DerivesWhere NotKeyword) after clause []) :
    .word "for" ∉ opened := by
  have name : ¬ NotKeyword "for" := fun h => h.ne "for" (by decide) rfl
  have onward {ts rest : List Lexeme} (h : Passes NotKeyword ts rest) (mem : .word "for" ∈ ts) :
      .word "for" ∈ rest := h.mem_rest name (by decide) (by decide) mem
  intro mem
  have mem := onward (passes_optional passes_generics listed) mem
  have mem := onward (spans_ty type).passes mem
  cases «where» with
  | absent => cases mem
  | present read =>
    cases read with
    | read items =>
      rcases List.mem_cons.1 mem with same | mem
      · exact absurd (Lexeme.word.inj same) (by decide)
      · exact nomatch onward (passes_commaList spans_whereItem items) mem

theorem inherentSignature_complete {opened self after : List Lexeme}
    {params : Option (List Param)} {t : Ty} {clause : Option (List Param)}
    (listed : Optional (DerivesGenerics NotKeyword) opened params self)
    (type : DerivesTy NotKeyword .full self t after)
    («where» : Optional (DerivesWhere NotKeyword) after clause []) :
    ∃ e, inherentSignature (readTy .full) (.word "impl" :: opened) = some (e, []) := by
  obtain ⟨u, type⟩ := readTy_complete type (ends_of_where «where»)
  obtain ⟨items, «where»⟩ := optionalWhere_complete «where»
  have unlisted : Reader.mark "<" self = none :=
    mark_eq_none_of_read type fun _ => readTy_mark .full "<" (by decide)
  obtain ⟨qs, listed⟩ := optionalGenerics_complete listed unlisted
  have opening : (Reader.keyword "impl") (.word "impl" :: opened) = some ((), opened) := rfl
  have head := keepRight_eq_some.2 ⟨_, _, opening, listed⟩
  exact ⟨_, map_eq_some.2 ⟨_, andThen_eq_some.2 ⟨_, andThen_eq_some.2 ⟨_, head, type⟩, «where»⟩,
    rfl⟩⟩

theorem implementation_complete {d : Signature} (h : DerivesSignature NotKeyword ts d []) :
    ∃ e, implementation (readTy .full) ts = some (e, []) := by
  cases h with
  | trait marked generics negated path type «where» =>
    obtain ⟨e, found⟩ := traitSignature_complete marked generics negated path type «where»
    exact ⟨e, orElse_first found⟩
  | inherent generics type «where» =>
    rename_i opened _ _ _ _ _
    obtain ⟨e, found⟩ := inherentSignature_complete generics type «where»
    refine ⟨e, orElse_next ?_ found⟩
    cases trait : traitSignature (readTy .full) (.word "impl" :: opened) with
    | none => rfl
    | some other =>
      rcases List.mem_cons.1 (for_mem_of_traitSignature trait) with same | mem
      · exact absurd (Lexeme.word.inj same) (by decide)
      · exact absurd mem (for_not_mem_of_inherent generics type «where»)

end Reader

/-- What is read is derivable with that tree, and where no keyword is a name, what is derivable
is read. -/
theorem signatures_read_are_derivable (text : String) :
    (∀ d, Signature.ofText text = .ok d →
      DerivesSignature (fun _ => True) (lexemes text.toList) d []) ∧
    (∀ d, DerivesSignature NotKeyword (lexemes text.toList) d [] →
      ∃ e, Signature.ofText text = .ok e) := by
  constructor
  · intro d read
    exact Reader.implementation_sound (signatureOfText_iff.1 read)
  · intro d derived
    obtain ⟨e, found⟩ := Reader.implementation_complete derived
    exact ⟨e, signatureOfText_iff.2 found⟩

/-- The words and marks of one text, derivable and read. -/
theorem trailing_comma_read :
    (∃ d, Signature.ofText "impl F<A,> for (B)" = .ok d ∧
      DerivesSignature (fun _ => True) (lexemes "impl F<A,> for (B)".toList) d []) ∧
    ∃ e, Signature.ofText "impl F<A,> for (B)" = .ok e := by
  have words : lexemes "impl F<A,> for (B)".toList =
      [.word "impl", .word "F", .mark "<", .word "A", .mark ",", .mark ">", .word "for",
        .mark "(", .word "B", .mark ")"] := by decide +kernel
  have name (text : String) (rest : List Lexeme) (named : NotKeyword text) :
      DerivesTy NotKeyword .full (.word text :: rest) (.path (.plain text none)) rest := by
    have segments :
        DerivesSegments NotKeyword (.word text :: rest) (joinedWords "::" [text]) rest :=
      .read (.last (.word named))
    have same : joinedWords "::" [text] = text := by simp [joinedWords]
    rw [same] at segments
    exact .unbounded (.path (.plain segments .absent))
  have path : DerivesPath NotKeyword _ _ _ :=
    .plain (.read (.last (.word (by decide : NotKeyword "F"))))
    (.present (.items (.trailing (.last (.type (name "A" [.mark ",", .mark ">", .word "for",
      .mark "(", .word "B", .mark ")"] (by decide)))))))
  have self : DerivesTy NotKeyword .full _ _ _ :=
    .unbounded (.tuple (.items (.closed (.last (name "B" [.mark ")"] (by decide))))))
  obtain ⟨d, derived⟩ :
      ∃ d, DerivesSignature NotKeyword (lexemes "impl F<A,> for (B)".toList) d [] := by
    rw [words]
    exact ⟨_, .trait .absent .absent .absent path self .absent⟩
  constructor
  · exact ⟨_, rfl, (signatures_read_are_derivable _).1 _ rfl⟩
  · exact (signatures_read_are_derivable _).2 d derived

end ImplFamilies.Grammar
