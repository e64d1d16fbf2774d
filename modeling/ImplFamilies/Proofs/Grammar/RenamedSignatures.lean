import ImplFamilies.Proofs.Grammar.RenamedTypes
import ImplFamilies.Proofs.Grammar.Roundtrip

/-!
Whole signatures, read again after renaming with a new list of parameters and without the where
clause. One of a trait stays one of a trait; an inherent one stays inherent, because behind an
opener that could be taken for a trait no type stands that did not stand there before.
-/

namespace ImplFamilies.Grammar.Reader

variable {ts us mid rest : List Lexeme} {ρ : Renaming}

/- Parameters without bounds and defaults. -/

def bareParams (names : List String) : List Param :=
  names.map fun name => .type name [] none

def commaNames : List String → List Lexeme
  | [] => []
  | name :: names => .mark "," :: .word name :: commaNames names

def nameList : List String → List Lexeme
  | [] => []
  | name :: names => .mark "<" :: .word name :: (commaNames names ++ [.mark ">"])

section Parameters

variable {full : Reader Ty}

theorem bareParam_read {name text : String} (ends : text ∈ [",", ">"]) :
    (lifetimeParam.orElse (typeParam full)) (.word name :: .mark text :: ts) =
      some (.type name [] none, .mark text :: ts) := by
  have unmarked (other : String) (mem : other ∈ [":", "="]) :
      mark other (.mark text :: ts) = none :=
    ItemEnds.mark_eq_none (.inr ⟨text, ts, rfl, ends⟩) other mem
  have read : typeParam full (.word name :: .mark text :: ts) =
      some (.type (String.ofList name.toList) [] none, .mark text :: ts) := by
    simp only [typeParam, map, andThen, identifier, optional, keepRight, unmarked ":" (by decide),
      unmarked "=" (by decide), Option.getD_none]
  rw [String.ofList_toList] at read
  exact orElse_next rfl read

theorem commaNames_first (names : List String) (rest : List Lexeme) :
    ∃ text inner, commaNames names ++ .mark ">" :: rest = .mark text :: inner ∧
      text ∈ [",", ">"] := by
  cases names with
  | nil => exact ⟨">", rest, rfl, by decide⟩
  | cons name names => exact ⟨",", _, rfl, by decide⟩

theorem name_read (name : String) (names : List String) (rest : List Lexeme) :
    (lifetimeParam.orElse (typeParam full))
      (.word name :: (commaNames names ++ .mark ">" :: rest)) =
        some (.type name [] none, commaNames names ++ .mark ">" :: rest) := by
  obtain ⟨text, inner, same, ends⟩ := commaNames_first names rest
  rw [same]
  exact bareParam_read ends

theorem commaNames_read (names : List String) (rest : List Lexeme) :
    Pairs (lifetimeParam.orElse (typeParam full)) "," (commaNames names ++ .mark ">" :: rest)
      (bareParams names) (.mark ">" :: rest) := by
  induction names with
  | nil => exact .stop rfl
  | cons name names ih => exact .next (name_read name names rest) ih

theorem nameList_read (names : List String) (bare : mark "<" rest = none)
    (shrinks : Shrinks full) :
    ∃ params, optional (generics full) (nameList names ++ rest) = some (params, rest) ∧
      params.getD [] = bareParams names := by
  cases names with
  | nil => exact ⟨none, (optionalGenerics_brackets full bare).2, rfl⟩
  | cons name names =>
    have row : Row (lifetimeParam.orElse (typeParam full)) ","
        (.word name :: (commaNames names ++ .mark ">" :: rest)) (bareParams (name :: names))
        (.mark ">" :: rest) :=
      ⟨_, _, _, rfl, name_read name names rest, commaNames_read names rest⟩
    have listed := (list_eq_some (consumes_param shrinks).shrinks).2 (.inr ⟨_, row, rfl⟩)
    have read : generics full (nameList (name :: names) ++ rest) =
        some (bareParams (name :: names), rest) := by
      refine between_eq_some.2 ⟨_, ?_, listed⟩
      simp [nameList]
    exact ⟨_, optional_eq_some.2 (.inl ⟨_, rfl, read⟩), rfl⟩

theorem allFormed_nameList {names : List String} (h : ∀ name ∈ names, (Lexeme.word name).Formed) :
    AllFormed (nameList names) := by
  have commas {names : List String} (h : ∀ name ∈ names, (Lexeme.word name).Formed) :
      AllFormed (commaNames names) := by
    induction names with
    | nil => exact fun _ mem => nomatch mem
    | cons name names ih =>
      obtain ⟨first, others⟩ := List.forall_mem_cons.1 h
      exact ((ih others).cons first).mark ","
  have closed : AllFormed [.mark ">"] := List.forall_mem_singleton.2 trivial
  cases names with
  | nil => exact fun _ mem => nomatch mem
  | cons name names =>
    obtain ⟨first, others⟩ := List.forall_mem_cons.1 h
    exact (((commas others).append closed).cons first).mark "<"

end Parameters

/- Signatures of a trait. -/

def bareSignature (ρ : Renaming) (names : List String) (d : Signature) : Signature where
  generics := bareParams names
  isUnsafe := false
  negated := d.negated
  traitRef := d.traitRef.map (TypePath.rename ρ)
  selfTy := d.selfTy.rename ρ
  whereClause := none

theorem traitSignature_eq_some {full : Reader Ty} {d : Signature} :
    traitSignature full ts = some (d, rest) ↔
      ∃ marked opened params typed negation named p self t after clause,
        ((optional (keyword "unsafe")).keepLeft (keyword "impl")) ts = some (marked, opened) ∧
        optional (generics full) opened = some (params, typed) ∧
        optional (mark "!") typed = some (negation, named) ∧
        typePath full named = some (p, .word "for" :: self) ∧
        full self = some (t, after) ∧
        optional (whereClause full) after = some (clause, rest) ∧
        d = {
          generics := params.getD []
          isUnsafe := marked.isSome
          negated := negation.isSome
          traitRef := some p
          selfTy := t
          whereClause := clause } := by
  constructor
  · intro read
    obtain ⟨⟨⟨⟨⟨⟨marked, params⟩, negation⟩, p⟩, t⟩, clause⟩, whole, rfl⟩ := map_eq_some.1 read
    obtain ⟨after, body, «where»⟩ := andThen_eq_some.1 whole
    obtain ⟨self, target, type⟩ := andThen_eq_some.1 body
    obtain ⟨word, _, head, «for»⟩ := keepLeft_eq_some.1 target
    obtain rfl := keyword_eq_some.1 «for»
    obtain ⟨named, start, path⟩ := andThen_eq_some.1 head
    obtain ⟨typed, start, negated⟩ := andThen_eq_some.1 start
    obtain ⟨opened, opening, listed⟩ := andThen_eq_some.1 start
    exact ⟨marked, opened, params, typed, negation, named, p, self, t, after, clause, opening,
      listed, negated, path, type, «where», rfl⟩
  · rintro ⟨marked, opened, params, typed, negation, named, p, self, t, after, clause, opening,
      listed, negated, path, type, «where», rfl⟩
    have head := andThen_eq_some.2 ⟨_, andThen_eq_some.2 ⟨_, andThen_eq_some.2
      ⟨_, opening, listed⟩, negated⟩, path⟩
    have target : (keyword "for") (.word "for" :: self) = some ((), self) := rfl
    exact map_eq_some.2 ⟨_, andThen_eq_some.2 ⟨_, andThen_eq_some.2
      ⟨_, keepLeft_eq_some.2 ⟨_, _, head, target⟩, type⟩, «where»⟩, rfl⟩

theorem followsPhrase_of_where {full : Reader Ty} {clause : Option (List Param)}
    (read : optional (whereClause full) ts = some (clause, [])) : FollowsPhrase ts [] := by
  rcases optional_eq_some.1 read with ⟨items, rfl, listed⟩ | ⟨rfl, _, rfl⟩
  · obtain ⟨_, _, word, _⟩ := keepRight_eq_some.1 listed
    obtain rfl := keyword_eq_some.1 word
    exact .clause
  · exact .ended

theorem impl_formed : (Lexeme.word "impl").Formed :=
  Lexeme.formed_word (by decide) (by decide)

/- Signatures that are not of a trait. -/

def Traitless (ts : List Lexeme) : Prop :=
  ∀ ⦃negation named p self⦄, optional (mark "!") ts = some (negation, named) →
    typePath (readTy .full) named = some (p, .word "for" :: self) → readTy .full self = none

theorem traitSignature_eq_none_iff {opened typed : List Lexeme} {params : Option (List Param)}
    (listed : optional (generics (readTy .full)) opened = some (params, typed)) :
    traitSignature (readTy .full) (.word "impl" :: opened) = none ↔ Traitless typed := by
  have opening : ((optional (keyword "unsafe")).keepLeft (keyword "impl"))
      (.word "impl" :: opened) = some (none, opened) := rfl
  constructor
  · intro none negation named p self negated path
    cases type : readTy .full self with
    | none => rfl
    | some found =>
      obtain ⟨t, after⟩ := found
      have total : optional (whereClause (readTy .full)) after ≠ Option.none := optional_ne_none
      obtain ⟨⟨clause, rest⟩, «where»⟩ := Option.ne_none_iff_exists'.1 total
      have read := traitSignature_eq_some.2 ⟨_, opened, params, typed, negation, named, p, self, t,
        after, clause, opening, listed, negated, path, type, «where», rfl⟩
      exact nomatch none.symm.trans read
  · intro traitless
    cases read : traitSignature (readTy .full) (.word "impl" :: opened) with
    | none => rfl
    | some found =>
      obtain ⟨_, _, _, typed', _, _, _, _, _, _, _, opening', listed', negated, path, type, _⟩ :=
        traitSignature_eq_some.1 (show _ = some (found.1, found.2) from read)
      obtain ⟨_, rfl⟩ := Prod.mk.inj (Option.some.inj (opening.symm.trans opening'))
      obtain ⟨_, rfl⟩ := Prod.mk.inj (Option.some.inj (listed.symm.trans listed'))
      exact nomatch (traitless negated path).symm.trans type

theorem PlainRead.traitless {t : Ty} (h : PlainRead ts t [])
    (unopened : UnlessOpened (traitBound (readTy .full)) ts) : Traitless ts := by
  intro negation named p self negated path
  have first := typePath_first path
  rcases optional_eq_some.1 negated with ⟨_, _, marked⟩ | ⟨_, _, rfl⟩
  · obtain rfl := mark_eq_some.1 marked
    have never : readTy .plain (.mark "!" :: named) = some (.never, named) :=
      readTy_plain_iff.2 .never
    obtain ⟨_, rfl⟩ := Prod.mk.inj (Option.some.inj (never.symm.trans (readTy_plain_iff.2 h)))
    cases first
  · cases h with
    | path path' => exact nomatch path.symm.trans path'
    | single bound => exact nomatch (unopened _ _ rfl).symm.trans bound
    | _ => exact absurd first.mark (by decide)

theorem typePath_opener (opener : Opener) {inner : List Lexeme} {found : List Bound × List Lexeme}
    (listed : bounds (readTy .full) inner = some found) :
    typePath (readTy .full) (.word opener.word :: inner) =
      some (.plain opener.word none, inner) := by
  have missing (text : String) (other : text ∉ ["?", "...", "\"C\""]) : mark text inner = none :=
    mark_eq_none_of_read listed fun ts => Boundless.bounds_eq_none (.inr ⟨text, ts, rfl, other⟩)
  have named := segments_of_word opener.word (missing "::" (by decide))
  have whole : (Lexeme.word opener.word :: inner).dropWhile isModifier =
      .word opener.word :: inner := by cases opener <;> rfl
  have uncalled : callPath (readTy .full) (.word opener.word :: inner) = none := by
    refine callPath_eq_none_of_uncalled fun name after spelled => ?_
    rw [whole, named] at spelled
    obtain ⟨_, rfl⟩ := Prod.mk.inj (Option.some.inj spelled)
    exact missing "(" (by decide)
  have bare : args (readTy .full) inner = none := by
    simp only [args, orElse, map, andThen, between, keepLeft, keepRight, missing "<" (by decide)]
  refine orElse_next uncalled (map_eq_some.2 ⟨_, andThen_eq_some.2 ⟨_, named, ?_⟩, rfl⟩)
  exact optional_eq_some.2 (.inr ⟨rfl, bare, rfl⟩)

theorem traitless_opener {opener : Opener} {inner : List Lexeme} {found : List Bound × List Lexeme}
    (listed : bounds (readTy .full) inner = some found) :
    Traitless (.word opener.word :: inner) ↔
      ∀ self, inner = .word "for" :: self → readTy .full self = none := by
  have path := typePath_opener opener listed
  have positive : optional (mark "!") (.word opener.word :: inner) =
    some (none, .word opener.word :: inner) := rfl
  constructor
  · rintro traitless self rfl
    exact traitless positive path
  · intro untyped negation named p self negated path'
    obtain ⟨_, rfl⟩ := Prod.mk.inj (Option.some.inj (positive.symm.trans negated))
    obtain ⟨_, same⟩ := Prod.mk.inj (Option.some.inj (path.symm.trans path'))
    exact untyped self same

theorem BeginsLike.untyped (h : BeginsLike ts us)
    (untyped : ∀ self, ts = .word "for" :: self → readTy .full self = none) :
    ∀ self, us = .word "for" :: self → readTy .full self = none := by
  rintro self rfl
  cases h with
  | same typeless => exact typeless rfl (untyped _ rfl)
  | renamed named => exact absurd rfl (named.ne "for" (by decide))

theorem inherentSignature_eq_some {full : Reader Ty} {d : Signature} :
    inherentSignature full ts = some (d, rest) ↔
      ∃ opened params self t after clause,
        ts = .word "impl" :: opened ∧
        optional (generics full) opened = some (params, self) ∧
        full self = some (t, after) ∧
        optional (whereClause full) after = some (clause, rest) ∧
        d = {
          generics := params.getD []
          isUnsafe := false
          negated := false
          traitRef := none
          selfTy := t
          whereClause := clause } := by
  constructor
  · intro read
    obtain ⟨⟨⟨params, t⟩, clause⟩, whole, rfl⟩ := map_eq_some.1 read
    obtain ⟨after, body, «where»⟩ := andThen_eq_some.1 whole
    obtain ⟨self, start, type⟩ := andThen_eq_some.1 body
    obtain ⟨opened, _, word, listed⟩ := keepRight_eq_some.1 start
    exact ⟨opened, params, self, t, after, clause, keyword_eq_some.1 word, listed, type, «where»,
      rfl⟩
  · rintro ⟨opened, params, self, t, after, clause, rfl, listed, type, «where», rfl⟩
    have opening : (keyword "impl") (.word "impl" :: opened) = some ((), opened) := rfl
    have start := keepRight_eq_some.2 ⟨_, _, opening, listed⟩
    exact map_eq_some.2 ⟨_, andThen_eq_some.2 ⟨_, andThen_eq_some.2 ⟨_, start, type⟩, «where»⟩, rfl⟩

theorem inherentType_renamed (words : Words ρ) {t : Ty} (formed : AllFormed ts)
    (read : readTy .full ts = some (t, rest)) (behind : FollowsPhrase rest [])
    (traitless : Traitless ts) :
    ∃ ts', readTy .full ts' = some (t.rename ρ, []) ∧ Traitless ts' ∧ AllFormed ts' := by
  have nested := carries_readTy words (ts.length + 1)
  have fits : Fits (ts.length + 1 + 1) ts := ⟨by omega, formed⟩
  have nothing : AllFormed [] := fun _ mem => nomatch mem
  rcases readTy_full_iff.1 read with ⟨opener, inner, bs, rfl, listed, rfl⟩ | ⟨unopened, plain⟩
  · obtain ⟨inner', became⟩ := carries_bounds words nested fits.drop listed behind nothing
    have untyped := became.begins.untyped ((traitless_opener listed).1 traitless)
    refine ⟨.word opener.word :: inner', readTy_full_iff.2 (.inl ⟨opener, inner', _, rfl,
      became.read, bounded_rename ρ opener bs⟩), (traitless_opener became.read).2 untyped,
      became.formed.cons (opener_formed opener)⟩
  · obtain ⟨ts', unopened, plain, _, formed⟩ :=
      unbounded_renamed words nested fits unopened plain behind nothing
    exact ⟨ts', readTy_full_iff.2 (.inr ⟨unopened, plain⟩), plain.traitless unopened.traitBound,
      formed⟩

section Signatures

variable (words : Words ρ) {names : List String}
  (spelled : ∀ name ∈ names, (Lexeme.word name).Formed)
include words spelled

theorem traitSignature_renamed {d : Signature} (formed : AllFormed ts)
    (read : traitSignature (readTy .full) ts = some (d, [])) :
    ∃ us, AllFormed us ∧
      traitSignature (readTy .full) us = some (bareSignature ρ names d, []) := by
  obtain ⟨marked, opened, params, typed, negation, named, p, self, t, after, clause, opening,
    listed, negated, path, type, «where», rfl⟩ := traitSignature_eq_some.1 read
  have nested := carries_readTy words (ts.length + 1)
  have full := shrinks_readTy .full
  have named_suffix : named <:+ ts := ((Consumes.mark "!").shrinks.optional negated).trans
    (((consumes_generics full).shrinks.optional listed).trans (shrinks_opening opening))
  have named_fits : Fits (ts.length + 1) named :=
    Fits.suffix ⟨Nat.lt_succ_self _, formed⟩ named_suffix
  have self_fits := (named_fits.suffix ((consumes_typePath full).shrinks path)).drop
  -- From the back: the type, the trait with its negation, and the parameters in front.
  obtain ⟨self', became⟩ := nested .full self_fits type (followsPhrase_of_where «where»)
    fun _ mem => nomatch mem
  have target : (Lexeme.word "for").Formed :=
    Lexeme.formed_word (by decide) (by decide)
  have named_fits : Fits (ts.length + 1 + 1) named := ⟨Nat.lt_succ_of_lt named_fits.1, named_fits.2⟩
  obtain ⟨named', path', begins, named_formed⟩ := typePath_renamed words nested named_fits path
    (.self (by rw [type]; exact Option.some_ne_none _) became.begins) (became.formed.cons target)
  obtain ⟨typed', negated', bare, typed_formed⟩ : ∃ typed',
      optional (mark "!") typed' = some (negation, named') ∧ mark "<" typed' = none ∧
      AllFormed typed' := by
    rcases optional_eq_some.1 negated with ⟨_, rfl, _⟩ | ⟨rfl, positive, rfl⟩
    · exact ⟨.mark "!" :: named', rfl, rfl, named_formed.mark "!"⟩
    · have positive := begins.begins.mark_eq_none positive
      exact ⟨named', optional_eq_some.2 (.inr ⟨rfl, positive, rfl⟩),
        mark_eq_none_of_read path' fun _ => rfl, named_formed⟩
  obtain ⟨params', listed', same⟩ := nameList_read names bare full
  refine ⟨.word "impl" :: (nameList names ++ typed'),
    ((allFormed_nameList spelled).append typed_formed).cons impl_formed, ?_⟩
  refine traitSignature_eq_some.2 ⟨none, _, params', typed', negation, named', _, self', _, [],
    none, rfl, listed', negated', path', became.read, rfl, ?_⟩
  rw [same]
  rfl

theorem inherentSignature_renamed {d : Signature} (formed : AllFormed ts)
    (trait : traitSignature (readTy .full) ts = none)
    (read : inherentSignature (readTy .full) ts = some (d, [])) :
    ∃ us, AllFormed us ∧ traitSignature (readTy .full) us = none ∧
      inherentSignature (readTy .full) us = some (bareSignature ρ names d, []) := by
  obtain ⟨opened, params, self, t, after, clause, rfl, listed, type, «where», rfl⟩ :=
    inherentSignature_eq_some.1 read
  have full := shrinks_readTy .full
  have suffix : self <:+ opened := (consumes_generics full).shrinks.optional listed
  have self_formed : AllFormed self :=
    fun l mem => formed l (List.mem_cons_of_mem _ (suffix.subset mem))
  obtain ⟨self', type', traitless, self_formed⟩ := inherentType_renamed words self_formed type
    (followsPhrase_of_where «where») ((traitSignature_eq_none_iff listed).1 trait)
  obtain ⟨params', listed', same⟩ := nameList_read names
    (mark_eq_none_of_read type' fun _ => readTy_mark .full "<" (by decide)) full
  refine ⟨.word "impl" :: (nameList names ++ self'),
    ((allFormed_nameList spelled).append self_formed).cons impl_formed,
    (traitSignature_eq_none_iff listed').2 traitless, ?_⟩
  refine inherentSignature_eq_some.2 ⟨_, params', self', _, [], none, rfl, listed', type', rfl, ?_⟩
  rw [same]
  rfl

/-- What is read as a signature can be read as the one with exchanged names. -/
theorem implementation_renamed {d : Signature} (formed : AllFormed ts)
    (read : implementation (readTy .full) ts = some (d, [])) :
    ∃ us, AllFormed us ∧
      implementation (readTy .full) us = some (bareSignature ρ names d, []) := by
  rcases orElse_eq_some.1 read with trait | ⟨none, inherent⟩
  · obtain ⟨us, formed, trait⟩ := traitSignature_renamed words spelled formed trait
    exact ⟨us, formed, orElse_first trait⟩
  · obtain ⟨us, formed, none, inherent⟩ :=
      inherentSignature_renamed words spelled formed none inherent
    exact ⟨us, formed, orElse_next none inherent⟩

end Signatures

end ImplFamilies.Grammar.Reader
