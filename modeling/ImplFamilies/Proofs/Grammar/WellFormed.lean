import ImplFamilies.Proofs.Grammar.Agreement
import ImplFamilies.Proofs.Signature.WellFormed

/-!
Every tree that is read from a text is well-formed. What a reader reads has its property whatever
the lexemes are, as long as they come out of a text; so one lemma for each combinator and one for
each rule are enough, and nested types follow by induction on the depth.
-/

namespace ImplFamilies.Grammar

namespace Reader

/-- What is read has the property, and what is left still comes out of a text. -/
def Yields {α : Type} (p : Reader α) (P : α → Prop) : Prop :=
  ∀ ⦃ts a rest⦄, AllFormed ts → p ts = some (a, rest) → P a ∧ AllFormed rest

namespace Yields

variable {α β : Type} {p : Reader α} {q : Reader β} {P P' : α → Prop} {Q : β → Prop}

theorem of_shrinks (shrinks : Shrinks p)
    (h : ∀ ⦃ts a rest⦄, AllFormed ts → p ts = some (a, rest) → P a) : Yields p P :=
  fun _ _ _ formed read => ⟨h formed read, formed.suffix (shrinks read)⟩

theorem anything (shrinks : Shrinks p) : Yields p fun _ => True :=
  .of_shrinks shrinks fun _ _ _ _ _ => trivial

theorem map {f : α → β} (h : Yields p P) (image : ∀ a, P a → Q (f a)) : Yields (p.map f) Q := by
  intro ts b rest formed read
  obtain ⟨a, first, rfl⟩ := map_eq_some.1 read
  obtain ⟨ha, rest_formed⟩ := h formed first
  exact ⟨image a ha, rest_formed⟩

theorem andThen (hp : Yields p P) (hq : Yields q Q) :
    Yields (p.andThen q) fun ab => P ab.1 ∧ Q ab.2 := by
  rintro ts ⟨a, b⟩ rest formed read
  obtain ⟨mid, first, second⟩ := andThen_eq_some.1 read
  obtain ⟨ha, mid_formed⟩ := hp formed first
  obtain ⟨hb, rest_formed⟩ := hq mid_formed second
  exact ⟨⟨ha, hb⟩, rest_formed⟩

theorem keepLeft (hp : Yields p P) (hq : Yields q Q) : Yields (p.keepLeft q) P :=
  (hp.andThen hq).map fun _ both => both.1

theorem keepRight (hp : Yields p P) (hq : Yields q Q) : Yields (p.keepRight q) Q :=
  (hp.andThen hq).map fun _ both => both.2

theorem orElse {p' : Reader α} (hp : Yields p P) (hp' : Yields p' P) : Yields (p.orElse p') P := by
  intro ts a rest formed read
  rcases orElse_eq_some.1 read with read | ⟨-, read⟩
  · exact hp formed read
  · exact hp' formed read

theorem optional (h : Yields p P) : Yields p.optional fun o => ∀ a ∈ o, P a := by
  intro ts o rest formed read
  rcases optional_eq_some.1 read with ⟨a, rfl, present⟩ | ⟨rfl, -, rfl⟩
  · obtain ⟨ha, rest_formed⟩ := h formed present
    exact ⟨fun b mem => Option.some.inj mem ▸ ha, rest_formed⟩
  · exact ⟨fun _ mem => (nomatch mem), formed⟩

theorem mark (text : String) : Yields (Reader.mark text) fun _ => True :=
  .anything (Consumes.mark text).shrinks

theorem keyword (text : String) : Yields (Reader.keyword text) fun _ => True :=
  .anything (Consumes.keyword text).shrinks

theorem between (opening closing : String) (h : Yields p P) :
    Yields (Reader.between opening closing p) P :=
  ((mark opening).keepRight h).keepLeft (mark closing)

theorem behindMark (text : String) (h : Yields p P) :
    Yields (Reader.optional ((Reader.mark text).keepRight p)) fun o => ∀ a ∈ o, P a :=
  ((mark text).keepRight h).optional

/- Lists. -/

theorem pairs {separator : String} {ts last : List Lexeme} {as : List α} (h : Yields p P)
    (formed : AllFormed ts) (pairs : Pairs p separator ts as last) :
    (∀ a ∈ as, P a) ∧ AllFormed last := by
  induction pairs with
  | stop ended => exact ⟨fun _ mem => (nomatch mem), formed⟩
  | next first more ih =>
    obtain ⟨ha, mid_formed⟩ := h formed.tail first
    obtain ⟨each, last_formed⟩ := ih mid_formed
    exact ⟨List.forall_mem_cons.2 ⟨ha, each⟩, last_formed⟩

theorem row {separator : String} {ts last : List Lexeme} {as : List α} (h : Yields p P)
    (formed : AllFormed ts) (row : Row p separator ts as last) :
    (as ≠ [] ∧ ∀ a ∈ as, P a) ∧ AllFormed last := by
  obtain ⟨a, bs, mid, rfl, first, more⟩ := row
  obtain ⟨ha, mid_formed⟩ := h formed first
  obtain ⟨each, last_formed⟩ := h.pairs mid_formed more
  exact ⟨⟨List.cons_ne_nil a bs, List.forall_mem_cons.2 ⟨ha, each⟩⟩, last_formed⟩

variable {separator : String} (shrinks : Shrinks p) (h : Yields p P)
include shrinks h

theorem separated₁ :
    Yields (Reader.separated₁ p separator) fun as => as ≠ [] ∧ ∀ a ∈ as, P a :=
  fun _ _ _ formed read => h.row formed ((separated₁_eq_some shrinks).1 read)

theorem list₁ : Yields (Reader.list₁ p separator) fun as => ∀ a ∈ as, P a := by
  intro ts as rest formed read
  obtain ⟨last, row, rfl⟩ := (list₁_eq_some shrinks).1 read
  obtain ⟨⟨-, each⟩, last_formed⟩ := h.row formed row
  exact ⟨each, last_formed.suffix (skipMark_suffix last)⟩

theorem list : Yields (Reader.list p separator) fun as => ∀ a ∈ as, P a := by
  intro ts as rest formed read
  rcases (list_eq_some shrinks).1 read with ⟨rfl, -, rfl⟩ | ⟨last, row, rfl⟩
  · exact ⟨fun _ mem => (nomatch mem), formed⟩
  · obtain ⟨⟨-, each⟩, last_formed⟩ := h.row formed row
    exact ⟨each, last_formed.suffix (skipMark_suffix last)⟩

end Yields

/- Names and modifiers. -/

theorem yields_lifetime : Yields lifetime IsLifetime :=
  .of_shrinks consumes_lifetime.shrinks fun ts name rest formed read => by
    obtain rfl := lifetime_eq_some.1 read
    exact formed _ List.mem_cons_self

theorem yields_lifetimeBounds :
    Yields lifetimeBounds fun bs => bs ≠ [] ∧ ∀ b ∈ bs, IsLifetime b :=
  yields_lifetime.separated₁ consumes_lifetime.shrinks

theorem yields_identifier : Yields identifier fun name => IsIdentifier (String.ofList name) :=
  .of_shrinks consumes_identifier.shrinks fun ts name rest formed read => by
    obtain ⟨l, segment, rfl, rfl⟩ := segment_of_identifier read
    rw [String.ofList_toList]
    rcases segment with ⟨text, rfl⟩ | rfl
    · exact .inl (formed _ List.mem_cons_self)
    · exact .inr rfl

theorem yields_segments : Yields segments fun text => ∃ parts, Segmented parts text := by
  refine (yields_identifier.separated₁ consumes_identifier.shrinks).map fun names both => ?_
  refine ⟨names.map String.ofList, ?_, ?_, ofList_joined _ names⟩
  · exact fun empty => both.1 (List.map_eq_nil_iff.1 empty)
  · exact List.forall_mem_map.2 both.2

theorem modifying_modifiers {ts rest : List Lexeme} {text : String}
    (read : modifiers ts = some (text, rest)) :
    Modifying text ∧ rest = ts.dropWhile isModifier := by
  obtain ⟨rfl, rfl⟩ := Prod.mk.inj (Option.some.inj read)
  refine ⟨⟨(ts.takeWhile isModifier).map Lexeme.text, ?_, ?_⟩, rfl⟩
  · refine List.forall_mem_map.2 fun l mem => ?_
    have is : isModifier l = true := List.all_eq_true.1 List.all_takeWhile l mem
    simp only [isModifier, Bool.or_eq_true, decide_eq_true_eq] at is
    rcases is with (rfl | rfl) | rfl <;> decide
  · rw [joinedWords, List.map_map]
    rfl

/-- A name that stands behind all the modifiers does not begin with one. -/
theorem unmodified_segments {ts rest : List Lexeme} {text : String} (formed : AllFormed ts)
    (read : segments (ts.dropWhile isModifier) = some (text, rest)) :
    ∃ first others, Segmented (first :: others) text ∧ first ≠ "unsafe" ∧ first ≠ "extern" := by
  have behind := formed.suffix (List.dropWhile_suffix isModifier)
  obtain ⟨names, listed, rfl⟩ := map_eq_some.1 read
  obtain ⟨⟨-, each⟩, -⟩ :=
    yields_identifier.separated₁ consumes_identifier.shrinks behind listed
  obtain ⟨name, others, mid, rfl, first, -⟩ :=
    (separated₁_eq_some consumes_identifier.shrinks).1 listed
  refine ⟨String.ofList name, others.map String.ofList, ⟨List.cons_ne_nil _ _,
    List.forall_mem_map.2 each, ofList_joined _ (name :: others)⟩, ?_⟩
  obtain ⟨l, segment, opened, rfl⟩ := segment_of_identifier first
  have stopped := List.head?_dropWhile_not isModifier ts
  rw [opened, List.head?_cons] at stopped
  have other : isModifier l = false := stopped
  rw [String.ofList_toList]
  rcases segment with ⟨word, rfl⟩ | rfl
  · constructor <;> rintro rfl <;> cases other
  · decide

/- Types, on the assumption that nested types are well-formed. -/

def Stands : Spot → Ty → Prop
  | .full, t => t.WellFormed
  | .plain, t => t.WellFormed ∧ t.isBounded = false

section Nested

variable {full plain : Reader Ty} (consumes : Consumes full) (hf : Yields full Ty.WellFormed)
include consumes hf

theorem yields_args : Yields (args full) fun as => ∀ a ∈ as, a.WellFormed := by
  have item : Yields (arg full) Arg.WellFormed :=
    (yields_lifetime.map fun _ => .lifetime).orElse (hf.map fun _ => .type)
  apply Yields.orElse
  · exact ((Yields.mark "<").andThen (Yields.mark ">")).map fun _ _ _ mem => nomatch mem
  · exact .between "<" ">" (item.list₁ (shrinks_arg consumes.shrinks))

theorem yields_callPath : Yields (callPath full) TypePath.WellFormed := by
  have name : Yields (modifiers.andThen (segments.keepLeft (peek (mark "(")))) fun both =>
      Modifying both.1 ∧ ∃ first others, Segmented (first :: others) both.2 ∧
        first ≠ "unsafe" ∧ first ≠ "extern" := by
    refine .of_shrinks (shrinks_modifiers.andThen (consumes_segments.shrinks.andThen .peek).map) ?_
    rintro ts ⟨words, name⟩ rest formed read
    obtain ⟨mid, first, second⟩ := andThen_eq_some.1 read
    obtain ⟨modifying, rfl⟩ := modifying_modifiers first
    obtain ⟨_, _, named, -⟩ := keepLeft_eq_some.1 second
    exact ⟨modifying, unmodified_segments formed named⟩
  have inputs : Yields (between "(" ")" (list full ",")) fun xs => ∀ x ∈ xs, x.WellFormed :=
    .between "(" ")" (hf.list consumes.shrinks)
  refine ((name.andThen inputs).andThen (hf.behindMark "->")).map ?_
  rintro ⟨⟨⟨words, name⟩, inputs⟩, output⟩
    ⟨⟨⟨words, first, others, segments, unmodified⟩, each⟩, result⟩
  exact .fn words segments unmodified each result

theorem yields_typePath : Yields (typePath full) TypePath.WellFormed := by
  refine (yields_callPath consumes hf).orElse ?_
  refine (yields_segments.andThen (yields_args consumes hf).optional).map ?_
  rintro ⟨text, as⟩ ⟨⟨parts, segments⟩, each⟩
  exact .plain segments each

theorem yields_traitBound : Yields (traitBound full) TraitBound.WellFormed :=
  ((Yields.mark "?").optional.andThen (yields_typePath consumes hf)).map
    fun _ both => .mk both.2

theorem yields_bounds :
    Yields (bounds full) fun bs => bs ≠ [] ∧ ∀ b ∈ bs, b.WellFormed := by
  have item : Yields (bound full) Bound.WellFormed :=
    (yields_lifetime.map fun _ => .lifetime).orElse
      ((yields_traitBound consumes hf).map fun _ => .trait)
  exact item.separated₁ (consumes_bound consumes.shrinks).shrinks

theorem yields_boundedType (opener : Opener) :
    Yields (boundedType full opener) Ty.WellFormed := by
  refine ((Yields.keyword _).keepRight (yields_bounds consumes hf)).map fun bs both => ?_
  unfold bounded
  split
  · rename_i b
    cases both.2 _ List.mem_cons_self with
    | trait bound => exact .single bound
  · rename_i several
    exact .bounded both.1 (fun b same => several b same) both.2

theorem yields_singleType (opener : Opener) :
    Yields (singleType full opener) (Stands .plain) :=
  ((Yields.keyword _).keepRight (yields_traitBound consumes hf)).map
    fun _ bound => ⟨.single bound, rfl⟩

omit consumes in
theorem yields_arrayOrSlice : Yields (arrayOrSlice full) (Stands .plain) := by
  have size : Yields arrayLength fun _ => True := .anything consumes_arrayLength.shrinks
  refine (Yields.between "[" "]" (hf.andThen (size.behindMark ";"))).map ?_
  rintro ⟨x, _ | size⟩ ⟨element, -⟩
  · exact ⟨.slice element, rfl⟩
  · exact ⟨.array element, rfl⟩

omit consumes hf in
theorem yields_pointerType (hp : Yields plain (Stands .plain)) :
    Yields (pointerType plain) (Stands .plain) := by
  have word : Yields mutability fun _ => True :=
    ((Yields.keyword "mut").map fun _ => id).orElse ((Yields.keyword "const").map fun _ => id)
  refine (((Yields.mark "*").keepRight word).andThen hp).map ?_
  rintro ⟨mutable, x⟩ ⟨-, element, unlisted⟩
  exact ⟨.pointer element unlisted, rfl⟩

omit consumes hf in
theorem yields_referenceType (hp : Yields plain (Stands .plain)) :
    Yields (referenceType plain) (Stands .plain) := by
  have word : Yields ((optional (keyword "mut")).map Option.isSome) fun _ => True :=
    (Yields.keyword "mut").optional.map fun _ _ => trivial
  refine ((((Yields.mark "&").keepRight yields_lifetime.optional).andThen word).andThen hp).map ?_
  rintro ⟨⟨lifetime, mutable⟩, x⟩ ⟨⟨named, -⟩, element, unlisted⟩
  exact ⟨.reference named element unlisted, rfl⟩

theorem yields_plainType (hp : Yields plain (Stands .plain)) :
    Yields (plainType full plain) (Stands .plain) := by
  have unit : Yields unitType (Stands .plain) :=
    ((Yields.mark "(").andThen (Yields.mark ")")).map
      fun _ _ => ⟨.tuple fun _ mem => (nomatch mem), rfl⟩
  have tuple : Yields (tupleType full) (Stands .plain) :=
    (Yields.between "(" ")" (hf.list₁ consumes.shrinks)).map fun _ each => ⟨.tuple each, rfl⟩
  exact ((Yields.mark "!").map fun _ _ => ⟨.never, rfl⟩).orElse <|
    unit.orElse <|
    tuple.orElse <|
    (yields_arrayOrSlice hf).orElse <|
    (yields_pointerType hp).orElse <|
    (yields_referenceType hp).orElse <|
    (yields_singleType consumes hf .impl).orElse <|
    (yields_singleType consumes hf .dyn).orElse <|
    (yields_typePath consumes hf).map fun _ path => ⟨.path path, rfl⟩

theorem yields_fullType (hp : Yields plain (Stands .plain)) :
    Yields (fullType full (plainType full plain)) Ty.WellFormed :=
  (yields_boundedType consumes hf .impl).orElse <|
    (yields_boundedType consumes hf .dyn).orElse <|
    fun _ _ _ formed read =>
      have ⟨stands, rest_formed⟩ := yields_plainType consumes hf hp formed read
      ⟨stands.1, rest_formed⟩

/- Parameters and signatures. -/

omit consumes hf in
theorem forall_mem_getD {α : Type} {P : α → Prop} {o : Option (List α)}
    (each : ∀ as ∈ o, ∀ a ∈ as, P a) : ∀ a ∈ o.getD [], P a := by
  cases o with
  | none => exact fun _ mem => nomatch mem
  | some as => exact each as rfl

theorem yields_generics : Yields (generics full) fun ps => ∀ p ∈ ps, p.WellFormed := by
  have lifetime : Yields lifetimeParam Param.WellFormed := by
    refine (yields_lifetime.andThen (yields_lifetimeBounds.behindMark ":")).map ?_
    rintro ⟨name, bounds⟩ ⟨named, each⟩
    exact .lifetime named (forall_mem_getD fun bs mem => (each bs mem).2)
  have type : Yields (typeParam full) Param.WellFormed := by
    refine ((yields_identifier.andThen ((yields_bounds consumes hf).behindMark ":")).andThen
      (hf.behindMark "=")).map ?_
    rintro ⟨⟨name, bounds⟩, default⟩ ⟨⟨named, each⟩, given⟩
    exact .type named (forall_mem_getD fun bs mem => (each bs mem).2) given
  exact .between "<" ">" ((lifetime.orElse type).list (consumes_param consumes.shrinks).shrinks)

theorem yields_whereClause :
    Yields (whereClause full) fun ps => ∀ p ∈ ps, p.WellFormed ∧ p.Constrains := by
  have lifetime : Yields lifetimeItem fun p => p.WellFormed ∧ p.Constrains :=
    ((yields_lifetime.keepLeft (Yields.mark ":")).andThen yields_lifetimeBounds).map
      fun _ ⟨named, nonempty, each⟩ => ⟨.lifetime named each, nonempty⟩
  have type : Yields (typeItem full) fun p => p.WellFormed ∧ p.Constrains :=
    ((yields_identifier.keepLeft (Yields.mark ":")).andThen (yields_bounds consumes hf)).map
      fun _ ⟨named, nonempty, each⟩ =>
        ⟨.type named each fun _ mem => (nomatch mem), nonempty, rfl⟩
  exact (Yields.keyword "where").keepRight
    ((lifetime.orElse type).list (consumes_whereItem consumes.shrinks).shrinks)

theorem yields_traitSignature : Yields (traitSignature full) Signature.WellFormed := by
  have opening := (Yields.keyword "unsafe").optional.keepLeft (Yields.keyword "impl")
  have head := ((opening.andThen (yields_generics consumes hf).optional).andThen
    (Yields.mark "!").optional).andThen (yields_typePath consumes hf)
  refine (((head.keepLeft (Yields.keyword "for")).andThen hf).andThen
    (yields_whereClause consumes hf).optional).map ?_
  rintro ⟨⟨⟨⟨⟨mark, params⟩, negation⟩, path⟩, self⟩, clause⟩
    ⟨⟨⟨⟨⟨-, generics⟩, -⟩, trait⟩, self⟩, items⟩
  exact ⟨forall_mem_getD generics, fun p mem => Option.some.inj mem ▸ trait, self, items,
    fun none => nomatch none⟩

theorem yields_inherentSignature : Yields (inherentSignature full) Signature.WellFormed := by
  refine ((((Yields.keyword "impl").keepRight (yields_generics consumes hf).optional).andThen
    hf).andThen (yields_whereClause consumes hf).optional).map ?_
  rintro ⟨⟨params, self⟩, clause⟩ ⟨⟨generics, self⟩, items⟩
  exact ⟨forall_mem_getD generics, fun _ mem => (nomatch mem), self, items,
    fun _ => ⟨rfl, rfl⟩⟩

theorem yields_implementation : Yields (implementation full) Signature.WellFormed :=
  (yields_traitSignature consumes hf).orElse (yields_inherentSignature consumes hf)

end Nested

theorem yields_typeAt (depth : Nat) (spot : Spot) : Yields (typeAt depth spot) (Stands spot) := by
  induction depth generalizing spot with
  | zero => exact fun _ _ _ _ read => nomatch read
  | succ depth ih =>
    have consumes := consumes_typeAt depth .full
    cases spot with
    | plain => exact yields_plainType consumes (ih .full) (ih .plain)
    | full => exact yields_fullType consumes (ih .full) (ih .plain)

theorem yields_readTy : Yields (readTy .full) Ty.WellFormed :=
  fun _ _ _ formed read => yields_typeAt _ .full formed read

end Reader

variable {text : String} {d : Signature} {t : Ty}

theorem wellFormed_of_parsed (parsed : Signature.ofText text = .ok d) : d.WellFormed :=
  (Reader.yields_implementation (Reader.consumes_readTy .full) Reader.yields_readTy
    (Reader.allFormed_lexemes _) (signatureOfText_iff.1 parsed)).1

theorem wellFormed_of_parsedType (parsed : Ty.ofText text = .ok t) : t.WellFormed :=
  (Reader.yields_readTy (Reader.allFormed_lexemes _) (typeOfText_iff.1 parsed)).1

theorem wellNamed_of_parsed (parsed : Signature.ofText text = .ok d) :
    ∀ p ∈ d.generics ++ d.whereClause.getD [], WellNamed p := by
  have formed := wellFormed_of_parsed parsed
  exact List.forall_mem_append.2 ⟨fun p mem => (formed.generics p mem).wellNamed,
    Reader.forall_mem_getD fun items clause p mem => (formed.items items clause p mem).1.wellNamed⟩

/-- Whatever is read from a text, as a signature or as a type, is well-formed throughout. -/
theorem trees_read_are_well_formed :
    (∀ (text : String) (d : Signature), Signature.ofText text = .ok d → d.WellFormed) ∧
      ∀ (text : String) (t : Ty), Ty.ofText text = .ok t → t.WellFormed :=
  ⟨fun _ _ => wellFormed_of_parsed, fun _ _ => wellFormed_of_parsedType⟩

/-- A name with a part that looks like a modifier, lists of bounds, marks in front of an
implementation of a trait; and a lone type. -/
theorem foreign_function_well_formed :
    (∃ d, Signature.ofText ("unsafe impl<'a, T: ?Sized + 'a> " ++
        "!A<extern \"C\" a::unsafe(dyn B + 'a, ...) -> !> for &'a mut [T; 3] where T: C,") = .ok d ∧
      d.WellFormed) ∧
    ∃ t, Ty.ofText "*const impl A" = .ok t ∧ t.WellFormed := by
  constructor
  · generalize written : "unsafe impl<'a, T: ?Sized + 'a> " ++
      "!A<extern \"C\" a::unsafe(dyn B + 'a, ...) -> !> for &'a mut [T; 3] where T: C," = text
    have reads : (Signature.ofText text).isOk = true := by
      rw [← written]
      decide +kernel
    cases parsed : Signature.ofText text with
    | error e => rw [parsed] at reads; cases reads
    | ok d => exact ⟨d, rfl, trees_read_are_well_formed.1 text d parsed⟩
  · obtain ⟨t, parsed⟩ : ∃ t, Ty.ofText "*const impl A" = .ok t := ⟨_, rfl⟩
    exact ⟨t, parsed, trees_read_are_well_formed.2 _ _ parsed⟩

end ImplFamilies.Grammar
