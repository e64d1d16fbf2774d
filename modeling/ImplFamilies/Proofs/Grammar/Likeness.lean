import ImplFamilies.Proofs.Grammar.Reading

/-!
Likeness of inputs: a relation that every token respects is respected by the whole grammar. With
equality for the relation, the depth of nesting does not count beyond the length of the input, and
the readers of types satisfy the equations of the grammar without any depth.
-/

namespace ImplFamilies.Grammar

namespace Reader

inductive Closes : List Lexeme → Prop
  | nil : Closes []
  | round {ts : List Lexeme} : Closes (.mark ")" :: ts)
  | angle {ts : List Lexeme} : Closes (.mark ">" :: ts)

def FailsAtClose {α : Type} (p : Reader α) : Prop :=
  ∀ ⦃ts⦄, Closes ts → p ts = none

theorem FailsAtClose.arg {full : Reader Ty} (h : FailsAtClose full) : FailsAtClose (arg full) := by
  intro ts closes
  have none := h closes
  cases closes <;> simp only [Reader.arg, orElse, map, lifetime, none]

/-- Commas where an item of a list is complete: one on each side, none, or one on a single side
that closes the list there. -/
inductive AtComma (strict : List Lexeme → List Lexeme → Prop) :
    List Lexeme → List Lexeme → Prop
  | both {ts us : List Lexeme} (like : strict ts us) :
      AtComma strict (.mark "," :: ts) (.mark "," :: us)
  | neither {ts us : List Lexeme} (like : strict ts us) (bare : Reader.mark "," ts = none)
      (bare' : Reader.mark "," us = none) : AtComma strict ts us
  | left {ts us : List Lexeme} (like : strict ts us) (closes : Closes ts)
      (bare' : Reader.mark "," us = none) : AtComma strict (.mark "," :: ts) us
  | right {ts us : List Lexeme} (like : strict ts us) (closes : Closes us)
      (bare : Reader.mark "," ts = none) : AtComma strict ts (.mark "," :: us)

/-- Inputs that are read alike. Behind a complete item they need be alike only loosely: what ends
a list may be written there in more than one way. -/
structure Likeness where
  strict : List Lexeme → List Lexeme → Prop
  loose : List Lexeme → List Lexeme → Prop
  loosen : ∀ {ts us}, strict ts us → loose ts us
  comma : ∀ {ts us}, loose ts us → AtComma strict ts us
  mark : ∀ (k : Nat) (text : String), text ∉ ["(", ")", "<", ">", ",", ";"] →
    RelatedBelow k loose loose (Reader.mark text) (Reader.mark text)
  opening : ∀ (k : Nat) (text : String), text ∈ ["(", "<"] →
    RelatedBelow k loose strict (Reader.mark text) (Reader.mark text)
  closing : ∀ (k : Nat) (text : String), text ∈ [")", ">"] →
    RelatedBelow k strict loose (Reader.mark text) (Reader.mark text)
  keyword : ∀ (k : Nat) (text : String),
    RelatedBelow k loose loose (Reader.keyword text) (Reader.keyword text)
  identifier : ∀ k, RelatedBelow k loose loose Reader.identifier Reader.identifier
  lifetime : ∀ k, RelatedBelow k loose loose Reader.lifetime Reader.lifetime
  modifiers : ∀ k, RelatedBelow k loose loose Reader.modifiers Reader.modifiers
  size : ∀ k, RelatedBelow k loose loose
    (optional ((Reader.mark ";").keepRight Reader.arrayLength))
    (optional ((Reader.mark ";").keepRight Reader.arrayLength))

variable (L : Likeness) {k : Nat}

abbrev Likeness.Related {α : Type} (k : Nat) (p p' : Reader α) : Prop :=
  RelatedBelow k L.loose L.loose p p'

structure Likeness.Nested {α : Type} (k : Nat) (p p' : Reader α) : Prop where
  shrinks : Shrinks p
  shrinks' : Shrinks p'
  failsAtClose : FailsAtClose p
  failsAtClose' : FailsAtClose p'
  related : L.Related k p p'

variable {L} {full full' plain plain' : Reader Ty}

section Lists

variable {α : Type} {item item' : Reader α} (hi : L.Nested k item item')
  {ts us last : List Lexeme}
include hi

theorem pairs_related {as : List α} (short : ts.length < k) (short' : us.length < k)
    (like : L.loose ts us) (pairs : Pairs item "," ts as last) :
    ∃ last', Pairs item' "," us as last' ∧ L.strict (skipMark "," last) (skipMark "," last') := by
  induction pairs generalizing us with
  | stop ended =>
    cases L.comma like with
    | both alike =>
      rw [keepRight_mark_cons] at ended
      rw [List.length_cons] at short short'
      have outcome := hi.related (by omega) (by omega) (L.loosen alike)
      rw [ended] at outcome
      rcases outcome.elim with ⟨_, ended'⟩ | ⟨_, _, _, e, _⟩
      · exact ⟨_, .stop (by rw [keepRight_mark_cons, ended']), alike⟩
      · cases e
    | neither alike none none' =>
      refine ⟨us, .stop (keepRight_eq_none none'), ?_⟩
      simpa only [skipMark, none, none'] using alike
    | left alike closes none' =>
      refine ⟨us, .stop (keepRight_eq_none none'), ?_⟩
      simpa only [skipMark, mark_cons, none'] using alike
    | right alike closes none =>
      refine ⟨_, .stop (by rw [keepRight_mark_cons, hi.failsAtClose' closes]), ?_⟩
      simpa only [skipMark, mark_cons, none] using alike
  | next first more ih =>
    cases L.comma like with
    | both alike =>
      rw [List.length_cons] at short short'
      have outcome := hi.related (by omega) (by omega) (L.loosen alike)
      rw [first] at outcome
      rcases outcome.elim with ⟨e, _⟩ | ⟨_, _, mid', e, first', left⟩
      · cases e
      · obtain ⟨rfl, rfl⟩ := Prod.mk.inj (Option.some.inj e)
        have shorter := (hi.shrinks first).length_le
        have shorter' := (hi.shrinks' first').length_le
        obtain ⟨last', pairs', left⟩ := ih (by omega) (by omega) left
        exact ⟨last', .next first' pairs', left⟩
    | neither alike none none' => rw [mark_cons] at none; cases none
    | left alike closes none' => exact nomatch (hi.failsAtClose closes).symm.trans first
    | right alike closes none => rw [mark_cons] at none; cases none

theorem items_related (short : ts.length < k) (short' : us.length < k) (like : L.loose ts us) :
    (item ts = none ∧ item' us = none) ∨ ∃ as last last', Row item "," ts as last ∧
      Row item' "," us as last' ∧ L.strict (skipMark "," last) (skipMark "," last') := by
  rcases (hi.related short short' like).elim with none | ⟨a, r, r', first, first', left⟩
  · exact .inl none
  · have shorter := (hi.shrinks first).length_le
    have shorter' := (hi.shrinks' first').length_le
    obtain ⟨bs, last, pairs⟩ : ∃ bs last, Pairs item "," r bs last :=
      ⟨_, _, pairsUpTo_spec hi.shrinks (Nat.lt_succ_self r.length)⟩
    obtain ⟨last', pairs', left⟩ := pairs_related hi (by omega) (by omega) left pairs
    exact .inr ⟨a :: bs, last, last', ⟨a, bs, r, rfl, first, pairs⟩,
      ⟨a, bs, r', rfl, first', pairs'⟩, left⟩

theorem related_list₁ : RelatedBelow k L.strict L.strict (list₁ item ",") (list₁ item' ",") := by
  intro ts us short short' like
  rcases items_related hi short short' (L.loosen like) with
    ⟨none, none'⟩ | ⟨as, last, last', row, row', left⟩
  · rw [list₁_eq_none.2 none, list₁_eq_none.2 none']
    exact .fail
  · rw [(list₁_eq_some hi.shrinks).2 ⟨last, row, rfl⟩,
      (list₁_eq_some hi.shrinks').2 ⟨last', row', rfl⟩]
    exact .read left

theorem related_list {R : List Lexeme → List Lexeme → Prop}
    (strict : ∀ {ts us}, L.strict ts us → R ts us) (loose : ∀ {ts us}, R ts us → L.loose ts us) :
    RelatedBelow k R R (list item ",") (list item' ",") := by
  intro ts us short short' like
  rcases items_related hi short short' (loose like) with
    ⟨none, none'⟩ | ⟨as, last, last', row, row', left⟩
  · rw [list_of_none none, list_of_none none']
    exact .read like
  · rw [(list_eq_some hi.shrinks).2 (.inr ⟨last, row, rfl⟩),
      (list_eq_some hi.shrinks').2 (.inr ⟨last', row', rfl⟩)]
    exact .read (strict left)

end Lists

theorem related_between {α : Type} {p p' : Reader α} {opening closing : String}
    (ho : opening ∈ ["(", "<"]) (hc : closing ∈ [")", ">"]) (shrinks : Shrinks p)
    (shrinks' : Shrinks p') (h : RelatedBelow k L.strict L.strict p p') :
    L.Related (k + 1) (between opening closing p) (between opening closing p') := by
  have consumes := Consumes.mark opening
  have inner := (L.opening (k + 1) opening ho).andThen_consumes consumes consumes h
  exact (inner.map.andThen (consumes.andThen shrinks).map.shrinks
    (consumes.andThen shrinks').map.shrinks (L.closing (k + 1) closing hc)).map

/-- What stands behind a mark or a keyword is met on shorter inputs. -/
theorem related_behind_mark {α : Type} {p p' : Reader α} (text : String)
    (ht : text ∉ ["(", ")", "<", ">", ",", ";"]) (h : L.Related k p p') :
    L.Related (k + 1) ((mark text).keepRight p) ((mark text).keepRight p') :=
  ((L.mark (k + 1) text ht).andThen_consumes (.mark text) (.mark text) h).map

theorem related_behind_keyword {α : Type} {p p' : Reader α} (text : String)
    (h : L.Related k p p') :
    L.Related (k + 1) ((keyword text).keepRight p) ((keyword text).keepRight p') :=
  ((L.keyword (k + 1) text).andThen_consumes (.keyword text) (.keyword text) h).map

theorem related_segments (k : Nat) : L.Related k segments segments :=
  (RelatedBelow.separated₁ consumes_identifier.shrinks consumes_identifier.shrinks
    (L.mark k "::" (by decide)) (L.identifier k)).map

theorem related_args (hf : L.Nested k full full') :
    L.Related (k + 1) (args full) (args full') := by
  have shrinks := (Consumes.mark "<").shrinks
  have item : L.Related k (arg full) (arg full') := ((L.lifetime k).map).orElse hf.related.map
  have items : L.Nested k (arg full) (arg full') :=
    ⟨shrinks_arg hf.shrinks, shrinks_arg hf.shrinks', hf.failsAtClose.arg, hf.failsAtClose'.arg,
      item⟩
  apply RelatedBelow.orElse
  · exact ((L.opening (k + 1) "<" (by decide)).andThen shrinks shrinks
      (L.closing (k + 1) ">" (by decide))).map
  · exact related_between (by decide) (by decide) items.shrinks.list₁
      items.shrinks'.list₁ (related_list₁ items)

theorem related_typePath (hf : L.Nested k full full') :
    L.Related (k + 1) (typePath full) (typePath full') := by
  have name : L.Related (k + 1) (modifiers.andThen (segments.keepLeft (peek (mark "("))))
      (modifiers.andThen (segments.keepLeft (peek (mark "(")))) := by
    have peeked := (L.opening (k + 1) "(" (by decide)).peek
    have shrinks := consumes_segments.shrinks
    exact (L.modifiers (k + 1)).andThen shrinks_modifiers shrinks_modifiers
      ((related_segments (k + 1)).andThen shrinks shrinks peeked).map
  have named : Shrinks (modifiers.andThen (segments.keepLeft (peek (mark "(")))) :=
    shrinks_modifiers.andThen (consumes_segments.andThen Shrinks.peek).map.shrinks
  have inputs : L.Related (k + 1) (between "(" ")" (list full ","))
      (between "(" ")" (list full' ",")) :=
    related_between (by decide) (by decide) hf.shrinks.list hf.shrinks'.list
      (related_list hf id L.loosen)
  have called {p : Reader Ty} (h : Shrinks p) : Shrinks ((modifiers.andThen (segments.keepLeft
      (peek (mark "(")))).andThen (between "(" ")" (list p ","))) :=
    named.andThen (Consumes.between h.list).shrinks
  apply RelatedBelow.orElse
  · exact ((name.andThen named named inputs).andThen (called hf.shrinks) (called hf.shrinks')
      (related_behind_mark "->" (by decide) hf.related).optional).map
  · exact ((related_segments (k + 1)).andThen consumes_segments.shrinks consumes_segments.shrinks
      (related_args hf).optional).map

theorem related_traitBound (hf : L.Nested k full full') :
    L.Related (k + 1) (traitBound full) (traitBound full') := by
  have shrinks := (Consumes.mark "?").shrinks.optional
  exact ((L.mark (k + 1) "?" (by decide)).optional.andThen shrinks shrinks
    (related_typePath hf)).map

theorem related_bounds (hf : L.Nested k full full') :
    L.Related (k + 1) (bounds full) (bounds full') :=
  .separated₁ (consumes_bound hf.shrinks).shrinks (consumes_bound hf.shrinks').shrinks
    (L.mark (k + 1) "+" (by decide))
    ((L.lifetime (k + 1)).map.orElse (related_traitBound hf).map)

theorem related_singleType (opener : Opener) (hf : L.Nested k full full') :
    L.Related (k + 1) (singleType full opener) (singleType full' opener) :=
  (related_behind_keyword opener.word (related_traitBound hf).pred).map

theorem related_arrayOrSlice (hf : L.Nested k full full') :
    L.Related (k + 1) (arrayOrSlice full) (arrayOrSlice full') := by
  have sized : Shrinks (optional ((mark ";").keepRight arrayLength)) :=
    ((Consumes.mark ";").andThen consumes_arrayLength.shrinks).map.shrinks.optional
  have element := hf.related.andThen hf.shrinks hf.shrinks' (L.size k)
  have opened {p : Reader Ty} (h : Shrinks p) :=
    ((Consumes.mark "[").andThen (h.andThen sized)).map (f := Prod.snd)
  exact ((related_behind_mark "[" (by decide) element).andThen (opened hf.shrinks).shrinks
    (opened hf.shrinks').shrinks (L.mark (k + 1) "]" (by decide))).map.map

theorem related_pointerType (hp : L.Nested k plain plain') :
    L.Related (k + 1) (pointerType plain) (pointerType plain') := by
  have words : Consumes mutability :=
    (Consumes.keyword "mut").map.orElse (Consumes.keyword "const").map
  have star : Consumes ((mark "*").keepRight mutability) :=
    ((Consumes.mark "*").andThen words.shrinks).map
  have word : L.Related k mutability mutability :=
    (L.keyword k "mut").map.orElse (L.keyword k "const").map
  exact ((related_behind_mark "*" (by decide) word).andThen_consumes star star hp.related).map

theorem related_referenceType (hp : L.Nested k plain plain') :
    L.Related (k + 1) (referenceType plain) (referenceType plain') := by
  have named : Consumes ((mark "&").keepRight (optional lifetime)) :=
    ((Consumes.mark "&").andThen consumes_lifetime.shrinks.optional).map
  have mutated : Shrinks ((optional (keyword "mut")).map Option.isSome) :=
    (Consumes.keyword "mut").shrinks.optional.map
  have ampersand := related_behind_mark "&" (by decide) (L.lifetime k).optional
  have front := ampersand.andThen named.shrinks named.shrinks
    ((L.keyword (k + 1) "mut").optional.map (f := Option.isSome))
  exact (front.andThen_consumes (named.andThen mutated) (named.andThen mutated) hp.related).map

theorem related_plainType (hf : L.Nested k full full') (hp : L.Nested k plain plain') :
    L.Related (k + 1) (plainType full plain) (plainType full' plain') := by
  have shrinks := (Consumes.mark "(").shrinks
  apply RelatedBelow.orElse (L.mark (k + 1) "!" (by decide)).map
  apply RelatedBelow.orElse
  · exact ((L.opening (k + 1) "(" (by decide)).andThen shrinks shrinks
      (L.closing (k + 1) ")" (by decide))).map
  apply RelatedBelow.orElse
  · exact (related_between (by decide) (by decide) hf.shrinks.list₁ hf.shrinks'.list₁
      (related_list₁ hf)).map
  apply RelatedBelow.orElse (related_arrayOrSlice hf)
  apply RelatedBelow.orElse (related_pointerType hp)
  apply RelatedBelow.orElse (related_referenceType hp)
  apply RelatedBelow.orElse (related_singleType .impl hf)
  apply RelatedBelow.orElse (related_singleType .dyn hf)
  exact (related_typePath hf).map

theorem related_fullType {here here' : Reader Ty} (hf : L.Nested k full full')
    (hh : L.Related (k + 1) here here') :
    L.Related (k + 1) (fullType full here) (fullType full' here') := by
  have listed (opener : Opener) :
      L.Related (k + 1) (boundedType full opener) (boundedType full' opener) :=
    (related_behind_keyword opener.word (related_bounds hf).pred).map
  exact (listed .impl).orElse ((listed .dyn).orElse hh)

theorem failsAtClose_typeAt (depth : Nat) (spot : Spot) : FailsAtClose (typeAt depth spot) := by
  intro ts closes
  cases depth with
  | zero => rfl
  | succ depth => cases spot <;> cases closes <;> rfl

theorem nested_typeAt {n m : Nat} (spot : Spot) (hn : k ≤ n) (hm : k ≤ m) :
    L.Nested k (typeAt n spot) (typeAt m spot) := by
  refine ⟨(consumes_typeAt n spot).shrinks, (consumes_typeAt m spot).shrinks,
    failsAtClose_typeAt n spot, failsAtClose_typeAt m spot, ?_⟩
  induction k generalizing n m spot with
  | zero => exact fun _ _ short => absurd short (Nat.not_lt_zero _)
  | succ k ih =>
    obtain ⟨n, rfl⟩ : ∃ i, n = i + 1 := ⟨n - 1, by omega⟩
    obtain ⟨m, rfl⟩ : ∃ i, m = i + 1 := ⟨m - 1, by omega⟩
    have nested (spot : Spot) : L.Nested k (typeAt n spot) (typeAt m spot) :=
      ⟨(consumes_typeAt n spot).shrinks, (consumes_typeAt m spot).shrinks,
        failsAtClose_typeAt n spot, failsAtClose_typeAt m spot, ih spot (by omega) (by omega)⟩
    have plain := related_plainType (nested .full) (nested .plain)
    cases spot with
    | plain => exact plain
    | full => exact related_fullType (nested .full) plain

/- Whole signatures. -/

theorem failsAtClose_param : FailsAtClose (lifetimeParam.orElse (typeParam full)) := by
  intro ts closes
  cases closes <;> rfl

theorem failsAtClose_whereItem : FailsAtClose (lifetimeItem.orElse (typeItem full)) := by
  intro ts closes
  cases closes <;> rfl

theorem related_lifetimeBounds (k : Nat) : L.Related k lifetimeBounds lifetimeBounds :=
  .separated₁ consumes_lifetime.shrinks consumes_lifetime.shrinks (L.mark k "+" (by decide))
    (L.lifetime k)

theorem related_generics (hf : L.Nested k full full') :
    L.Related k (generics full) (generics full') := by
  have colon (k : Nat) : L.Related k (mark ":") (mark ":") := L.mark k ":" (by decide)
  have mark (text : String) {α : Type} {p : Reader α} (hp : Shrinks p) :
      Shrinks (optional ((mark text).keepRight p)) :=
    ((Consumes.mark text).andThen hp).map.shrinks.optional
  have lifetimeParam : L.Related k lifetimeParam lifetimeParam := by
    have bounded := (related_behind_mark (L := L) ":" (by decide) (related_lifetimeBounds k)).pred
    exact ((L.lifetime k).andThen consumes_lifetime.shrinks consumes_lifetime.shrinks
      bounded.optional).map
  have typeParam : L.Related k (typeParam full) (typeParam full') := by
    have bounded := (related_behind_mark ":" (by decide) (related_bounds hf).pred).pred
    have given := (related_behind_mark "=" (by decide) hf.related).pred
    have named {p : Reader Ty} (h : Shrinks p) :=
      consumes_identifier.shrinks.andThen (mark ":" (consumes_bounds h).shrinks)
    exact (((L.identifier k).andThen consumes_identifier.shrinks consumes_identifier.shrinks
      bounded.optional).andThen (named hf.shrinks) (named hf.shrinks') given.optional).map
  have items : L.Nested k (Reader.lifetimeParam.orElse (Reader.typeParam full))
      (Reader.lifetimeParam.orElse (Reader.typeParam full')) :=
    ⟨(consumes_param hf.shrinks).shrinks, (consumes_param hf.shrinks').shrinks,
      failsAtClose_param, failsAtClose_param, lifetimeParam.orElse typeParam⟩
  exact (related_between (by decide) (by decide) items.shrinks.list items.shrinks'.list
    (related_list items id L.loosen)).pred

theorem related_whereClause (hf : L.Nested k full full') :
    L.Related k (whereClause full) (whereClause full') := by
  have colon : Shrinks (mark ":") := (Consumes.mark ":").shrinks
  have lifetimeItem : L.Related k lifetimeItem lifetimeItem := by
    have named := (L.lifetime k).andThen consumes_lifetime.shrinks consumes_lifetime.shrinks
      (L.mark k ":" (by decide))
    have shrinks := (consumes_lifetime.andThen colon).shrinks
    exact (named.map.andThen shrinks.map shrinks.map (related_lifetimeBounds k)).map
  have typeItem : L.Related k (typeItem full) (typeItem full') := by
    have named := (L.identifier k).andThen consumes_identifier.shrinks consumes_identifier.shrinks
      (L.mark k ":" (by decide))
    have shrinks := (consumes_identifier.andThen colon).shrinks
    exact (named.map.andThen shrinks.map shrinks.map (related_bounds hf).pred).map
  have items : L.Nested k (Reader.lifetimeItem.orElse (Reader.typeItem full))
      (Reader.lifetimeItem.orElse (Reader.typeItem full')) :=
    ⟨(consumes_whereItem hf.shrinks).shrinks, (consumes_whereItem hf.shrinks').shrinks,
      failsAtClose_whereItem, failsAtClose_whereItem, lifetimeItem.orElse typeItem⟩
  exact (related_behind_keyword "where" (related_list items L.loosen id)).pred

theorem related_traitHead (hf : L.Nested k full full') :
    L.Related k (traitHead full) (traitHead full') := by
  have params {p : Reader Ty} (h : Shrinks p) :=
    shrinks_opening.andThen (consumes_generics h).shrinks.optional
  have negation := (Consumes.mark "!").shrinks.optional
  have opening := ((L.keyword k "unsafe").optional.andThen
    (Consumes.keyword "unsafe").shrinks.optional (Consumes.keyword "unsafe").shrinks.optional
    (L.keyword k "impl")).map (f := Prod.fst)
  have listed := opening.andThen shrinks_opening shrinks_opening (related_generics hf).optional
  have negated := listed.andThen (params hf.shrinks) (params hf.shrinks')
    (L.mark k "!" (by decide)).optional
  exact negated.andThen ((params hf.shrinks).andThen negation)
    ((params hf.shrinks').andThen negation) (related_typePath hf).pred

theorem related_traitSignature (hf : L.Nested k full full') :
    L.Related k (traitSignature full) (traitSignature full') := by
  have head {p : Reader Ty} (h : Shrinks p) :=
    ((shrinks_traitHead h).andThen (Consumes.keyword "for").shrinks).map (f := Prod.fst)
  have named := ((related_traitHead hf).andThen (shrinks_traitHead hf.shrinks)
    (shrinks_traitHead hf.shrinks') (L.keyword k "for")).map (f := Prod.fst)
  have typed := named.andThen (head hf.shrinks) (head hf.shrinks') hf.related
  exact (typed.andThen ((head hf.shrinks).andThen hf.shrinks)
    ((head hf.shrinks').andThen hf.shrinks') (related_whereClause hf).optional).map

theorem related_inherentSignature (hf : L.Nested k full full') :
    L.Related k (inherentSignature full) (inherentSignature full') := by
  have head {p : Reader Ty} (h : Shrinks p) :=
    ((Consumes.keyword "impl").shrinks.andThen (consumes_generics h).shrinks.optional).map
      (f := Prod.snd)
  have listed := (related_behind_keyword "impl" (related_generics hf).optional).pred
  have typed := listed.andThen (head hf.shrinks) (head hf.shrinks') hf.related
  exact (typed.andThen ((head hf.shrinks).andThen hf.shrinks)
    ((head hf.shrinks').andThen hf.shrinks') (related_whereClause hf).optional).map

theorem related_implementation (hf : L.Nested k full full') :
    L.Related k (implementation full) (implementation full') :=
  (related_traitSignature hf).orElse (related_inherentSignature hf)

/- Equality as the likeness. -/

theorem relatedBelow_refl {α : Type} (k : Nat) (p : Reader α) : RelatedBelow k Eq Eq p p := by
  rintro ts _ _ _ rfl
  exact sameOutcome_eq_iff.2 rfl

theorem atComma_refl (ts : List Lexeme) : AtComma Eq ts ts := by
  cases comma : Reader.mark "," ts with
  | none => exact .neither rfl comma comma
  | some found =>
    rw [mark_eq_some.1 comma]
    exact .both rfl

def Likeness.same : Likeness where
  strict := Eq
  loose := Eq
  loosen := id
  comma := fun like => like ▸ atComma_refl _
  mark := fun k _ _ => relatedBelow_refl k _
  opening := fun k _ _ => relatedBelow_refl k _
  closing := fun k _ _ => relatedBelow_refl k _
  keyword := fun k _ => relatedBelow_refl k _
  identifier := fun k => relatedBelow_refl k _
  lifetime := fun k => relatedBelow_refl k _
  modifiers := fun k => relatedBelow_refl k _
  size := fun k => relatedBelow_refl k _

theorem readTy_eq_typeAt {n : Nat} {ts : List Lexeme} (spot : Spot) (h : ts.length < n) :
    readTy spot ts = typeAt n spot ts := by
  have nested := nested_typeAt (L := .same) spot (Nat.le_refl (ts.length + 1)) h
  exact sameOutcome_eq_iff.1 (nested.related (Nat.lt_succ_self _) (Nat.lt_succ_self _) rfl)

theorem consumes_readTy (spot : Spot) : Consumes (readTy spot) :=
  fun ts _ _ h => consumes_typeAt (ts.length + 1) spot h

theorem shrinks_readTy (spot : Spot) : Shrinks (readTy spot) :=
  (consumes_readTy spot).shrinks

/-- Readers of types of any depth read like inputs alike. -/
theorem nested_readTy (n k : Nat) (spot : Spot) (h : k ≤ n) :
    L.Nested k (typeAt n spot) (readTy spot) := by
  have deep := nested_typeAt (L := L) spot h (Nat.le_refl k)
  refine ⟨deep.shrinks, shrinks_readTy spot, deep.failsAtClose, ?_, ?_⟩
  · intro ts closes
    exact failsAtClose_typeAt _ spot closes
  · intro ts us short short' like
    rw [readTy_eq_typeAt spot short']
    exact deep.related short short' like

theorem nested_readTy_self (k : Nat) (spot : Spot) :
    L.Nested k (readTy spot) (readTy spot) := by
  have deep := nested_readTy (L := L) k k spot (Nat.le_refl k)
  refine ⟨deep.shrinks', deep.shrinks', deep.failsAtClose', deep.failsAtClose', ?_⟩
  intro ts us short short' like
  rw [readTy_eq_typeAt spot short]
  exact deep.related short short' like

theorem implementation_typeAt {n : Nat} {ts : List Lexeme} (h : ts.length < n) :
    implementation (typeAt n .full) ts = implementation (readTy .full) ts := by
  have related := related_implementation (nested_readTy (L := .same) n n .full (Nat.le_refl n))
  exact sameOutcome_eq_iff.1 (related h h rfl)

theorem readTy_plain : readTy .plain = plainType (readTy .full) (readTy .plain) := by
  funext ts
  have nested (spot : Spot) := nested_readTy (L := .same) ts.length ts.length spot (Nat.le_refl _)
  have related := related_plainType (nested .full) (nested .plain)
  exact sameOutcome_eq_iff.1 (related (Nat.lt_succ_self _) (Nat.lt_succ_self _) rfl)

theorem readTy_full : readTy .full = fullType (readTy .full) (readTy .plain) := by
  funext ts
  have nested (spot : Spot) := nested_readTy (L := .same) ts.length ts.length spot (Nat.le_refl _)
  have related := related_fullType (nested .full) (related_plainType (nested .full) (nested .plain))
  rw [readTy_plain]
  exact sameOutcome_eq_iff.1 (related (Nat.lt_succ_self _) (Nat.lt_succ_self _) rfl)

end Reader

end ImplFamilies.Grammar
