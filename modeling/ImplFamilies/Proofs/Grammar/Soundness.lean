import ImplFamilies.Proofs.Grammar.Derivation
import ImplFamilies.Proofs.Grammar.Agreement

/-!
What the readers read is derivable, with the tree they return: a type, and from it a signature.
-/

namespace ImplFamilies.Grammar

open Phrase

namespace Reader

/-- On inputs shorter than the bound, what is read is a phrase with that value. -/
def SoundBelow {α : Type} (k : Nat) (p : Reader α) (d : Phrase α) : Prop :=
  ∀ ⦃ts a rest⦄, ts.length < k → p ts = some (a, rest) → d ts a rest

section Combinators

variable {α : Type} {k : Nat} {p : Reader α} {d : Phrase α} {ts rest : List Lexeme}

theorem SoundBelow.mono {n : Nat} (h : SoundBelow k p d) (le : n ≤ k) : SoundBelow n p d :=
  fun _ _ _ short read => h (Nat.lt_of_lt_of_le short le) read

theorem SoundBelow.optional (h : SoundBelow k p d) : SoundBelow k p.optional (Optional d) := by
  intro ts o rest short found
  rcases optional_eq_some.1 found with ⟨a, rfl, read⟩ | ⟨rfl, _, rfl⟩
  · exact .present (h short read)
  · exact .absent

theorem SoundBelow.after (text : String) (h : SoundBelow k p d) :
    SoundBelow (k + 1) ((Reader.mark text).keepRight p) (After text d) := by
  intro ts a rest short found
  obtain ⟨mid, rfl, read⟩ := keepRight_mark_eq_some.1 found
  rw [List.length_cons] at short
  exact .read (h (by omega) read)

theorem soundBelow_mark (text : String) : SoundBelow k (Reader.mark text) (Token (.mark text)) := by
  intro ts u rest _ found
  obtain rfl := mark_eq_some.1 found
  exact .read

theorem soundBelow_keyword (text : String) :
    SoundBelow k (Reader.keyword text) (Token (.word text)) := by
  intro ts u rest _ found
  obtain rfl := keyword_eq_some.1 found
  exact .read

theorem SoundBelow.pairs {separator : String} {mid last : List Lexeme} {a : α} {as : List α}
    (h : SoundBelow k p d) (consumes : Consumes p) (short : mid.length ≤ k)
    (first : d ts a mid) (pairs : Pairs p separator mid as last) :
    Separated d separator ts (a :: as) last := by
  induction pairs generalizing ts a with
  | stop ended => exact .last first
  | next item more ih =>
    rw [List.length_cons] at short
    have shorter := (consumes item).2
    exact .more first (ih (by omega) (h (by omega) item))

theorem SoundBelow.row {separator : String} {as : List α} (h : SoundBelow k p d)
    (consumes : Consumes p) (short : ts.length < k) (row : Row p separator ts as rest) :
    Separated d separator ts as rest := by
  obtain ⟨a, bs, mid, rfl, first, pairs⟩ := row
  have shorter := (consumes first).2
  exact h.pairs consumes (by omega) (h short first) pairs

theorem SoundBelow.separated₁ {separator : String} (h : SoundBelow k p d)
    (consumes : Consumes p) :
    SoundBelow k (Reader.separated₁ p separator) (Separated d separator) := by
  intro ts as rest short found
  exact h.row consumes short ((separated₁_eq_some consumes.shrinks).1 found)

theorem commaList₁_of_skipMark {last : List Lexeme} {as : List α}
    (items : Separated d "," ts as last) : CommaList₁ d ts as (skipMark "," last) := by
  unfold skipMark
  cases comma : Reader.mark "," last with
  | none => exact .closed items
  | some found =>
    obtain ⟨u, rest⟩ := found
    obtain rfl := mark_eq_some.1 comma
    exact .trailing items

theorem SoundBelow.list₁ (h : SoundBelow k p d) (consumes : Consumes p) :
    SoundBelow k (Reader.list₁ p ",") (CommaList₁ d) := by
  intro ts as rest short found
  obtain ⟨last, row, rfl⟩ := (list₁_eq_some consumes.shrinks).1 found
  exact commaList₁_of_skipMark (h.row consumes short row)

theorem SoundBelow.list (h : SoundBelow k p d) (consumes : Consumes p) :
    SoundBelow k (Reader.list p ",") (CommaList d) := by
  intro ts as rest short found
  rcases (list_eq_some consumes.shrinks).1 found with ⟨rfl, _, rfl⟩ | ⟨last, row, rfl⟩
  · exact .empty
  · exact .items (commaList₁_of_skipMark (h.row consumes short row))

end Combinators

abbrev anyWord : String → Prop := fun _ => True

theorem soundBelow_lifetime {k : Nat} : SoundBelow k lifetime Lifetime := by
  intro ts name rest _ found
  obtain rfl := lifetime_eq_some.1 found
  exact .read

theorem identifier_sound {ts rest : List Lexeme} {name : List Char}
    (read : identifier ts = some (name, rest)) :
    DerivesName anyWord ts (String.ofList name) rest := by
  obtain ⟨l, segment, rfl, rfl⟩ := segment_of_identifier read
  rw [String.ofList_toList]
  rcases segment with ⟨text, rfl⟩ | rfl
  · exact .word trivial
  · exact .dots

theorem segments_sound {ts rest : List Lexeme} {name : String}
    (found : segments ts = some (name, rest)) : DerivesSegments anyWord ts name rest := by
  obtain ⟨parts, read, rfl⟩ := map_eq_some.1 found
  have named : SoundBelow (ts.length + 1) identifier
      (fun ts cs rest => DerivesName anyWord ts (String.ofList cs) rest) :=
    fun _ _ _ _ => identifier_sound
  have parted := (named.separated₁ consumes_identifier (Nat.lt_succ_self _) read).map
  rw [ofList_joined]
  exact .read parted

theorem takeWhile_modifiers (ts : List Lexeme) :
    Modifiers ts ((ts.takeWhile isModifier).map Lexeme.text) (ts.dropWhile isModifier) := by
  induction ts with
  | nil => exact .none
  | cons l ts ih =>
    cases is : isModifier l with
    | false => simpa [is] using Modifiers.none
    | true =>
      have kind : l = .word "unsafe" ∨ l = .word "extern" ∨ l = .mark "\"C\"" := by
        simpa [isModifier, or_assoc] using is
      simpa [is] using Modifiers.more kind ih

theorem modifiers_sound {ts rest : List Lexeme} {words : String}
    (found : modifiers ts = some (words, rest)) :
    ∃ parts, words = joinedWords " " parts ∧ Modifiers ts parts rest := by
  obtain ⟨rfl, rfl⟩ := Prod.mk.inj (Option.some.inj found)
  refine ⟨(ts.takeWhile isModifier).map Lexeme.text, ?_, takeWhile_modifiers ts⟩
  rw [joinedWords, List.map_map]
  rfl

section Nested

variable {k : Nat} {full plain : Reader Ty}

theorem soundBelow_arg (hf : SoundBelow k full (DerivesTy anyWord .full)) :
    SoundBelow k (arg full) (DerivesArg anyWord) := by
  intro ts a rest short found
  rcases orElse_eq_some.1 found with found | ⟨_, found⟩
  · obtain ⟨name, read, rfl⟩ := map_eq_some.1 found
    exact .lifetime (soundBelow_lifetime short read)
  · obtain ⟨t, read, rfl⟩ := map_eq_some.1 found
    exact .type (hf short read)

theorem consumes_arg (h : Consumes full) : Consumes (arg full) :=
  consumes_lifetime.map.orElse h.map

theorem soundBelow_args (hf : SoundBelow k full (DerivesTy anyWord .full)) (cf : Consumes full) :
    SoundBelow (k + 1) (args full) (DerivesArgs anyWord) := by
  intro ts as rest short found
  rcases orElse_eq_some.1 found with found | ⟨_, found⟩
  · obtain ⟨⟨u, v⟩, read, rfl⟩ := map_eq_some.1 found
    obtain ⟨mid, opened, closed⟩ := andThen_eq_some.1 read
    obtain rfl := mark_eq_some.1 opened
    obtain rfl := mark_eq_some.1 closed
    exact .empty
  · obtain ⟨inner, rfl, read⟩ := between_eq_some.1 found
    rw [List.length_cons] at short
    exact .items ((soundBelow_arg hf).list₁ (consumes_arg cf) (by omega) read)

theorem soundBelow_typePath (hf : SoundBelow k full (DerivesTy anyWord .full))
    (cf : Consumes full) : SoundBelow (k + 1) (typePath full) (DerivesPath anyWord) := by
  intro ts path rest short found
  rcases orElse_eq_some.1 found with found | ⟨_, found⟩
  · obtain ⟨⟨⟨⟨words, name⟩, inputs⟩, output⟩, read, rfl⟩ := map_eq_some.1 found
    obtain ⟨closed, read, result⟩ := andThen_eq_some.1 read
    obtain ⟨peeked, read, parameters⟩ := andThen_eq_some.1 read
    obtain ⟨named, modifiers, segments⟩ := andThen_eq_some.1 read
    obtain ⟨ended, u, segments, peeked⟩ := keepLeft_eq_some.1 segments
    obtain ⟨_, rfl⟩ := peek_eq_some.1 peeked
    obtain ⟨opened, rfl, inner⟩ := between_eq_some.1 parameters
    have named_le := (shrinks_modifiers modifiers).length_le
    have opened_lt := (consumes_segments segments).2
    have closed_lt := (cf.shrinks.list inner).length_le
    rw [List.length_cons] at opened_lt closed_lt
    obtain ⟨words, rfl, worded⟩ := modifiers_sound modifiers
    exact .fn worded (segments_sound segments) (hf.list cf (by omega) inner)
      ((hf.after "->").optional (by omega) result)
  · obtain ⟨⟨name, as⟩, read, rfl⟩ := map_eq_some.1 found
    obtain ⟨mid, segments, args⟩ := andThen_eq_some.1 read
    have mid_lt := (consumes_segments segments).2
    exact .plain (segments_sound segments) ((soundBelow_args hf cf).optional (by omega) args)

theorem soundBelow_traitBound (hf : SoundBelow k full (DerivesTy anyWord .full))
    (cf : Consumes full) : SoundBelow (k + 1) (traitBound full) (DerivesTraitBound anyWord) := by
  intro ts b rest short found
  obtain ⟨⟨question, path⟩, read, rfl⟩ := map_eq_some.1 found
  obtain ⟨mid, mark, path⟩ := andThen_eq_some.1 read
  have mid_le := ((Consumes.mark "?").shrinks.optional mark).length_le
  exact .read ((soundBelow_mark "?").optional short mark)
    (soundBelow_typePath hf cf (by omega) path)

theorem soundBelow_bound (hf : SoundBelow k full (DerivesTy anyWord .full))
    (cf : Consumes full) : SoundBelow (k + 1) (bound full) (DerivesBound anyWord) := by
  intro ts b rest short found
  rcases orElse_eq_some.1 found with found | ⟨_, found⟩
  · obtain ⟨name, read, rfl⟩ := map_eq_some.1 found
    exact .lifetime (soundBelow_lifetime short read)
  · obtain ⟨b, read, rfl⟩ := map_eq_some.1 found
    exact .trait (soundBelow_traitBound hf cf short read)

theorem soundBelow_bounds (hf : SoundBelow k full (DerivesTy anyWord .full))
    (cf : Consumes full) : SoundBelow (k + 1) (bounds full) (DerivesBounds anyWord) :=
  (soundBelow_bound hf cf).separated₁ (consumes_bound cf.shrinks)

theorem bounded_sound {opener : Opener} {bs : List Bound} {ts rest : List Lexeme}
    (h : DerivesBounds anyWord ts bs rest) :
    DerivesTy anyWord .full (.word opener.word :: ts) (bounded opener bs) rest := by
  by_cases one : ∃ b, bs = [.trait b]
  · obtain ⟨b, rfl⟩ := one
    cases h with
    | last only =>
      cases only with
      | trait bound => exact .unbounded (.single bound)
    | more first others => cases others
  · have several : ∀ b, bs ≠ [.trait b] := fun b same => one ⟨b, same⟩
    have list : bounded opener bs = .bounded opener bs := by
      unfold bounded
      split
      · exact absurd rfl (several _)
      · rfl
    rw [list]
    exact .bounded h several

theorem arrayLength_sound {ts rest : List Lexeme} {size : UInt64}
    (read : arrayLength ts = some (size, rest)) : Size ts size rest := by
  obtain ⟨text, rfl, ⟨digits, fits⟩, rfl⟩ := arrayLength_eq_some.1 read
  refine .read digits ?_
  rw [UInt64.toNat_ofNat', Nat.mod_eq_of_lt fits]

theorem singleType_sound {opener : Opener} (hf : SoundBelow k full (DerivesTy anyWord .full))
    (cf : Consumes full) {ts rest : List Lexeme} {t : Ty} (short : ts.length < k + 1)
    (found : singleType full opener ts = some (t, rest)) : DerivesTy anyWord .plain ts t rest := by
  obtain ⟨b, read, rfl⟩ := map_eq_some.1 found
  obtain ⟨mid, u, word, bound⟩ := keepRight_eq_some.1 read
  obtain rfl := keyword_eq_some.1 word
  rw [List.length_cons] at short
  exact .single (soundBelow_traitBound hf cf (by omega) bound)

theorem arrayOrSlice_sound (hf : SoundBelow k full (DerivesTy anyWord .full))
    {ts rest : List Lexeme} {t : Ty} (short : ts.length < k + 1)
    (found : arrayOrSlice full ts = some (t, rest)) : DerivesTy anyWord .plain ts t rest := by
  obtain ⟨⟨x, size⟩, read, rfl⟩ := map_eq_some.1 found
  obtain ⟨inner, rfl, bracketed⟩ := between_eq_some.1 read
  obtain ⟨mid, first, sized⟩ := andThen_eq_some.1 bracketed
  rw [List.length_cons] at short
  have element := hf (by omega) first
  rcases optional_eq_some.1 sized with ⟨n, rfl, size⟩ | ⟨rfl, _, rfl⟩
  · obtain ⟨after, rfl, length⟩ := keepRight_mark_eq_some.1 size
    exact .array element (arrayLength_sound length)
  · exact .slice element

theorem pointerType_sound (hp : SoundBelow k plain (DerivesTy anyWord .plain))
    {ts rest : List Lexeme} {t : Ty} (short : ts.length < k + 1)
    (found : pointerType plain ts = some (t, rest)) : DerivesTy anyWord .plain ts t rest := by
  obtain ⟨⟨mutable, x⟩, read, rfl⟩ := map_eq_some.1 found
  obtain ⟨mid, star, element⟩ := andThen_eq_some.1 read
  obtain ⟨after, rfl, word⟩ := keepRight_mark_eq_some.1 star
  rw [List.length_cons] at short
  rcases orElse_eq_some.1 word with word | ⟨_, word⟩
  · obtain ⟨u, keyword, rfl⟩ := map_eq_some.1 word
    obtain rfl := keyword_eq_some.1 keyword
    rw [List.length_cons] at short
    exact .mutPointer (hp (by omega) element)
  · obtain ⟨u, keyword, rfl⟩ := map_eq_some.1 word
    obtain rfl := keyword_eq_some.1 keyword
    rw [List.length_cons] at short
    exact .constPointer (hp (by omega) element)

theorem referenceType_sound (hp : SoundBelow k plain (DerivesTy anyWord .plain))
    {ts rest : List Lexeme} {t : Ty} (short : ts.length < k + 1)
    (found : referenceType plain ts = some (t, rest)) : DerivesTy anyWord .plain ts t rest := by
  obtain ⟨⟨⟨name, mutable⟩, x⟩, read, rfl⟩ := map_eq_some.1 found
  obtain ⟨after, read, element⟩ := andThen_eq_some.1 read
  obtain ⟨mid, ampersand, word⟩ := andThen_eq_some.1 read
  obtain ⟨inner, rfl, named⟩ := keepRight_mark_eq_some.1 ampersand
  obtain ⟨o, keyword, rfl⟩ := map_eq_some.1 word
  have mid_le := (consumes_lifetime.shrinks.optional named).length_le
  have after_le := ((Consumes.keyword "mut").shrinks.optional keyword).length_le
  rw [List.length_cons] at short
  exact .reference (soundBelow_lifetime.optional (Nat.lt_succ_self _) named)
    ((soundBelow_keyword "mut").optional (Nat.lt_succ_self _) keyword) (hp (by omega) element)

theorem soundBelow_plainType (hf : SoundBelow k full (DerivesTy anyWord .full))
    (cf : Consumes full) (hp : SoundBelow k plain (DerivesTy anyWord .plain)) :
    SoundBelow (k + 1) (plainType full plain) (DerivesTy anyWord .plain) := by
  intro ts t rest short found
  rcases orElse_eq_some.1 found with never | ⟨_, found⟩
  · obtain ⟨u, mark, rfl⟩ := map_eq_some.1 never
    obtain rfl := mark_eq_some.1 mark
    exact .never
  rcases orElse_eq_some.1 found with unit | ⟨_, found⟩
  · obtain ⟨⟨u, v⟩, read, rfl⟩ := map_eq_some.1 unit
    obtain ⟨mid, opened, closed⟩ := andThen_eq_some.1 read
    obtain rfl := mark_eq_some.1 opened
    obtain rfl := mark_eq_some.1 closed
    exact .tuple .empty
  rcases orElse_eq_some.1 found with tuple | ⟨_, found⟩
  · obtain ⟨xs, read, rfl⟩ := map_eq_some.1 tuple
    obtain ⟨inner, rfl, elements⟩ := between_eq_some.1 read
    rw [List.length_cons] at short
    exact .tuple (.items (hf.list₁ cf (by omega) elements))
  rcases orElse_eq_some.1 found with array | ⟨_, found⟩
  · exact arrayOrSlice_sound hf short array
  rcases orElse_eq_some.1 found with pointer | ⟨_, found⟩
  · exact pointerType_sound hp short pointer
  rcases orElse_eq_some.1 found with reference | ⟨_, found⟩
  · exact referenceType_sound hp short reference
  rcases orElse_eq_some.1 found with single | ⟨_, found⟩
  · exact singleType_sound hf cf short single
  rcases orElse_eq_some.1 found with single | ⟨_, found⟩
  · exact singleType_sound hf cf short single
  · obtain ⟨path, read, rfl⟩ := map_eq_some.1 found
    exact .path (soundBelow_typePath hf cf short read)

theorem boundedType_sound {opener : Opener} (hf : SoundBelow k full (DerivesTy anyWord .full))
    (cf : Consumes full) {ts rest : List Lexeme} {t : Ty} (short : ts.length < k + 1)
    (found : boundedType full opener ts = some (t, rest)) : DerivesTy anyWord .full ts t rest := by
  obtain ⟨bs, read, rfl⟩ := map_eq_some.1 found
  obtain ⟨mid, u, word, bounds⟩ := keepRight_eq_some.1 read
  obtain rfl := keyword_eq_some.1 word
  rw [List.length_cons] at short
  exact bounded_sound (soundBelow_bounds hf cf (by omega) bounds)

theorem soundBelow_fullType {here : Reader Ty} (hf : SoundBelow k full (DerivesTy anyWord .full))
    (cf : Consumes full) (hh : SoundBelow (k + 1) here (DerivesTy anyWord .plain)) :
    SoundBelow (k + 1) (fullType full here) (DerivesTy anyWord .full) := by
  intro ts t rest short found
  rcases orElse_eq_some.1 found with list | ⟨_, found⟩
  · exact boundedType_sound hf cf short list
  rcases orElse_eq_some.1 found with list | ⟨_, found⟩
  · exact boundedType_sound hf cf short list
  · exact .unbounded (hh short found)

end Nested

theorem soundBelow_readTy (k : Nat) (spot : Spot) :
    SoundBelow k (readTy spot) (DerivesTy anyWord spot) := by
  induction k generalizing spot with
  | zero => exact fun _ _ _ short _ => absurd short (Nat.not_lt_zero _)
  | succ k ih =>
    have plain := soundBelow_plainType (ih .full) (consumes_readTy .full) (ih .plain)
    cases spot with
    | plain => rw [readTy_plain]; exact plain
    | full =>
      rw [readTy_full]
      refine soundBelow_fullType (ih .full) (consumes_readTy .full) ?_
      rw [readTy_plain]
      exact plain

theorem readTy_sound {spot : Spot} {ts rest : List Lexeme} {t : Ty}
    (found : readTy spot ts = some (t, rest)) : DerivesTy anyWord spot ts t rest :=
  soundBelow_readTy (ts.length + 1) spot (Nat.lt_succ_self _) found

theorem soundBelow_full (k : Nat) : SoundBelow k (readTy .full) (DerivesTy anyWord .full) :=
  fun _ _ _ _ => readTy_sound

theorem soundBelow_readBounds (k : Nat) :
    SoundBelow k (bounds (readTy .full)) (DerivesBounds anyWord) :=
  (soundBelow_bounds (soundBelow_full k) (consumes_readTy .full)).mono (Nat.le_succ k)

theorem soundBelow_lifetimeBounds (k : Nat) : SoundBelow k lifetimeBounds DerivesLifetimeBounds :=
  soundBelow_lifetime.separated₁ consumes_lifetime

theorem soundBelow_param (k : Nat) :
    SoundBelow k (lifetimeParam.orElse (typeParam (readTy .full))) (DerivesParam anyWord) := by
  intro ts param rest short found
  rcases orElse_eq_some.1 found with lifetime | ⟨_, type⟩
  · obtain ⟨⟨name, bounds⟩, read, rfl⟩ := map_eq_some.1 lifetime
    obtain ⟨mid, named, listed⟩ := andThen_eq_some.1 read
    exact .lifetime (soundBelow_lifetime short named)
      (((soundBelow_lifetimeBounds mid.length).after ":").optional (Nat.lt_succ_self _) listed)
  · obtain ⟨⟨⟨name, bounds⟩, default⟩, read, rfl⟩ := map_eq_some.1 type
    obtain ⟨after, head, given⟩ := andThen_eq_some.1 read
    obtain ⟨mid, named, listed⟩ := andThen_eq_some.1 head
    exact .type (identifier_sound named)
      (((soundBelow_readBounds mid.length).after ":").optional (Nat.lt_succ_self _) listed)
      (((soundBelow_full after.length).after "=").optional (Nat.lt_succ_self _) given)

theorem generics_sound {ts rest : List Lexeme} {params : List Param}
    (found : generics (readTy .full) ts = some (params, rest)) :
    DerivesGenerics anyWord ts params rest := by
  obtain ⟨inner, rfl, listed⟩ := between_eq_some.1 found
  exact .read ((soundBelow_param _).list (consumes_param (shrinks_readTy .full))
    (Nat.lt_succ_self _) listed)

theorem soundBelow_whereItem (k : Nat) :
    SoundBelow k (lifetimeItem.orElse (typeItem (readTy .full))) (DerivesWhereItem anyWord) := by
  intro ts param rest short found
  rcases orElse_eq_some.1 found with lifetime | ⟨_, type⟩
  · obtain ⟨⟨name, bounds⟩, read, rfl⟩ := map_eq_some.1 lifetime
    obtain ⟨mid, head, listed⟩ := andThen_eq_some.1 read
    obtain ⟨colon, u, named, opened⟩ := keepLeft_eq_some.1 head
    obtain rfl := mark_eq_some.1 opened
    exact .lifetime (soundBelow_lifetime short named)
      (.read (soundBelow_lifetimeBounds _ (Nat.lt_succ_self _) listed))
  · obtain ⟨⟨name, bounds⟩, read, rfl⟩ := map_eq_some.1 type
    obtain ⟨mid, head, listed⟩ := andThen_eq_some.1 read
    obtain ⟨colon, u, named, opened⟩ := keepLeft_eq_some.1 head
    obtain rfl := mark_eq_some.1 opened
    exact .type (identifier_sound named)
      (.read (soundBelow_readBounds _ (Nat.lt_succ_self _) listed))

theorem where_sound {ts rest : List Lexeme} {items : List Param}
    (found : whereClause (readTy .full) ts = some (items, rest)) :
    DerivesWhere anyWord ts items rest := by
  obtain ⟨mid, u, word, listed⟩ := keepRight_eq_some.1 found
  obtain rfl := keyword_eq_some.1 word
  exact .read ((soundBelow_whereItem _).list (consumes_whereItem (shrinks_readTy .full))
    (Nat.lt_succ_self _) listed)

theorem implementation_sound {ts rest : List Lexeme} {d : Signature}
    (found : implementation (readTy .full) ts = some (d, rest)) :
    DerivesSignature anyWord ts d rest := by
  have clause {ts rest o} : optional (whereClause (readTy .full)) ts = some (o, rest) →
      Optional (DerivesWhere anyWord) ts o rest := by
    intro found
    rcases optional_eq_some.1 found with ⟨items, rfl, read⟩ | ⟨rfl, _, rfl⟩
    · exact .present (where_sound read)
    · exact .absent
  have params {ts rest o} : optional (generics (readTy .full)) ts = some (o, rest) →
      Optional (DerivesGenerics anyWord) ts o rest := by
    intro found
    rcases optional_eq_some.1 found with ⟨items, rfl, read⟩ | ⟨rfl, _, rfl⟩
    · exact .present (generics_sound read)
    · exact .absent
  rcases orElse_eq_some.1 found with trait | ⟨_, inherent⟩
  · obtain ⟨⟨⟨⟨⟨⟨mark, generics⟩, negation⟩, path⟩, selfTy⟩, whereClause⟩, read, rfl⟩ :=
      map_eq_some.1 trait
    obtain ⟨after, read, «where»⟩ := andThen_eq_some.1 read
    obtain ⟨self, read, type⟩ := andThen_eq_some.1 read
    obtain ⟨word, u, read, «for»⟩ := keepLeft_eq_some.1 read
    obtain rfl := keyword_eq_some.1 «for»
    obtain ⟨named, read, path⟩ := andThen_eq_some.1 read
    obtain ⟨typed, read, negated⟩ := andThen_eq_some.1 read
    obtain ⟨opened, read, generics⟩ := andThen_eq_some.1 read
    obtain ⟨word, u, marked, «impl»⟩ := keepLeft_eq_some.1 read
    obtain rfl := keyword_eq_some.1 «impl»
    exact .trait ((soundBelow_keyword "unsafe").optional (Nat.lt_succ_self _) marked)
      (params generics) ((soundBelow_mark "!").optional (Nat.lt_succ_self _) negated)
      (soundBelow_typePath (soundBelow_full _) (consumes_readTy .full)
        (Nat.lt_succ_self _) path)
      (readTy_sound type) (clause «where»)
  · obtain ⟨⟨⟨generics, selfTy⟩, whereClause⟩, read, rfl⟩ := map_eq_some.1 inherent
    obtain ⟨after, read, «where»⟩ := andThen_eq_some.1 read
    obtain ⟨self, read, type⟩ := andThen_eq_some.1 read
    obtain ⟨opened, u, «impl», generics⟩ := keepRight_eq_some.1 read
    obtain rfl := keyword_eq_some.1 «impl»
    exact .inherent (params generics) (readTy_sound type) (clause «where»)

end Reader

end ImplFamilies.Grammar
