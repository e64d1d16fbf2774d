import ImplFamilies.Proofs.Grammar.Agreement
import ImplFamilies.Proofs.Grammar.Respelling
import ImplFamilies.Proofs.Grammar.Soundness

/-!
Printing and reading: what is read from a text is read again from its canonical text.
-/

namespace ImplFamilies.Grammar

open Phrase Text
open Reader (RelatedBelow Alike AlikeBehind mark keyword optional andThen keepLeft keepRight
  readTy)

variable {names : String → Prop} {ts mid rest : List Lexeme} {tail : List Char} {k : Nat}

/- Parameters and bounds. -/

theorem alike_colon (h : AlikeBehind ts (lexemes tail)) :
    Alike (.mark ":" :: ts) (lexemes (':' :: ' ' :: tail)) := by
  have front : Lexeme.munch (skipBlanks (':' :: ' ' :: tail)) = some (.mark ":", ' ' :: tail) := rfl
  rw [lexemes_of_munch front, lexemes_blank rfl]
  exact .item (fun t same => by rw [← Lexeme.mark.inj same]; decide) h

theorem Phrase.Separated.ne_nil {α : Type} {d : Phrase α} {separator : String} {as : List α}
    (h : Separated d separator ts as rest) : as ≠ [] := by
  cases h <;> exact List.cons_ne_nil _ _

theorem Phrase.CommaList₁.ne_nil {α : Type} {d : Phrase α} {as : List α}
    (h : CommaList₁ d ts as rest) : as ≠ [] := by
  cases h with
  | closed items => exact items.ne_nil
  | trailing items => exact items.ne_nil

section Bounds

variable {α : Type} {d : Phrase α} {spell : α → List Char}
  (hd : Respelled k (Separated d "+") fun as => joined " + " (as.map spell))
include hd

theorem follows_optionalBounds {listed : Option (List α)} (fits : Fits k ts)
    (read : Optional (After ":" (Separated d "+")) ts listed rest) (behind : Follows rest tail) :
    Follows ts (Param.spellBounds ((listed.getD []).map spell) ++ tail) := by
  cases read with
  | absent => exact behind
  | present read =>
    cases read with
    | read listed =>
      rename_i bounds _
      have alike := alike_colon (.same (hd fits.drop listed behind))
      cases bounds with
      | nil => exact absurd rfl listed.ne_nil
      | cons b bs => exact .of_alike (c := ':') rfl alike

end Bounds

theorem respelled_lifetimeBounds (k : Nat) :
    Respelled k DerivesLifetimeBounds fun bs => joined " + " (bs.map String.toList) := by
  have spans : SpansBelow (fun _ => True) k Lifetime := fun _ _ _ _ => spans_lifetime
  exact (respelled_lifetime k).separated spans follows_plus

theorem respelled_readBounds (k : Nat) :
    Respelled k (DerivesBounds names) fun bs => joined " + " (bs.map Bound.spell) := by
  intro ts bs rest tail fits
  exact respelled_bounds (respelled_ty k) ⟨Nat.lt_succ_of_lt fits.1, fits.2⟩

theorem follows_default {default : Option Ty} (fits : Fits k ts)
    (read : Optional (After "=" (DerivesTy names .full)) ts default rest)
    (behind : Follows rest tail) :
    Follows ts (default.elim [] (fun type => " = ".toList ++ type.spell) ++ tail) := by
  cases read with
  | absent => exact behind
  | present read =>
    cases read with
    | read given =>
      have type := Follows.blank (.same (respelled_ty k .full fits.drop given behind))
      exact .blank (.same (alike_single "=" rfl rfl (by decide) type.like))

theorem respelled_param (k : Nat) : Respelled k (DerivesParam names) Param.spell := by
  intro ts param rest tail fits read behind
  cases read with
  | lifetime read listed =>
    have inner := fits.passes names (spans_lifetime read).passes
    have bounds := follows_optionalBounds (respelled_lifetimeBounds k) inner listed behind
    simpa [Param.spell] using respelled_lifetime k fits read bounds
  | @type _ _ _ _ _ _ default read listed given =>
    have inner := fits.passes names (spans_name read).passes
    have after := inner.passes _ (passes_optional (passes_after spans_bounds) listed)
    have type := follows_default after given behind
    have bounds := follows_optionalBounds (respelled_readBounds k) inner listed type
    have whole := respelled_name k fits read bounds
    cases default <;> simpa [Param.spell] using whole

theorem respelled_whereItem (k : Nat) : Respelled k (DerivesWhereItem names) Param.spell := by
  intro ts item rest tail fits read behind
  cases read with
  | lifetime read listed =>
    have inner := fits.passes names (spans_lifetime read).passes
    have bounds :=
      follows_optionalBounds (respelled_lifetimeBounds k) inner (.present listed) behind
    simpa [Param.spell] using respelled_lifetime k fits read bounds
  | type read listed =>
    have inner := fits.passes names (spans_name read).passes
    have bounds := follows_optionalBounds (respelled_readBounds k) inner (.present listed) behind
    simpa [Param.spell] using respelled_name k fits read bounds

/- The parts of a signature. -/

theorem spansBelow_param (k : Nat) : SpansBelow names k (DerivesParam names) :=
  fun _ _ _ _ => spans_param

theorem spansBelow_whereItem (k : Nat) : SpansBelow names k (DerivesWhereItem names) :=
  fun _ _ _ _ => spans_whereItem

/-- An empty generic list is not written: without its brackets the input is as good. -/
theorem follows_generics {opened typed : List Lexeme} {params : Option (List Param)}
    (fits : Fits k opened) (read : Optional (DerivesGenerics names) opened params typed)
    (first : mark "<" typed = none) (behind : AlikeBehind typed (lexemes tail)) :
    ∃ bare, Follows bare (Signature.spellGenerics (params.getD []) ++ ' ' :: tail) ∧
      (bare = opened ∨ opened = .mark "<" :: .mark ">" :: bare ∧ mark "<" bare = none) := by
  have spaced := Follows.blank behind
  cases read with
  | absent => exact ⟨opened, spaced, .inl rfl⟩
  | present read =>
    cases read with
    | read listed =>
      rename_i params inner
      have closed : Alike (.mark ">" :: typed) (lexemes ('>' :: ' ' :: tail)) :=
        alike_single ">" rfl rfl (by decide) spaced.like
      have alike := (respelled_param k).commaList (spansBelow_param k) fits.drop listed .angle
        (.cons rfl _) closed
      have whole := alike_opening "<" (by decide) alike
      cases params with
      | nil =>
        cases listed with
        | empty => exact ⟨typed, spaced, .inr ⟨rfl, first⟩⟩
        | items some => exact absurd rfl some.ne_nil
      | cons p ps =>
        have shown : Follows _ _ := .of_alike (c := '<') rfl whole
        exact ⟨_, by simpa [Signature.spellGenerics] using shown, .inl rfl⟩

theorem follows_where {clause : Option (List Param)} (fits : Fits k ts)
    (read : Optional (DerivesWhere names) ts clause []) :
    Follows ts (clause.elim [] fun items =>
      " where ".toList ++ joined ", " (items.map Param.spell)) := by
  cases read with
  | absent => exact .nil
  | present read =>
    cases read with
    | read listed =>
      have items := (respelled_whereItem k).commaList (spansBelow_whereItem k)
        fits.drop listed .nil .nil .nil
      have word := alike_word fits.formed (.blank (.same items))
      rw [List.append_nil] at word
      exact .blank (.same word)

/- Without the brackets of an empty generic list. -/

section Brackets

variable (full : Reader Ty) {typed : List Lexeme} (bare : mark "<" typed = none)
include bare

theorem optionalGenerics_brackets :
    optional (Reader.generics full) (.mark "<" :: .mark ">" :: typed) = some (some [], typed) ∧
      optional (Reader.generics full) typed = some (none, typed) := by
  have empty : Reader.generics full (.mark "<" :: .mark ">" :: typed) = some ([], typed) :=
    Reader.between_eq_some.2 ⟨_, rfl, Reader.list_of_none (Reader.failsAtClose_param .angle)⟩
  have missing : Reader.generics full typed = none := by
    simp only [Reader.generics, Reader.between, keepLeft, keepRight, Reader.map, andThen, bare]
  exact ⟨Reader.optional_eq_some.2 (.inl ⟨_, rfl, empty⟩),
    Reader.optional_eq_some.2 (.inr ⟨rfl, missing, rfl⟩)⟩

theorem traitSignature_brackets (front : List Lexeme) (marked : Option Unit)
    (read : ∀ inner, ((optional (keyword "unsafe")).keepLeft (keyword "impl"))
      (front ++ .word "impl" :: inner) = some (marked, inner)) :
    Reader.traitSignature full (front ++ .word "impl" :: .mark "<" :: .mark ">" :: typed) =
      Reader.traitSignature full (front ++ .word "impl" :: typed) := by
  obtain ⟨listed, absent⟩ := optionalGenerics_brackets full bare
  unfold Reader.traitSignature Reader.traitHead
  generalize (optional (keyword "unsafe")).keepLeft (keyword "impl") = opening at read ⊢
  simp only [Reader.map, keepLeft, andThen, read, listed, absent]
  -- From here on both readers read the same, and the two lists of parameters are both empty.
  rcases optional (mark "!") typed with _ | ⟨negation, named⟩
  · rfl
  dsimp only
  rcases Reader.typePath full named with _ | ⟨path, left⟩
  · rfl
  dsimp only
  rcases keyword "for" left with _ | ⟨_, self⟩
  · rfl
  dsimp only
  rcases full self with _ | ⟨type, after⟩
  · rfl
  dsimp only
  rcases optional (Reader.whereClause full) after with _ | ⟨clause, rest⟩ <;> rfl

theorem inherentSignature_brackets :
    Reader.inherentSignature full (.word "impl" :: .mark "<" :: .mark ">" :: typed) =
      Reader.inherentSignature full (.word "impl" :: typed) := by
  obtain ⟨listed, absent⟩ := optionalGenerics_brackets full bare
  have impl (inner : List Lexeme) : keyword "impl" (.word "impl" :: inner) = some ((), inner) :=
    Reader.keyword_eq_some.2 rfl
  unfold Reader.inherentSignature
  simp only [Reader.map, keepRight, andThen, impl, listed, absent]
  rcases full typed with _ | ⟨type, after⟩
  · rfl
  dsimp only
  rcases optional (Reader.whereClause full) after with _ | ⟨clause, rest⟩ <;> rfl

theorem implementation_brackets {front : List Lexeme}
    (opens : front = [] ∨ front = [.word "unsafe"]) :
    Reader.implementation full (front ++ .word "impl" :: .mark "<" :: .mark ">" :: typed) =
      Reader.implementation full (front ++ .word "impl" :: typed) := by
  rcases opens with rfl | rfl
  · have trait := traitSignature_brackets full bare [] none fun _ => rfl
    have inherent := inherentSignature_brackets full bare
    simp only [Reader.implementation, Reader.orElse, List.nil_append] at trait ⊢
    rw [trait, inherent]
  · have trait := traitSignature_brackets full bare [.word "unsafe"] (some ()) fun _ => rfl
    simp only [Reader.implementation, Reader.orElse] at trait ⊢
    rw [trait]
    rfl

end Brackets

/- No path and no type begins with a bracket of a generic list. -/

theorem bare_segments {name : String} (h : DerivesSegments names ts name rest) :
    mark "<" ts = none := by
  cases h with
  | read parted => cases parted with
    | last only => cases only <;> rfl
    | more first others => cases first <;> rfl

theorem bare_path {p : TypePath} (h : DerivesPath names ts p rest) : mark "<" ts = none := by
  cases h with
  | fn modifiers segments parameters result =>
    cases modifiers with
    | none => exact bare_segments segments
    | more modifier others => rcases modifier with rfl | rfl | rfl <;> rfl
  | plain segments args => exact bare_segments segments

theorem bare_ty {spot : Spot} {t : Ty} (h : DerivesTy names spot ts t rest) :
    mark "<" ts = none := by
  have plain {ts : List Lexeme} {t : Ty} (h : DerivesTy names .plain ts t rest) :
      mark "<" ts = none := by
    cases h with
    | path read => exact bare_path read
    | _ => rfl
  cases spot with
  | plain => exact plain h
  | full =>
    cases h with
    | bounded bounds several => rfl
    | unbounded read => exact plain read

/- Whole signatures. -/

theorem alike_implementation (full : Reader Ty) {opened bare : List Lexeme} {marked : Option Unit}
    (opens : Optional (Token (.word "unsafe")) ts marked (.word "impl" :: opened))
    (same : bare = opened ∨ opened = .mark "<" :: .mark ">" :: bare ∧ mark "<" bare = none)
    (behind : Follows bare tail) :
    ∃ us, Reader.implementation full us = Reader.implementation full ts ∧
      Alike us (lexemes ((if marked.isSome then "unsafe ".toList else []) ++
        ("impl".toList ++ tail))) := by
  have formed (text : String) (some : text.toList ≠ [])
      (chars : text.toList.all isWordChar = true) : (Lexeme.word text).Formed :=
    ⟨some, List.all_eq_true.1 chars⟩
  have impl := alike_word (formed "impl" (by decide) (by decide)) behind
  cases opens with
  | absent =>
    refine ⟨.word "impl" :: bare, ?_, impl⟩
    rcases same with rfl | ⟨rfl, first⟩
    · rfl
    · exact (implementation_brackets full first (.inl rfl)).symm
  | present read =>
    cases read
    refine ⟨.word "unsafe" :: .word "impl" :: bare, ?_, ?_⟩
    · rcases same with rfl | ⟨rfl, first⟩
      · rfl
      · exact (implementation_brackets full first (.inr rfl)).symm
    · exact alike_word (formed "unsafe" (by decide) (by decide)) (.blank (.same impl))

theorem alike_body {self after : List Lexeme} {t : Ty} {clause : Option (List Param)}
    (fits : Fits k self) (type : DerivesTy names .full self t after)
    («where» : Optional (DerivesWhere names) after clause []) :
    Alike self (lexemes (t.spell ++ clause.elim [] fun items =>
      " where ".toList ++ joined ", " (items.map Param.spell))) :=
  respelled_ty k .full fits type (follows_where (fits.passes _ (spans_ty type).passes) «where»)

theorem alike_head {typed named self : List Lexeme} {negation : Option Unit} {p : TypePath}
    (fits : Fits k typed) (negated : Optional (Token (.mark "!")) typed negation named)
    (path : DerivesPath names named p (.word "for" :: self))
    (behind : Fits k self → Alike self (lexemes tail)) :
    Alike typed (lexemes ((if negation.isSome then ['!'] else []) ++
      (p.spell ++ (" for ".toList ++ tail)))) := by
  have named_fits : Fits k named := fits.passes names (passes_optional passes_mark negated)
  have deeper : Fits (k + 1) named := ⟨Nat.lt_succ_of_lt named_fits.1, named_fits.2⟩
  have spans := spans_path (fun spot => spansBelow_ty k spot) deeper.1 path
  have word_fits := named_fits.passes _ spans.passes
  have word := alike_word word_fits.formed (.blank (.same (behind word_fits.drop)))
  have alike := respelled_path (respelled_ty k) deeper path (.blank (.same word))
  cases negated with
  | absent => exact alike
  | present read =>
    cases read
    exact alike_single "!" rfl rfl (by decide) (.same alike)

theorem spell_traitRef (d : Signature) {p : TypePath} (h : d.traitRef = some p) :
    d.spell = (if d.isUnsafe then "unsafe ".toList else []) ++ ("impl".toList ++
      (Signature.spellGenerics d.generics ++ ' ' :: ((if d.negated then ['!'] else []) ++
        (p.spell ++ (" for ".toList ++ (d.selfTy.spell ++ d.whereClause.elim [] fun items =>
          " where ".toList ++ joined ", " (items.map Param.spell))))))) := by
  unfold Signature.spell
  rw [h]
  cases d.whereClause <;>
    simp only [List.append_assoc, List.cons_append, List.nil_append, Option.elim]

/-- A signature has, up to the brackets of an empty generic list, lexemes like those of its
canonical text. -/
theorem respelled_signature (full : Reader Ty) {d : Signature}
    (h : DerivesSignature names ts d []) (formed : ∀ l ∈ ts, l.Formed) :
    ∃ us, Reader.implementation full us = Reader.implementation full ts ∧
      Alike us (lexemes d.spell) := by
  have fits : Fits (ts.length + 1) ts := ⟨Nat.lt_succ_self _, formed⟩
  cases h with
  | @trait _ opened typed _ _ _ _ _ _ _ _ _ _ opens generics negated path type «where» =>
    have opened_fits : Fits (ts.length + 1) opened := by
      cases opens with
      | absent => exact fits.drop
      | present read => cases read; exact fits.drop.drop
    have typed_fits := opened_fits.passes _ (passes_optional passes_generics generics)
    have first : mark "<" typed = none := by
      cases negated with
      | absent => exact bare_path path
      | present read => cases read; rfl
    have head := alike_head typed_fits negated path fun inner => alike_body inner type «where»
    obtain ⟨bare, behind, same⟩ := follows_generics opened_fits generics first (.same head)
    obtain ⟨us, read, alike⟩ := alike_implementation full opens same behind
    refine ⟨us, read, ?_⟩
    rw [spell_traitRef _ rfl]
    exact alike
  | @inherent _ _ _ _ _ _ clause generics type «where» =>
    have typed_fits := fits.drop.passes _ (passes_optional passes_generics generics)
    have body := alike_body typed_fits type «where»
    obtain ⟨bare, behind, same⟩ := follows_generics fits.drop generics (bare_ty type) (.same body)
    obtain ⟨us, read, alike⟩ := alike_implementation full .absent same behind
    refine ⟨us, read, ?_⟩
    cases clause <;> simpa [Signature.spell] using alike

/- Reading the canonical text. -/

theorem read_again {α : Type} {p : Reader α} {us vs : List Lexeme} {a : α}
    (related : ∀ k, RelatedBelow k AlikeBehind AlikeBehind p p) (alike : Alike us vs)
    (read : p us = some (a, [])) : p vs = some (a, []) := by
  have outcome := related (us.length + vs.length + 1) (by omega) (by omega) (.same alike)
  rw [read] at outcome
  rcases outcome.elim with ⟨missing, _⟩ | ⟨_, left, left', found, again, like⟩
  · cases missing
  · obtain ⟨rfl, rfl⟩ := Prod.mk.inj (Option.some.inj found)
    rw [again, like.nil_left]

/-- A signature that is read from a text, and a type, are read from their canonical texts. -/
theorem reprinted_text_read_again :
    (∀ (text : String) (d : Signature), Signature.ofText text = .ok d →
      Signature.ofText d.render = .ok d) ∧
    (∀ (text : String) (t : Ty), Ty.ofText text = .ok t → Ty.ofText t.render = .ok t) := by
  constructor
  · intro text d parsed
    have read := signatureOfText_iff.1 parsed
    obtain ⟨us, same, alike⟩ := respelled_signature (readTy .full)
      (Reader.implementation_sound read) fun l mem => formed_of_mem_lexemes mem
    rw [← same] at read
    apply signatureOfText_iff.2
    rw [Signature.render, String.toList_ofList]
    have related (k : Nat) :=
      Reader.related_implementation (Reader.nested_readTy_self (L := .reprinted) k .full)
    exact read_again related alike read
  · intro text t parsed
    have read := typeOfText_iff.1 parsed
    have fits : Fits ((lexemes text.toList).length + 1) (lexemes text.toList) :=
      ⟨Nat.lt_succ_self _, fun l mem => formed_of_mem_lexemes mem⟩
    have alike := respelled_ty _ .full fits (Reader.readTy_sound read) .nil
    rw [List.append_nil] at alike
    apply typeOfText_iff.2
    rw [Ty.render, String.toList_ofList]
    have related (k : Nat) := (Reader.nested_readTy_self (L := .reprinted) k .full).related
    exact read_again related alike read

/-- The brackets of an empty list, zeros in front of a length and the last comma are not kept. -/
theorem loose_text_read_again :
    (∃ d, Signature.ofText "impl<> A<(u8,),> for [T; 007] where" = .ok d ∧
      d.render = "impl A<(u8,)> for [T; 7] where " ∧ Signature.ofText d.render = .ok d) ∧
    ∃ t, Ty.ofText "(&'a mut B,)" = .ok t ∧
      t.render = "(&'a mut B,)" ∧ Ty.ofText t.render = .ok t := by
  constructor
  · let d : Signature :=
      { generics := []
        isUnsafe := false
        negated := false
        traitRef := some (.plain "A" (some [.type (.tuple [.path (.plain "u8" none)])]))
        selfTy := .array (.path (.plain "T" none)) 7
        whereClause := some [] }
    have read : Signature.ofText "impl<> A<(u8,),> for [T; 007] where" = .ok d := rfl
    exact ⟨d, read, by decide +kernel, reprinted_text_read_again.1 _ _ read⟩
  · let t : Ty := .tuple [.reference (some "'a") true (.path (.plain "B" none))]
    have read : Ty.ofText "(&'a mut B,)" = .ok t := rfl
    exact ⟨t, read, by decide +kernel, reprinted_text_read_again.2 _ _ read⟩

end ImplFamilies.Grammar
