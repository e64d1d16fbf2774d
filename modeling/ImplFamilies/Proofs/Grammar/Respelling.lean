import ImplFamilies.Proofs.Grammar.Alike
import ImplFamilies.Proofs.Grammar.Extent
import ImplFamilies.Signature.Printer

/-!
The canonical text of what a phrase stands for has lexemes like those of the phrase, in front of
whatever is like what stands behind the phrase.
-/

namespace ImplFamilies.Grammar

open Phrase Text
open Reader (Alike AlikeBehind Closes)

variable {names : String → Prop} {ts mid rest : List Lexeme} {tail : List Char}

structure Follows (rest : List Lexeme) (tail : List Char) : Prop where
  detached : Detached tail
  like : AlikeBehind rest (lexemes tail)

def Fits (k : Nat) (ts : List Lexeme) : Prop :=
  ts.length < k ∧ ∀ l ∈ ts, l.Formed

theorem Fits.suffix {k : Nat} (h : Fits k ts) (suffix : mid <:+ ts) : Fits k mid :=
  ⟨Nat.lt_of_le_of_lt suffix.length_le h.1, fun l mem => h.2 l (suffix.subset mem)⟩

theorem Fits.shorter {k : Nat} (h : Fits (k + 1) ts) (suffix : mid <:+ ts)
    (shorter : mid.length < ts.length) : Fits k mid :=
  ⟨Nat.lt_of_lt_of_le shorter (Nat.lt_succ_iff.1 h.1), (h.suffix suffix).2⟩

theorem Fits.passes (names : String → Prop) {k : Nat} (h : Fits k ts)
    (passes : Passes names ts mid) : Fits k mid :=
  h.suffix passes.suffix

theorem Fits.spans {k : Nat} (h : Fits (k + 1) ts) (spans : Spans names ts mid) : Fits k mid := by
  have shorter := spans.length_lt
  have short := h.1
  exact ⟨by omega, (h.passes _ spans.passes).2⟩

theorem Fits.behind {k : Nat} {l : Lexeme} (h : Fits (k + 1) (l :: ts)) : Fits k ts :=
  ⟨Nat.lt_of_succ_lt_succ h.1, fun l mem => h.2 l (List.mem_cons_of_mem _ mem)⟩

theorem Fits.drop {k : Nat} {l : Lexeme} (h : Fits k (l :: ts)) : Fits k ts :=
  h.suffix (List.suffix_cons _ _)

theorem Fits.formed {k : Nat} {l : Lexeme} (h : Fits k (l :: ts)) : l.Formed :=
  h.2 l List.mem_cons_self

/- One lexeme more in front. -/

theorem alike_opening (text : String) (opens : text ∈ ["(", "<", ","])
    (h : Alike ts (lexemes tail)) : Alike (.mark text :: ts) (lexemes (text.toList ++ tail)) := by
  have known : ∀ t ∈ ["(", "<", ","], isSingle t = true ∧ t.toList.any isBlank = false := by decide
  obtain ⟨single, visible⟩ := known text opens
  rw [lexemes_mark text (isMark_of_isSingle single) visible]
  exact .opening opens h

theorem alike_mark (text : String) (mark : IsMark text.toList)
    (visible : text.toList.any isBlank = false) (other : text ∉ ["(", "<", ",", ";"])
    (h : AlikeBehind ts (lexemes tail)) :
    Alike (.mark text :: ts) (lexemes (text.toList ++ tail)) := by
  rw [lexemes_mark text mark visible]
  refine .item (fun t same => ?_) h
  rw [← Lexeme.mark.inj same]
  exact other

theorem alike_single (text : String) (single : isSingle text = true)
    (visible : text.toList.any isBlank = false) (other : text ∉ ["(", "<", ",", ";"])
    (h : AlikeBehind ts (lexemes tail)) :
    Alike (.mark text :: ts) (lexemes (text.toList ++ tail)) :=
  alike_mark text (isMark_of_isSingle single) visible other h

theorem alike_word {text : String} (formed : (Lexeme.word text).Formed) (h : Follows ts tail) :
    Alike (.word text :: ts) (lexemes (text.toList ++ tail)) := by
  rw [lexemes_word_append formed h.detached]
  exact .item (fun t same => nomatch same) h.like

theorem alike_lifetime {text : String} (formed : (Lexeme.lifetime text).Formed)
    (h : Follows ts tail) :
    Alike (.lifetime text :: ts) (lexemes (text.toList ++ tail)) := by
  rw [lexemes_lifetime_append formed h.detached]
  exact .item (fun t same => nomatch same) h.like

theorem Detached.nil : Detached [] :=
  fun _ mem => nomatch mem

theorem Follows.nil : Follows [] [] :=
  ⟨.nil, .same .nil⟩

theorem Detached.cons {c : Char} (other : isWordChar c = false) (cs : List Char) :
    Detached (c :: cs) :=
  fun d mem => by rw [← Option.mem_some.1 mem]; exact other

theorem Follows.of_alike {c : Char} (other : isWordChar c = false)
    (h : Alike ts (lexemes (c :: tail))) : Follows ts (c :: tail) :=
  ⟨.cons other tail, .same h⟩

theorem Follows.blank (h : AlikeBehind ts (lexemes tail)) : Follows ts (' ' :: tail) :=
  ⟨.cons rfl tail, by rwa [lexemes_blank rfl]⟩

theorem follows_closing (closing : String) (closes : closing ∈ [")", ">", "]"])
    (h : AlikeBehind ts (lexemes tail)) :
    Follows (.mark closing :: ts) (closing.toList ++ tail) := by
  simp only [List.mem_cons, List.not_mem_nil, or_false] at closes
  rcases closes with rfl | rfl | rfl <;>
    exact .of_alike (by decide) (alike_single _ rfl rfl (by decide) h)

/- Phrases and the texts of their values. -/

section Combinators

variable {α : Type} {k : Nat} {d : Phrase α} {spell : α → List Char}

def Respelled (k : Nat) (d : Phrase α) (spell : α → List Char) : Prop :=
  ∀ ⦃ts a rest tail⦄, Fits k ts → d ts a rest → Follows rest tail →
    Alike ts (lexemes (spell a ++ tail))

theorem Respelled.separated {separator between : String} (h : Respelled k d spell)
    (spans : SpansBelow names k d)
    (written : ∀ {rest tail}, Alike rest (lexemes tail) →
      Follows (.mark separator :: rest) (between.toList ++ tail)) :
    Respelled k (Separated d separator) fun as => joined between (as.map spell) := by
  intro ts as rest tail fits read behind
  induction read with
  | last only =>
    simp only [List.map_singleton, joined_singleton]
    exact h fits only behind
  | @more ts mid rest a as first others ih =>
    have front := fits.passes _ (spans fits.1 first).passes
    have alike := ih front.drop behind
    cases as with
    | nil => cases others
    | cons b bs =>
      simp only [List.map_cons, joined_cons_cons, List.append_assoc] at alike ⊢
      exact h fits first (written alike)

theorem follows_comma (h : Alike ts (lexemes tail)) :
    Follows (.mark "," :: ts) (", ".toList ++ tail) := by
  have spaced : Alike ts (lexemes (' ' :: tail)) := by rwa [lexemes_blank rfl]
  exact .of_alike (by decide) (alike_opening "," (by decide) spaced)

theorem follows_plus (h : Alike ts (lexemes tail)) :
    Follows (.mark "+" :: ts) (" + ".toList ++ tail) := by
  have spaced : AlikeBehind ts (lexemes (' ' :: tail)) := by rw [lexemes_blank rfl]; exact .same h
  exact .blank (.same (alike_single "+" rfl rfl (by decide) spaced))

theorem follows_colons (h : Alike ts (lexemes tail)) :
    Follows (.mark "::" :: ts) ("::".toList ++ tail) :=
  .of_alike (by decide) (alike_mark "::" (isMark_of_long (by decide)) rfl (by decide) (.same h))

theorem Respelled.commaList₁ (h : Respelled k d spell) (spans : SpansBelow names k d)
    {as : List α} (fits : Fits k ts) (read : CommaList₁ d ts as rest) (closes : Closes rest)
    (detached : Detached tail) (behind : Alike rest (lexemes tail)) :
    Alike ts (lexemes (joined ", " (as.map spell) ++ tail)) := by
  have listed := h.separated spans follows_comma
  cases read with
  | closed items => exact listed fits items ⟨detached, .same behind⟩
  | trailing items => exact listed fits items ⟨detached, .left behind closes⟩

theorem Respelled.commaList (h : Respelled k d spell) (spans : SpansBelow names k d)
    {as : List α} (fits : Fits k ts) (read : CommaList d ts as rest) (closes : Closes rest)
    (detached : Detached tail) (behind : Alike rest (lexemes tail)) :
    Alike ts (lexemes (joined ", " (as.map spell) ++ tail)) := by
  cases read with
  | empty => exact behind
  | items some => exact h.commaList₁ spans fits some closes detached behind

theorem Follows.comma (h : Alike (.mark ")" :: rest) (lexemes tail)) :
    Follows (.mark ")" :: rest) (',' :: tail) := by
  have read : lexemes (',' :: tail) = .mark "," :: lexemes tail :=
    lexemes_mark "," (isMark_of_isSingle rfl) rfl tail
  exact ⟨.cons rfl tail, by rw [read]; exact .right h⟩

theorem Respelled.oneItem (h : Respelled k d spell) {a : α} (fits : Fits k ts)
    (read : CommaList d ts [a] (.mark ")" :: rest)) (behind : AlikeBehind rest (lexemes tail)) :
    Alike ts (lexemes (spell a ++ ',' :: ')' :: tail)) := by
  have closed : Alike (.mark ")" :: rest) (lexemes (')' :: tail)) :=
    alike_single ")" rfl rfl (by decide) behind
  have comma : Alike (.mark "," :: .mark ")" :: rest) (lexemes (',' :: ')' :: tail)) :=
    alike_opening "," (by decide) closed
  cases read with
  | items some =>
    cases some with
    | closed items =>
      cases items with
      | last only => exact h fits only (.comma closed)
      | more first others => cases others
    | trailing items =>
      cases items with
      | last only => exact h fits only (.of_alike (by decide) comma)
      | more first others => cases others

end Combinators

/- Names, modifiers and numbers. -/

theorem respelled_lifetime (k : Nat) : Respelled k Lifetime String.toList := by
  intro ts name rest tail fits read behind
  cases read
  exact alike_lifetime fits.formed behind

theorem respelled_name (k : Nat) : Respelled k (DerivesName names) String.toList := by
  intro ts name rest tail fits read behind
  cases read with
  | word named => exact alike_word fits.formed behind
  | dots => exact alike_mark "..." (isMark_of_long (by decide)) rfl (by decide) behind.like

theorem respelled_segments (k : Nat) : Respelled k (DerivesSegments names) String.toList := by
  intro ts name rest tail fits read behind
  cases read with
  | read parted =>
    have spans : SpansBelow names k (DerivesName names) := fun _ _ _ _ => spans_name
    have alike := (respelled_name k).separated spans follows_colons fits parted behind
    rwa [joinedWords, String.toList_ofList]

def spacedWords (words : List String) : List Char :=
  words.flatMap fun word => word.toList ++ [' ']

theorem joined_blank (word : String) (words : List String) :
    joined " " ((word :: words).map String.toList) ++ [' '] = spacedWords (word :: words) := by
  induction words generalizing word with
  | nil => simp [spacedWords]
  | cons next words ih =>
    have others := ih next
    simp only [List.map_cons, joined_cons_cons, spacedWords, List.flatMap_cons,
      List.append_assoc] at others ⊢
    rw [others]
    rfl

theorem modifier_ne_nil {words : List String} (h : Modifiers ts words rest) :
    ∀ word ∈ words, word.toList ≠ [] := by
  induction h with
  | none => exact fun _ mem => nomatch mem
  | more modifier others ih =>
    refine List.forall_mem_cons.2 ⟨?_, ih⟩
    rcases modifier with rfl | rfl | rfl <;> decide

theorem modifiers_spelled {words : List String} (h : Modifiers ts words rest) :
    (if joinedWords " " words = "" then [] else (joinedWords " " words).toList ++ [' ']) =
      spacedWords words := by
  cases words with
  | nil => rfl
  | cons word words =>
    have some : joinedWords " " (word :: words) ≠ "" := by
      intro empty
      have spelled := joined_blank word words
      have nothing : joined " " ((word :: words).map String.toList) = [] := by
        rw [← String.toList_ofList (l := joined _ _), ← joinedWords, empty]
        rfl
      rw [nothing] at spelled
      cases shape : word.toList with
      | nil => exact modifier_ne_nil h word List.mem_cons_self shape
      | cons c cs => simp [spacedWords, shape] at spelled
    rw [if_neg some, joinedWords, String.toList_ofList]
    exact joined_blank word words

theorem alike_modifiers {k : Nat} {words : List String} (fits : Fits k ts)
    (h : Modifiers ts words mid) (behind : Alike mid (lexemes tail)) :
    Alike ts (lexemes (spacedWords words ++ tail)) := by
  induction h with
  | none => exact behind
  | @more l _ _ words modifier others ih =>
    have alike := Follows.blank (.same (ih fits.drop behind))
    have spelled : spacedWords (l.text :: words) ++ tail =
        l.text.toList ++ ' ' :: (spacedWords words ++ tail) := by simp [spacedWords]
    rw [spelled]
    rcases modifier with rfl | rfl | rfl
    · exact alike_word fits.formed alike
    · exact alike_word fits.formed alike
    · exact alike_mark _ (isMark_of_long (by decide)) rfl (by decide) alike.like

theorem alike_size {size : UInt64} (h : Size mid size (.mark "]" :: rest))
    (behind : AlikeBehind rest (lexemes tail)) :
    Alike (.mark ";" :: mid)
      (lexemes (';' :: ' ' :: (Nat.toDigits 10 size.toNat ++ ']' :: tail))) := by
  have digit : ∀ c ∈ Nat.toDigits 10 size.toNat, c.isDigit = true := fun c mem =>
    Nat.isDigit_of_mem_toDigits (by decide) (by decide) mem
  have closed : Follows (.mark "]" :: rest) (']' :: tail) := follows_closing "]" (by decide) behind
  have formed : (Lexeme.word (String.ofList (Nat.toDigits 10 size.toNat))).Formed := by
    constructor
    · rw [String.toList_ofList]
      exact Nat.toDigits_ne_nil
    · rw [String.toList_ofList]
      intro c mem
      simp [isWordChar, Char.isAlphanum, digit c mem]
  have number := lexemes_word_append formed closed.detached
  rw [String.toList_ofList] at number
  have read : lexemes (';' :: ' ' :: (Nat.toDigits 10 size.toNat ++ ']' :: tail)) =
      .mark ";" :: lexemes (' ' :: (Nat.toDigits 10 size.toNat ++ ']' :: tail)) :=
    lexemes_mark ";" (isMark_of_isSingle rfl) rfl _
  rw [read, lexemes_blank rfl, number]
  cases h with
  | read digits value =>
    refine .length rfl digits ?_ ?_ closed.like
    · rw [String.toList_ofList]
      exact List.all_eq_true.2 digit
    · rw [String.toList_ofList, value]
      exact (Nat.ofDigitChars_ten_toDigits).symm

theorem alike_optionalLifetime {k : Nat} {name : Option String} (fits : Fits k ts)
    (lifetime : Optional Lifetime ts name mid) (behind : AlikeBehind mid (lexemes tail)) :
    AlikeBehind ts (lexemes (name.elim [] (fun name => name.toList ++ [' ']) ++ tail)) := by
  cases lifetime with
  | absent => exact behind
  | present read =>
    have named := respelled_lifetime k fits read (.blank behind)
    simpa using AlikeBehind.same named

/- Types, on the assumption that nested types are spelled so. -/

section Types

variable {k : Nat} (hk : ∀ spot, Respelled k (DerivesTy names spot) Ty.spell)
include hk

theorem respelled_arg : Respelled k (DerivesArg names) Arg.spell := by
  intro ts a rest tail fits read behind
  cases read with
  | lifetime read => exact respelled_lifetime k fits read behind
  | type read => exact hk .full fits read behind

theorem alike_args {as : List Arg} (fits : Fits (k + 1) ts) (read : DerivesArgs names ts as rest)
    (behind : AlikeBehind rest (lexemes tail)) :
    Alike ts (lexemes ('<' :: (joined ", " (as.map Arg.spell) ++ '>' :: tail))) := by
  have closed : Alike (.mark ">" :: rest) (lexemes ('>' :: tail)) :=
    alike_single ">" rfl rfl (by decide) behind
  have detached : Detached ('>' :: tail) := .cons rfl tail
  cases read with
  | empty => exact alike_opening "<" (by decide) closed
  | items some =>
    have spans : SpansBelow names k (DerivesArg names) :=
      spansBelow_arg fun spot => spansBelow_ty k spot
    have listed := (respelled_arg hk).commaList₁ spans fits.behind some .angle detached closed
    exact alike_opening "<" (by decide) listed

theorem respelled_path : Respelled (k + 1) (DerivesPath names) TypePath.spell := by
  intro ts p rest tail fits read behind
  cases read with
  | @fn _ _ _ left _ words name inputs output modifiers segments parameters result =>
    have named := fits.passes names (passes_modifiers modifiers)
    have opened := (named.spans (spans_segments segments)).drop
    have closed := (opened.passes _ ((spansBelow_ty k .full).commaList opened.1 parameters)).drop
    have called {more : List Char} (h : Follows left more) :
        Alike ts (lexemes
          (spellCall (joinedWords " " words) name (inputs.map Ty.spell) ++ more)) := by
      have bracket : Alike (.mark ")" :: left) (lexemes (')' :: more)) :=
        alike_single ")" rfl rfl (by decide) h.like
      have listed := (hk .full).commaList (spansBelow_ty k .full) opened parameters .round
        (.cons rfl more) bracket
      have front := respelled_segments (k + 1) named segments
        (.of_alike (c := '(') rfl (alike_opening "(" (by decide) listed))
      have whole := alike_modifiers fits modifiers front
      rw [spellCall, modifiers_spelled modifiers]
      simpa using whole
    cases result with
    | absent => simpa [TypePath.spell] using called behind
    | present read =>
      cases read with
      | read output =>
        have type := Follows.blank (.same (hk .full closed.drop output behind))
        have arrow := alike_mark "->" (isMark_of_long (by decide)) rfl (by decide) type.like
        simpa [TypePath.spell] using called (.blank (.same arrow))
  | @plain _ mid _ name as segments args =>
    cases args with
    | absent => exact respelled_segments (k + 1) fits segments behind
    | present read =>
      have front := fits.passes _ (spans_segments segments).passes
      have alike := alike_args hk front read behind.like
      have whole := respelled_segments (k + 1) fits segments (.of_alike (by decide) alike)
      simpa [TypePath.spell] using whole

theorem respelled_traitBound : Respelled (k + 1) (DerivesTraitBound names) TraitBound.spell := by
  intro ts b rest tail fits read behind
  cases read with
  | read mark path =>
    cases mark with
    | absent => simpa [TraitBound.spell] using respelled_path hk fits path behind
    | present mark =>
      cases mark
      have alike := respelled_path hk fits.drop path behind
      exact alike_single "?" rfl rfl (by decide) (.same alike)

theorem respelled_bounds :
    Respelled (k + 1) (DerivesBounds names) fun bs => joined " + " (bs.map Bound.spell) := by
  have item : Respelled (k + 1) (DerivesBound names) Bound.spell := by
    intro ts b rest tail fits read behind
    cases read with
    | lifetime read => exact respelled_lifetime (k + 1) fits read behind
    | trait read => exact respelled_traitBound hk fits read behind
  exact item.separated (spansBelow_bound fun spot => spansBelow_ty k spot) follows_plus

theorem alike_reference {name : Option String} {mutable : Option Unit} {x : Ty}
    {after : List Lexeme} (fits : Fits k ts) (lifetime : Optional Lifetime ts name mid)
    («mut» : Optional (Token (.word "mut")) mid mutable after)
    (element : DerivesTy names .plain after x rest) (behind : Follows rest tail) :
    Alike (.mark "&" :: ts) (lexemes ((Ty.reference name mutable.isSome x).spell ++ tail)) := by
  have inner : Fits k mid :=
    fits.passes names (passes_optional (fun read => (spans_lifetime read).passes) lifetime)
  have front {more : List Char} (h : Alike mid (lexemes more)) :=
    alike_single "&" rfl rfl (by decide) (alike_optionalLifetime fits lifetime (.same h))
  cases «mut» with
  | absent =>
    have whole := front (hk .plain inner element behind)
    cases name <;> simpa [Ty.spell] using whole
  | present read =>
    cases read
    have type := hk .plain inner.drop element behind
    have whole := front (alike_word inner.formed (.blank (.same type)))
    cases name <;> simpa [Ty.spell] using whole

theorem alike_tuple {xs : List Ty} (fits : Fits k ts)
    (elements : CommaList (DerivesTy names .full) ts xs (.mark ")" :: rest))
    (behind : AlikeBehind rest (lexemes tail)) :
    Alike (.mark "(" :: ts) (lexemes ((Ty.tuple xs).spell ++ tail)) := by
  by_cases one : xs.length = 1
  · obtain ⟨x, rfl⟩ := List.length_eq_one_iff.1 one
    have listed := (hk .full).oneItem fits elements behind
    have whole := alike_opening "(" (by decide) listed
    simpa [Ty.spell] using whole
  · have bracket : Alike (.mark ")" :: rest) (lexemes (')' :: tail)) :=
      alike_single ")" rfl rfl (by decide) behind
    have listed := (hk .full).commaList (spansBelow_ty k .full) fits elements .round
      (.cons rfl tail) bracket
    have whole := alike_opening "(" (by decide) listed
    simpa [Ty.spell, one] using whole

theorem alike_pointer (mutable : Bool) {x : Ty}
    (fits : Fits (k + 1) (.mark "*" :: .word (pointerWord mutable) :: ts))
    (element : DerivesTy names .plain ts x rest) (behind : Follows rest tail) :
    Alike (.mark "*" :: .word (pointerWord mutable) :: ts)
      (lexemes ((Ty.pointer mutable x).spell ++ tail)) := by
  have type := hk .plain fits.behind.drop element behind
  have word := alike_word fits.behind.formed (.blank (.same type))
  have whole := alike_single "*" rfl rfl (by decide) (.same word)
  simpa [Ty.spell] using whole

theorem respelled_plain : Respelled (k + 1) (DerivesTy names .plain) Ty.spell := by
  intro ts t rest tail fits read behind
  cases read with
  | never => exact alike_single "!" rfl rfl (by decide) behind.like
  | path read => exact respelled_path hk fits read behind
  | tuple elements => exact alike_tuple hk fits.behind elements behind.like
  | array element length =>
    have size := Follows.of_alike rfl (alike_size length behind.like)
    have type := hk .full fits.behind element size
    have whole := alike_single "[" rfl rfl (by decide) (.same type)
    simpa [Ty.spell] using whole
  | slice element =>
    have closed := follows_closing "]" (by decide) behind.like
    have type := hk .full fits.behind element closed
    have whole := alike_single "[" rfl rfl (by decide) (.same type)
    simpa [Ty.spell] using whole
  | mutPointer element => exact alike_pointer hk true fits element behind
  | constPointer element => exact alike_pointer hk false fits element behind
  | reference lifetime «mut» element =>
    exact alike_reference hk fits.behind lifetime «mut» element behind
  | single bound =>
    have alike := respelled_traitBound hk fits.drop bound behind
    have whole := alike_word fits.formed (.blank (.same alike))
    simpa [Ty.spell] using whole

theorem respelled_full : Respelled (k + 1) (DerivesTy names .full) Ty.spell := by
  intro ts t rest tail fits read behind
  cases read with
  | bounded bounds several =>
    have alike := respelled_bounds hk fits.drop bounds behind
    have whole := alike_word fits.formed (.blank (.same alike))
    simpa [Ty.spell] using whole
  | unbounded read => exact respelled_plain hk fits read behind

end Types

theorem respelled_ty (k : Nat) (spot : Spot) : Respelled k (DerivesTy names spot) Ty.spell := by
  induction k generalizing spot with
  | zero => exact fun _ _ _ _ fits => absurd fits.1 (Nat.not_lt_zero _)
  | succ k ih =>
    cases spot with
    | plain => exact respelled_plain ih
    | full => exact respelled_full ih

end ImplFamilies.Grammar
