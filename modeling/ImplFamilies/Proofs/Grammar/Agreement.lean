import ImplFamilies.Proofs.Grammar.MirrorTokens
import ImplFamilies.Grammar.SyntaxError

/-!
The rules of the grammar, each with its reader. Reading a text as a signature or as a type is
reading its lexemes, to any depth of nesting.
-/

namespace ImplFamilies.Grammar

namespace Rule

open Reader (Shrinks)

section Shape

variable {α β γ : Type}

theorem Mirrors.congr {p p' : Rule α} {r r' : Reader α} (h : Mirrors p' r')
    (hp : ∀ c, (p c).result? = (p' c).result?) (hr : ∀ ts, r ts = r' ts) : Mirrors p r := by
  intro c
  rw [hp c, hr]
  exact h c

theorem Mirrors.between {opening closing : String} {p : Rule α} {r : Reader α}
    (ho : Mirrors (token opening) (Reader.mark opening))
    (hc : Mirrors (token closing) (Reader.mark closing)) (h : Mirrors p r) :
    Mirrors (Rule.between opening closing p) (Reader.between opening closing r) :=
  (ho.keepRight h).keepLeft hc

theorem Mirrors.keepLeft_andThen {p : Rule α} {t : Rule β} {q : Rule γ} {r : Reader α}
    {u : Reader β} {s : Reader γ}
    (h : Mirrors (p.andThen (t.andThen q)) (r.andThen (u.andThen s))) :
    Mirrors ((p.keepLeft t).andThen q) ((r.keepLeft u).andThen s) := by
  refine (h.map fun (a, _, b) => (a, b)).congr (fun c => ?_) fun ts => ?_
  · simp only [Rule.keepLeft, result?_map, result?_andThen]
    cases (p c).result? with
    | none => rfl
    | some found =>
      obtain ⟨a, mid⟩ := found
      simp only [Option.bind_some]
      cases (t mid).result? with
      | none => rfl
      | some found =>
        obtain ⟨b, last⟩ := found
        simp only [Option.map_some, Option.bind_some]
        cases (q last).result? <;> rfl
  · simp only [Reader.keepLeft, Reader.map, Reader.andThen]
    cases r ts with
    | none => rfl
    | some found =>
      obtain ⟨a, mid⟩ := found
      dsimp only
      cases u mid with
      | none => rfl
      | some found =>
        obtain ⟨b, last⟩ := found
        dsimp only
        cases s last <;> rfl

theorem Mirrors.between_andThen {opening closing : String} {p : Rule α} {q : Rule β}
    {r : Reader α} {s : Reader β} (ho : Mirrors (token opening) (Reader.mark opening))
    (hp : Mirrors p r)
    (hq : Mirrors (q.andThen (token closing)) (s.andThen (Reader.mark closing))) :
    Mirrors (Rule.between opening closing (p.andThen q))
      (Reader.between opening closing (r.andThen s)) := by
  refine ((ho.andThen (hp.andThen hq)).map fun (_, a, b, _) => (a, b)).congr
    (fun c => ?_) fun ts => ?_
  · simp only [Rule.between, Rule.keepLeft, Rule.keepRight, result?_map, result?_andThen]
    cases (token opening c).result? with
    | none => rfl
    | some found =>
      obtain ⟨u, c₁⟩ := found
      simp only [Option.bind_some]
      cases (p c₁).result? with
      | none => rfl
      | some found =>
        obtain ⟨a, c₂⟩ := found
        simp only [Option.bind_some]
        cases (q c₂).result? with
        | none => rfl
        | some found =>
          obtain ⟨b, c₃⟩ := found
          simp only [Option.map_some, Option.bind_some]
          cases (token closing c₃).result? <;> rfl
  · simp only [Reader.between, Reader.keepLeft, Reader.keepRight, Reader.map, Reader.andThen]
    cases Reader.mark opening ts with
    | none => rfl
    | some found =>
      obtain ⟨u, ts₁⟩ := found
      dsimp only
      cases r ts₁ with
      | none => rfl
      | some found =>
        obtain ⟨a, ts₂⟩ := found
        dsimp only
        cases s ts₂ with
        | none => rfl
        | some found =>
          obtain ⟨b, ts₃⟩ := found
          dsimp only
          cases Reader.mark closing ts₃ <;> rfl

end Shape

theorem mirrors_segments : Mirrors segments Reader.segments :=
  (mirrors_identifier.separated₁ (mirrors_token (isMark_of_long (by decide)))
    Reader.consumes_identifier.shrinks).map _

theorem mirrors_lifetimeBounds : Mirrors lifetimeBounds Reader.lifetimeBounds :=
  mirrors_lifetime.separated₁ (mirrors_single _ rfl) Reader.consumes_lifetime.shrinks

section Nested

variable {full plain : Rule Ty} {full' plain' : Reader Ty}

theorem mirrors_arg (hf : Mirrors full full') : Mirrors (arg full) (Reader.arg full') :=
  (mirrors_lifetime.map _).orElse (hf.map _)

theorem mirrors_args (hf : Mirrors full full') (sf : Shrinks full') :
    Mirrors (args full) (Reader.args full') := by
  have open_ := mirrors_single "<" rfl
  have close := mirrors_single ">" rfl
  apply Mirrors.orElse
  · exact (open_.andThen close).map _
  · exact .between open_ close
      ((mirrors_arg hf).list₁ (mirrors_single _ rfl) (Reader.shrinks_arg sf))

theorem mirrors_typePath (hf : Mirrors full full') (sf : Shrinks full') :
    Mirrors (typePath full) (Reader.typePath full') := by
  have open_ := mirrors_single "(" rfl
  have close := mirrors_single ")" rfl
  have arrow : Mirrors (token "->") (Reader.mark "->") := mirrors_token (isMark_of_long (by decide))
  have name := mirrors_modifiers.andThen (mirrors_segments.keepLeft open_.peek)
  have inputs := Mirrors.between open_ close (hf.list (mirrors_single "," rfl) sf)
  apply Mirrors.orElse
  · exact ((name.andThen inputs).andThen (arrow.keepRight hf).optional).map _
  · exact (mirrors_segments.andThen (mirrors_args hf sf).optional).map _

theorem mirrors_traitBound (hf : Mirrors full full') (sf : Shrinks full') :
    Mirrors (traitBound full) (Reader.traitBound full') :=
  ((mirrors_single "?" rfl).optional.andThen (mirrors_typePath hf sf)).map _

theorem mirrors_bounds (hf : Mirrors full full') (sf : Shrinks full') :
    Mirrors (bounds full) (Reader.bounds full') :=
  ((mirrors_lifetime.map _).orElse ((mirrors_traitBound hf sf).map _)).separated₁
    (mirrors_single _ rfl) (Reader.consumes_bound sf).shrinks

theorem mirrors_opener (opener : Opener) :
    Mirrors (keyword opener.word) (Reader.keyword opener.word) := by
  cases opener <;> exact mirrors_keyword _ rfl

theorem mirrors_arrayOrSlice (hf : Mirrors full full') :
    Mirrors (arrayOrSlice full) (Reader.arrayOrSlice full') := by
  have open_ := mirrors_single "[" rfl
  have close := mirrors_single "]" rfl
  apply Mirrors.map
  exact open_.between_andThen hf
    (mirrors_size close (mirrors_single _ rfl) (fun _ _ => rfl) fun _ => rfl)

theorem mirrors_plainType (hf : Mirrors full full') (sf : Shrinks full')
    (hp : Mirrors plain plain') :
    Mirrors (plainType full plain) (Reader.plainType full' plain') := by
  have open_ := mirrors_single "(" rfl
  have close := mirrors_single ")" rfl
  have «mut» := mirrors_keyword "mut" rfl
  have single (opener : Opener) :
      Mirrors (singleType full opener) (Reader.singleType full' opener) :=
    ((mirrors_opener opener).keepRight (mirrors_traitBound hf sf)).map _
  apply Mirrors.orElse ((mirrors_single _ rfl).map _)
  apply Mirrors.orElse ((open_.andThen close).map _)
  apply Mirrors.orElse ((Mirrors.between open_ close (hf.list₁ (mirrors_single _ rfl) sf)).map _)
  apply Mirrors.orElse (mirrors_arrayOrSlice hf)
  apply Mirrors.orElse
  · exact (((mirrors_single _ rfl).keepRight
      ((«mut».map _).orElse ((mirrors_keyword _ rfl).map _))).andThen hp).map _
  apply Mirrors.orElse
  · exact ((((mirrors_single _ rfl).keepRight mirrors_lifetime.optional).andThen
      («mut».optional.map _)).andThen hp).map _
  exact (single .impl).orElse ((single .dyn).orElse ((mirrors_typePath hf sf).map _))

theorem mirrors_fullType {here : Rule Ty} {here' : Reader Ty} (hf : Mirrors full full')
    (sf : Shrinks full') (hh : Mirrors here here') :
    Mirrors (fullType full here) (Reader.fullType full' here') := by
  have list (opener : Opener) :
      Mirrors (boundedType full opener) (Reader.boundedType full' opener) :=
    ((mirrors_opener opener).keepRight (mirrors_bounds hf sf)).map _
  exact (list .impl).orElse ((list .dyn).orElse hh)

theorem mirrors_typeAt (depth : Nat) (spot : Spot) :
    Mirrors (typeAt depth spot) (Reader.typeAt depth spot) := by
  induction depth generalizing spot with
  | zero => exact fun _ => rfl
  | succ depth ih =>
    have shrinks := (Reader.consumes_typeAt depth .full).shrinks
    have plainer := mirrors_plainType (ih .full) shrinks (ih .plain)
    cases spot with
    | plain => exact plainer
    | full => exact mirrors_fullType (ih .full) shrinks plainer

theorem mirrors_colonBounds {α : Type} {q : Rule (List α)} {s : Reader (List α)} (hq : Mirrors q s)
    (refuses : ∀ ts, ColonFirst ts → s ts = none) :
    Mirrors (optional ((token ":").keepRight q))
      (Reader.optional ((Reader.mark ":").keepRight s)) :=
  ((mirrors_after_colon hq refuses).map _).optional

theorem lifetimeBounds_colon {ts : List Lexeme} (h : ColonFirst ts) :
    Reader.lifetimeBounds ts = none := by
  obtain ⟨text, rest, rfl, _⟩ := h
  exact Reader.separated₁_eq_none.2 rfl

theorem bounds_colon {ts : List Lexeme} (h : ColonFirst ts) : Reader.bounds full' ts = none := by
  obtain ⟨text, rest, rfl, rfl | rfl⟩ := h <;> exact Reader.separated₁_eq_none.2 rfl

theorem mirrors_generics (hf : Mirrors full full') (sf : Shrinks full') :
    Mirrors (generics full) (Reader.generics full') := by
  have lifetimeParam : Mirrors lifetimeParam Reader.lifetimeParam :=
    (mirrors_lifetime.andThen
      (mirrors_colonBounds mirrors_lifetimeBounds fun _ => lifetimeBounds_colon)).map _
  have typeParam : Mirrors (typeParam full) (Reader.typeParam full') :=
    ((mirrors_identifier.andThen
      (mirrors_colonBounds (mirrors_bounds hf sf) fun _ => bounds_colon)).andThen
      ((mirrors_single _ rfl).keepRight hf).optional).map _
  exact .between (mirrors_single _ rfl) (mirrors_single _ rfl)
    ((lifetimeParam.orElse typeParam).list (mirrors_single _ rfl)
      (Reader.consumes_param sf).shrinks)

theorem mirrors_whereClause (hf : Mirrors full full') (sf : Shrinks full') :
    Mirrors (whereClause full) (Reader.whereClause full') := by
  have lifetimeItem : Mirrors lifetimeItem Reader.lifetimeItem :=
    (Mirrors.keepLeft_andThen (mirrors_lifetime.andThen
      (mirrors_after_colon mirrors_lifetimeBounds fun _ => lifetimeBounds_colon))).map _
  have typeItem : Mirrors (typeItem full) (Reader.typeItem full') :=
    (Mirrors.keepLeft_andThen (mirrors_identifier.andThen
      (mirrors_after_colon (mirrors_bounds hf sf) fun _ => bounds_colon))).map _
  exact (mirrors_keyword _ rfl).keepRight
    ((lifetimeItem.orElse typeItem).list (mirrors_single _ rfl)
      (Reader.consumes_whereItem sf).shrinks)

theorem mirrors_inherentSignature (hf : Mirrors full full') (sf : Shrinks full') :
    Mirrors (inherentSignature full) (Reader.inherentSignature full') :=
  ((((mirrors_keyword "impl" rfl).keepRight (mirrors_generics hf sf).optional).andThen hf).andThen
    (mirrors_whereClause hf sf).optional).map _

theorem mirrors_implementation (hf : Mirrors full full') (sf : Shrinks full') :
    Mirrors ((traitSignature full).orElse (inherentSignature full))
      (Reader.implementation full') := by
  have «impl» := mirrors_keyword "impl" rfl
  have generics := (mirrors_generics hf sf).optional
  have clause := (mirrors_whereClause hf sf).optional
  refine .orElse ?_ (mirrors_inherentSignature hf sf)
  exact ((((((((mirrors_keyword "unsafe" rfl).optional.keepLeft «impl»).andThen generics).andThen
    (mirrors_single "!" rfl).optional).andThen (mirrors_typePath hf sf)).keepLeft
    (mirrors_keyword "for" rfl)).andThen hf).andThen clause).map _

end Nested

theorem endOfInput_of_skipped {c : Cursor} (h : Text.skipBlanks c.rest = c.rest) :
    ((endOfInput c).result?.map fun (u, rest) => (u, lexemes rest.rest)) =
      Reader.endOfInput (lexemes c.rest) := by
  obtain ⟨offset, rest⟩ := c
  cases rest with
  | nil => rfl
  | cons x rest =>
    cases left : lexemes (x :: rest) with
    | nil => exact nomatch h.symm.trans (lexemes_eq_nil_iff.1 left)
    | cons l ts => rfl

theorem Mirrors.whole {α : Type} {p : Rule α} {r : Reader α} (h : Mirrors p r) :
    Mirrors ((Rule.padded p).keepLeft endOfInput) (r.keepLeft Reader.endOfInput) := by
  intro c
  have inner := h (c.skipWhile Text.isBlank)
  rw [show (c.skipWhile Text.isBlank).rest = Text.skipBlanks c.rest from rfl,
    lexemes_skipBlanks] at inner
  rw [Rule.keepLeft, result?_map, result?_andThen, result?_padded, Reader.keepLeft, Reader.map,
    Reader.andThen, ← inner]
  cases (p (c.skipWhile Text.isBlank)).result? with
  | none => rfl
  | some found =>
    obtain ⟨a, last⟩ := found
    have left : (last.skipWhile Text.isBlank).rest = Text.skipBlanks last.rest := rfl
    have ends := endOfInput_of_skipped (c := last.skipWhile Text.isBlank)
      (by rw [left, skipBlanks_skipBlanks])
    rw [left, lexemes_skipBlanks] at ends
    simp only [Option.map_some, Option.bind_some, ← ends]
    cases (endOfInput (last.skipWhile Text.isBlank)).result? <;> rfl

end Rule

open Reader (readTy)

theorem ofOutcome_eq_ok {α : Type} {source : List Char} {o : Outcome α} {a : α} :
    SyntaxError.ofOutcome source o = .ok a ↔ ∃ c, o.result? = some (a, c) := by
  cases o with
  | ok value c hint => simp [SyntaxError.ofOutcome, Outcome.result?]
  | fail e => simp [SyntaxError.ofOutcome, Outcome.result?]

theorem endOfInput_eq_some {ts rest : List Lexeme} {u : Unit} :
    Reader.endOfInput ts = some (u, rest) ↔ ts = [] ∧ rest = [] := by
  cases ts with
  | nil => simp [Reader.endOfInput, eq_comm]
  | cons l ts => simp [Reader.endOfInput]

theorem ofOutcome_whole {α : Type} {p : Rule α} {r : Reader α} (h : Rule.Mirrors p r)
    (source : List Char) {a : α} :
    SyntaxError.ofOutcome source
        (((Rule.padded p).keepLeft Rule.endOfInput) (Cursor.ofText source)) = .ok a ↔
      r (lexemes source) = some (a, []) := by
  have same := h.whole (Cursor.ofText source)
  rw [ofOutcome_eq_ok]
  constructor
  · rintro ⟨c, read⟩
    rw [read] at same
    obtain ⟨mid, u, found, ended⟩ := Reader.keepLeft_eq_some.1 same.symm
    obtain ⟨rfl, _⟩ := endOfInput_eq_some.1 ended
    exact found
  · intro found
    have whole : r.keepLeft Reader.endOfInput (lexemes source) = some (a, []) :=
      Reader.keepLeft_eq_some.2 ⟨_, (), found, rfl⟩
    obtain ⟨⟨b, c⟩, read, e⟩ := Option.map_eq_some_iff.1 (same.trans whole)
    obtain ⟨rfl, _⟩ := Prod.mk.inj e
    exact ⟨c, read⟩

/-- Reading a text as a type is reading its lexemes, to any depth. -/
theorem typeOfText_iff {text : String} {t : Ty} :
    Ty.ofText text = .ok t ↔ readTy .full (lexemes text.toList) = some (t, []) := by
  have length := length_lexemes_le text.toList
  rw [Reader.readTy_eq_typeAt (n := depthFor text.toList) _ (by unfold depthFor; omega)]
  exact ofOutcome_whole (Rule.mirrors_typeAt _ .full) text.toList

theorem signatureOfText_iff {text : String} {d : Signature} :
    Signature.ofText text = .ok d ↔
      Reader.implementation (readTy .full) (lexemes text.toList) = some (d, []) := by
  have length := length_lexemes_le text.toList
  rw [← Reader.implementation_typeAt (n := depthFor text.toList) (by unfold depthFor; omega)]
  exact ofOutcome_whole (Rule.mirrors_implementation (Rule.mirrors_typeAt _ .full)
    (Reader.consumes_typeAt _ .full).shrinks) text.toList

end ImplFamilies.Grammar
