import ImplFamilies.Proofs.Grammar.TokenExpectations
import ImplFamilies.Proofs.Grammar.TypeEquations

/-!
What is expected where paths, bounds and types fail. A path takes any word that stands at its place,
so a keyword that is tried there first is made up for; nested types are met by induction.
-/

namespace ImplFamilies.Grammar

open Text Rule

def Scheme.wordType : Scheme Ty :=
  Scheme.segments.map fun name => .path (.plain name none)

namespace Stretch

variable {α : Type} {S : Stretch} {p : Rule α}

theorem informing_segments : S.Informing .word segments :=
  (silentTo_identifier.separated₁ silentTo_identifier.here Eats.identifier
    (informing_token (by decide) (by decide)).silentTo).map _

theorem silentTo_modifiers : S.SilentTo .word .word modifiers := by
  have : Forward modifier := by
    unfold modifier
    infer_instance
  refine (InformingUnlessWord.many fun c holds => ?_).map _
  have keyword {text : String} (start : text.toList.head?.any isWordStart = true) :
      (Rule.keyword text c).All (S.HintSilentTo .here c.offset) (S.FailureInformsOrWord c) :=
    (keyword_outcome start holds).mono (·.widen (Edge.word.offset_le c))
      (· ▸ holds.failureInformsOrWord_refusal text)
  have quoted : (token "\"C\"" c).All (S.HintSilentTo .here c.offset) (S.FailureInformsOrWord c) :=
    (informing_token (by decide) (by decide) holds).mono HintInforms.hintSilentTo fun failed =>
      .inl failed.informs
  have join {e f : Failure} (first : S.FailureInformsOrWord c e)
      (second : S.FailureInformsOrWord c f) :
      S.FailureInformsOrWord c (Failure.furthest f e) := second.furthest first holds.toWithin
  exact .orElse ((keyword (by decide)).map _)
    (.orElse ((keyword (by decide)).map _) (quoted.map _) join) join

theorem informing_lifetimeBounds : S.Informing .here lifetimeBounds :=
  silentTo_lifetime.separated₁ silentTo_lifetime Eats.lifetime
    (informing_token (by decide) (by decide)).silentTo

theorem informing_between {opening closing : String} (free : AllFree opening.toList)
    (some : opening.toList ≠ []) (free' : AllFree closing.toList)
    (some' : closing.toList ≠ []) (h : S.SilentTo .here .here p) :
    S.Informing .here (between opening closing p) :=
  ((((informing_token free some).silentTo.andThen h).map _).andThen_informing
    (informing_token free' some')).map _

theorem noWordFirst_between {opening closing : String}
    (bare : opening.toList.head?.any isWordChar = false) (some : opening.toList ≠ []) :
    NoWordFirst (between opening closing p) :=
  ((noWordFirst_token bare some).andThen.map _).andThen.map _

structure InformingTypes (S : Stretch) (nested : Spot → Rule Ty) : Prop where
  tells (spot : Spot) : Forward (nested spot)
  eats (spot : Spot) : Eats (nested spot)
  informing (spot : Spot) : S.Informing .word (nested spot)

section Nested

variable {nested : Spot → Rule Ty}

theorem informing_args (types : S.InformingTypes nested) :
    S.Informing .here (args (nested .full)) := by
  have item : S.SilentTo .here .here (arg (nested .full)) :=
    (silentTo_lifetime.map _).orElse ((types.informing .full).here.silentTo.map _)
  have shorter : Eats (arg (nested .full)) := Scheme.eats_rule types.tells types.eats Scheme.arg rfl
  have comma : S.SilentTo .here .here (token ",") :=
    (informing_token (by decide) (by decide)).silentTo
  have none : S.Informing .here ((token "<").andThen (token ">")) :=
    (informing_token (by decide) (by decide)).andThen (informing_token (by decide) (by decide))
  exact (none.map _).orElse (informing_between (by decide) (by decide) (by decide) (by decide)
    (item.list₁ shorter comma).silentTo)

theorem informing_callPath (types : S.InformingTypes nested) :
    S.Informing .word (callPath (nested .full)) := by
  have name : S.SilentTo .here .word (segments.keepLeft (peek (token "("))) :=
    (informing_segments.silentTo.andThen (silentTo_peek (by decide))).map _
  have inputs : S.Informing .here (between "(" ")" (list (nested .full) (token ","))) :=
    informing_between (by decide) (by decide) (by decide) (by decide)
      ((types.informing .full).here.silentTo.list (types.eats .full)
        (informing_token (by decide) (by decide)).silentTo).silentTo
  have output : S.Informing .here (optional ((token "->").keepRight (nested .full))) :=
    (((informing_token (by decide) (by decide)).andThen
      (types.informing .full).here).map _).optional
  exact (((silentTo_modifiers.andThen name).andThen_informing inputs).andThen output).map _

theorem informing_typePath (types : S.InformingTypes nested) :
    S.Informing .word (typePath (nested .full)) :=
  (informing_callPath types).orElse
    ((informing_segments.andThen (informing_args types).optional).map _)

theorem informing_traitBound (types : S.InformingTypes nested) :
    S.Informing .word (traitBound (nested .full)) := by
  have mark : S.SilentTo .word .word (optional (token "?")) :=
    (informing_token (by decide) (by decide)).silentTo.optional_word
  exact (mark.andThen_informing (informing_typePath types)).map _

theorem informing_bounds (types : S.InformingTypes nested) :
    S.Informing .here (bounds (nested .full)) := by
  have item : S.SilentTo .here .here (bound (nested .full)) :=
    (silentTo_lifetime.map _).orElse ((informing_traitBound types).here.silentTo.map _)
  exact item.separated₁ item (Scheme.eats_rule types.tells types.eats Scheme.bound rfl)
    (informing_token (by decide) (by decide)).silentTo

theorem unlessWord_boundedType (types : S.InformingTypes nested) (opener : Opener) :
    S.InformingUnlessWord (boundedType (nested .full) opener) :=
  (unlessWord_keyword (by cases opener <;> decide) (informing_bounds types)).map _

theorem unlessWord_singleType (types : S.InformingTypes nested) (opener : Opener) :
    S.InformingUnlessWord (singleType (nested .full) opener) :=
  (unlessWord_keyword (by cases opener <;> decide) (informing_traitBound types).here).map _

theorem unlessWord_never : S.InformingUnlessWord ((token "!").map fun _ => Ty.never) :=
  ((informing_token (by decide) (by decide)).unlessWord_of_noWordFirst
    (noWordFirst_token (by decide) (by decide))).map _

theorem unlessWord_unitType : S.InformingUnlessWord unitType :=
  (((informing_token (by decide) (by decide)).andThen
    (informing_token (by decide) (by decide))).unlessWord_of_noWordFirst
      (noWordFirst_token (by decide) (by decide)).andThen).map _

theorem unlessWord_tupleType (types : S.InformingTypes nested) :
    S.InformingUnlessWord (tupleType (nested .full)) :=
  ((informing_between (by decide) (by decide) (by decide) (by decide)
    ((types.informing .full).here.silentTo.list₁ (types.eats .full)
      (informing_token (by decide) (by decide)).silentTo).silentTo).unlessWord_of_noWordFirst
        (noWordFirst_between (by decide) (by decide))).map _

theorem unlessWord_arrayOrSlice (types : S.InformingTypes nested) :
    S.InformingUnlessWord (arrayOrSlice (nested .full)) :=
  ((informing_between (by decide) (by decide) (by decide) (by decide)
    ((types.informing .full).here.silentTo.andThen
      silentTo_size.optional)).unlessWord_of_noWordFirst
        (noWordFirst_between (by decide) (by decide))).map _

theorem unlessWord_pointerType (types : S.InformingTypes nested) :
    S.InformingUnlessWord (pointerType (nested .plain)) :=
  ((silentTo_star.andThen_informing (types.informing .plain).here).unlessWord_of_noWordFirst
    ((noWordFirst_token (by decide) (by decide)).andThen.map _).andThen).map _

theorem unlessWord_referenceType (types : S.InformingTypes nested) :
    S.InformingUnlessWord (referenceType (nested .plain)) := by
  have mark : S.SilentTo .here .here ((token "&").keepRight (optional lifetime)) :=
    ((informing_token (by decide) (by decide)).silentTo.andThen silentTo_lifetime.optional).map _
  have mutable : S.SilentTo .word .here ((optional (keyword "mut")).map Option.isSome) :=
    (silentTo_optional_keyword (by decide)).map _
  have noWordFirst : NoWordFirst ((token "&").keepRight (optional lifetime)) :=
    (noWordFirst_token (by decide) (by decide)).andThen.map _
  exact (((mark.andThen mutable).andThen_informing
    (types.informing .plain)).unlessWord_of_noWordFirst noWordFirst.andThen.andThen).map _

theorem informing_plainType (types : S.InformingTypes nested) :
    S.Informing .word (plainType (nested .full) (nested .plain)) :=
  unlessWord_never.orElse <|
    unlessWord_unitType.orElse <|
    (unlessWord_tupleType types).orElse <|
    (unlessWord_arrayOrSlice types).orElse <|
    (unlessWord_pointerType types).orElse <|
    (unlessWord_referenceType types).orElse <|
    (unlessWord_singleType types .impl).orElse <|
    (unlessWord_singleType types .dyn).orElse <|
    (informing_typePath types).map _

theorem informing_unfolded (types : S.InformingTypes nested) (spot : Spot) :
    S.Informing .word ((Scheme.unfolded spot).rule nested) := by
  have plain := informing_plainType types
  cases spot with
  | plain => exact plain
  | full =>
    exact (unlessWord_boundedType types .impl).orElse <|
      (unlessWord_boundedType types .dyn).orElse plain

end Nested

def OutcomeInforms (S : Stretch) (_ : Spot) (c : Cursor) (x : Outcome Ty) : Prop :=
  S.Holds c → x.All (S.HintInforms (Edge.word.offset c)) (S.FailureInforms (Edge.word.offset c))

/-- Types say what they expected, and they take any word at their place. -/
theorem informing_typeRule (spot : Spot) : S.Informing .word (typeRule spot) := by
  have tells : Forward (Scheme.wordType.rule typeRule) :=
    Scheme.forward_rule (fun _ => inferInstance) Scheme.wordType
  have eats : Eats (Scheme.wordType.rule typeRule) :=
    Scheme.eats_rule (fun _ => inferInstance) eats_typeRule Scheme.wordType rfl
  have informing : S.Informing .word (Scheme.wordType.rule typeRule) := informing_segments.map _
  exact fun c => typeRule_induction (M := S.OutcomeInforms) (fun _ => Scheme.wordType.rule typeRule)
    (fun _ => tells) (fun _ => eats) (fun _ _ holds => informing holds)
    (fun _ tells eats informing spot _ holds =>
      informing_unfolded ⟨tells, eats, informing⟩ spot holds) spot c

theorem informingTypes_typeRule (S : Stretch) : S.InformingTypes typeRule where
  tells _ := inferInstance
  eats := eats_typeRule
  informing := informing_typeRule

end Stretch

end ImplFamilies.Grammar
