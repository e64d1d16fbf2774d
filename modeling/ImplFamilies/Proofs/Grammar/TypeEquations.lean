import ImplFamilies.Proofs.Grammar.Scheme

/-!
The grammar as schemes, and its equations for types. A type anywhere asks first for a type that
needs no list of bounds, and that one asks for nothing before it has read a character. So a bound on
the nesting that is greater than what is left to read changes nothing, and reading types satisfies
the equations of the grammar without any bound.
-/

namespace ImplFamilies.Grammar

namespace Scheme

variable {α β : Type}

def keepLeft (p : Scheme α) (q : Scheme β) : Scheme α :=
  (p.andThen q).map Prod.fst

def keepRight (p : Scheme α) (q : Scheme β) : Scheme β :=
  (p.andThen q).map Prod.snd

def lexeme (p : Rule α) [tells : Forward p] (eats : Eats p) : Scheme α :=
  .word p tells eats

def lookahead (p : Rule α) [tells : Forward p] : Scheme α :=
  .glance p tells

def token (text : String) (some : text.toList ≠ [] := by decide) : Scheme Unit :=
  lexeme (Rule.token text) (.token some)

def keyword (text : String) : Scheme Unit :=
  lexeme (Rule.keyword text) (.keyword text)

def identifier : Scheme (List Char) :=
  lexeme Rule.identifier .identifier

def lifetime : Scheme String :=
  lexeme Rule.lifetime .lifetime

def arrayLength : Scheme UInt64 :=
  lexeme Rule.arrayLength .arrayLength

def inParentheses (p : Scheme α) : Scheme α :=
  ((token "(").keepRight p).keepLeft (token ")")

def inBrackets (p : Scheme α) : Scheme α :=
  ((token "[").keepRight p).keepLeft (token "]")

def inAngles (p : Scheme α) : Scheme α :=
  ((token "<").keepRight p).keepLeft (token ">")

def full : Scheme Ty := .nested .full

def plain : Scheme Ty := .nested .plain

def segments : Scheme String :=
  (identifier.separated₁ (token "::")).map
    fun names => String.ofList (Text.joined "::" names)

def modifier : Scheme (List Char) :=
  ((keyword "unsafe").map fun _ => "unsafe".toList).orElse <|
    ((keyword "extern").map fun _ => "extern".toList).orElse <|
      (token "\"C\"").map fun _ => "\"C\"".toList

def modifiers : Scheme String :=
  modifier.many.map fun words => String.ofList (Text.joined " " words)

def lifetimeBounds : Scheme (List String) :=
  lifetime.separated₁ (token "+")

def arg : Scheme Arg :=
  (lifetime.map Arg.lifetime).orElse (full.map Arg.type)

def args : Scheme (List Arg) :=
  (((token "<").andThen (token ">")).map fun _ => []).orElse <|
    inAngles (arg.list₁ (token ","))

def callPath : Scheme TypePath :=
  (((modifiers.andThen (segments.keepLeft (lookahead (Rule.token "(").peek))).andThen
    (inParentheses (full.list (token ",")))).andThen
    ((token "->").keepRight full).optional).map
    fun (((words, name), inputs), output) => .fn words name inputs output

def plainPath : Scheme TypePath :=
  (segments.andThen args.optional).map fun (names, args) => .plain names args

def typePath : Scheme TypePath :=
  callPath.orElse plainPath

def traitBound : Scheme TraitBound :=
  ((token "?").optional.andThen typePath).map fun (mark, path) => .mk mark.isSome path

def bound : Scheme Bound :=
  (lifetime.map Bound.lifetime).orElse (traitBound.map Bound.trait)

def bounds : Scheme (List Bound) :=
  bound.separated₁ (token "+")

def boundedType (opener : Opener) : Scheme Ty :=
  ((keyword opener.word).keepRight bounds).map (bounded opener)

def singleType (opener : Opener) : Scheme Ty :=
  ((keyword opener.word).keepRight traitBound).map (Ty.single opener)

def unitType : Scheme Ty :=
  ((token "(").andThen (token ")")).map fun _ => .tuple []

def tupleType : Scheme Ty :=
  (inParentheses (full.list₁ (token ","))).map Ty.tuple

def arrayOrSlice : Scheme Ty :=
  (inBrackets (full.andThen ((token ";").keepRight arrayLength).optional)).map
    fun
      | (element, some size) => .array element size
      | (element, none) => .slice element

def pointerType : Scheme Ty :=
  (((token "*").keepRight
      (((keyword "mut").map fun _ => true).orElse ((keyword "const").map fun _ => false))).andThen
    plain).map fun (mutable, element) => .pointer mutable element

def referenceType : Scheme Ty :=
  ((((token "&").keepRight lifetime.optional).andThen
      ((keyword "mut").optional.map Option.isSome)).andThen plain).map
    fun ((lifetime, mutable), element) => .reference lifetime mutable element

def plainType : Scheme Ty :=
  ((token "!").map fun _ => .never).orElse <|
    unitType.orElse <|
    tupleType.orElse <|
    arrayOrSlice.orElse <|
    pointerType.orElse <|
    referenceType.orElse <|
    (singleType .impl).orElse <|
    (singleType .dyn).orElse <|
    typePath.map Ty.path

def fullType (here : Scheme Ty) : Scheme Ty :=
  (boundedType .impl).orElse <| (boundedType .dyn).orElse here

def body : Spot → Scheme Ty
  | .plain => plainType
  | .full => fullType plain

def lifetimeParam : Scheme Param :=
  (lifetime.andThen ((token ":").keepRight lifetimeBounds).optional).map
    fun (name, bounds) => .lifetime name (bounds.getD [])

def typeParam : Scheme Param :=
  ((identifier.andThen ((token ":").keepRight bounds).optional).andThen
    ((token "=").keepRight full).optional).map
    fun ((name, bounds), default) => .type (String.ofList name) (bounds.getD []) default

def generics : Scheme (List Param) :=
  inAngles ((lifetimeParam.orElse typeParam).list (token ","))

def lifetimeItem : Scheme Param :=
  ((lifetime.keepLeft (token ":")).andThen lifetimeBounds).map
    fun (name, bounds) => .lifetime name bounds

def typeItem : Scheme Param :=
  ((identifier.keepLeft (token ":")).andThen bounds).map
    fun (name, bounds) => .type (String.ofList name) bounds none

def whereClause : Scheme (List Param) :=
  (keyword "where").keepRight ((lifetimeItem.orElse typeItem).list (token ","))

def traitSignature : Scheme Signature :=
  ((((((((keyword "unsafe").optional.keepLeft (keyword "impl")).andThen
    generics.optional).andThen
    (token "!").optional).andThen
    typePath).keepLeft (keyword "for")).andThen
    full).andThen
    whereClause.optional).map
    fun ((((((mark, generics), negation), traitRef), selfTy), whereClause)) =>
      { generics := generics.getD []
        isUnsafe := mark.isSome
        negated := negation.isSome
        traitRef := some traitRef
        selfTy
        whereClause }

def inherentSignature : Scheme Signature :=
  ((((keyword "impl").keepRight generics.optional).andThen full).andThen
    whereClause.optional).map
    fun ((generics, selfTy), whereClause) =>
      { generics := generics.getD []
        isUnsafe := false
        negated := false
        traitRef := none
        selfTy
        whereClause }

def endOfInput : Scheme Unit :=
  lookahead Rule.endOfInput

def signature : Scheme Signature :=
  (traitSignature.orElse inherentSignature).padded.keepLeft endOfInput

def loneType : Scheme Ty :=
  full.padded.keepLeft endOfInput

theorem rule_fullType (nested : Spot → Rule Ty) (here : Scheme Ty) :
    (fullType here).rule nested = Grammar.fullType (nested .full) (here.rule nested) := rfl

theorem rule_signature (nested : Spot → Rule Ty) :
    signature.rule nested = Grammar.signature (nested .full) := rfl

theorem rule_loneType (nested : Spot → Rule Ty) :
    loneType.rule nested = Grammar.loneType (nested .full) := rfl

def unfolded : Spot → Scheme Ty
  | .plain => plainType
  | .full => fullType plainType

theorem eats_unfolded (spot : Spot) : (unfolded spot).eats = true := by
  cases spot <;> rfl

theorem steady_body (spot : Spot) : (body spot).steady = true := by
  cases spot <;> rfl

theorem asksFirst_unfolded (spot other : Spot) : (unfolded spot).asksFirst other = false := by
  cases spot <;> cases other <;> rfl

end Scheme

open Scheme

theorem typeAt_succ (depth : Nat) (spot : Spot) :
    typeAt (depth + 1) spot = (unfolded spot).rule (typeAt depth) := by
  cases spot <;> rfl

theorem eats_typeAt (depth : Nat) (spot : Spot) : Eats (typeAt depth spot) := by
  induction depth generalizing spot with
  | zero => exact fun c a c₁ read => nomatch read
  | succ depth ih =>
    rw [typeAt_succ]
    exact eats_rule (fun _ => inferInstance) ih _ (eats_unfolded spot)

/-- A bound greater than what is left to read changes nothing. -/
theorem typeAt_eq_typeAt {n m : Nat} {c : Cursor} (spot : Spot) (hn : c.rest.length < n)
    (hm : c.rest.length < m) : typeAt n spot c = typeAt m spot c := by
  induction n generalizing m c spot with
  | zero => exact absurd hn (Nat.not_lt_zero _)
  | succ n ih =>
    obtain ⟨m, rfl⟩ : ∃ k, m = k + 1 := ⟨m - 1, by omega⟩
    rw [typeAt_succ, typeAt_succ]
    refine rule_congr (fun _ => inferInstance) (eats_typeAt n) _ (Nat.le_refl _) ?_
    rintro other c₁ (less | ⟨-, asks⟩)
    · exact ih other (by omega) (by omega)
    · exact nomatch (asksFirst_unfolded spot other).symm.trans asks

/-- A type at a spot, however deep it is nested. -/
def typeRule (spot : Spot) : Rule Ty := fun c => typeAt (c.rest.length + 1) spot c

theorem typeAt_eq_typeRule {n : Nat} {c : Cursor} (spot : Spot) (h : c.rest.length < n) :
    typeAt n spot c = typeRule spot c :=
  typeAt_eq_typeAt spot h (Nat.lt_succ_self _)

instance (spot : Spot) : Forward (typeRule spot) where
  advances c := Forward.advances (p := typeAt (c.rest.length + 1) spot) c

theorem eats_typeRule (spot : Spot) : Eats (typeRule spot) :=
  fun c _ _ read => eats_typeAt (c.rest.length + 1) spot read

theorem typeRule_eq_unfolded (spot : Spot) : typeRule spot = (unfolded spot).rule typeRule := by
  funext c
  rw [typeRule, typeAt_succ]
  refine rule_congr (fun _ => inferInstance) (eats_typeAt _) _ (Nat.le_refl _) ?_
  rintro other c₁ (less | ⟨-, asks⟩)
  · exact typeAt_eq_typeRule other less
  · exact nomatch (asksFirst_unfolded spot other).symm.trans asks

/-- The equations of the grammar, without a bound on the nesting. -/
theorem typeRule_eq (spot : Spot) : typeRule spot = (body spot).rule typeRule := by
  cases spot with
  | plain => exact typeRule_eq_unfolded .plain
  | full =>
    have here : Scheme.plainType.rule typeRule = typeRule .plain :=
      (typeRule_eq_unfolded .plain).symm
    rw [typeRule_eq_unfolded, unfolded, rule_fullType, here]
    rfl

/-- What holds of types whenever it holds of the types nested in them holds of all types. -/
theorem typeRule_induction {M : Spot → Cursor → Outcome Ty → Prop} (start : Spot → Rule Ty)
    (tells : ∀ spot, Forward (start spot)) (eats : ∀ spot, Eats (start spot))
    (begin : ∀ spot c, M spot c (start spot c))
    (step : ∀ nested : Spot → Rule Ty, (∀ spot, Forward (nested spot)) →
      (∀ spot, Eats (nested spot)) → (∀ spot c, M spot c (nested spot c)) →
      ∀ spot c, M spot c ((unfolded spot).rule nested c))
    (spot : Spot) (c : Cursor) : M spot c (typeRule spot c) := by
  induction length : c.rest.length using Nat.strongRecOn generalizing spot c with
  | _ n ih =>
    -- The types behind the next character; at it and before it any types will do.
    let nested (spot : Spot) : Rule Ty := fun c₁ =>
      if c₁.rest.length < n then typeRule spot c₁ else start spot c₁
    have near {spot : Spot} {c₁ : Cursor} (less : c₁.rest.length < n) :
        nested spot c₁ = typeRule spot c₁ := if_pos less
    have far {spot : Spot} {c₁ : Cursor} (less : ¬ c₁.rest.length < n) :
        nested spot c₁ = start spot c₁ := if_neg less
    have tells' (spot : Spot) : Forward (nested spot) := by
      refine ⟨fun c₁ => ?_⟩
      by_cases less : c₁.rest.length < n
      · exact near less ▸ Forward.advances (p := typeRule spot) c₁
      · exact far less ▸ (tells spot).advances c₁
    have eats' (spot : Spot) : Eats (nested spot) := by
      intro c₁ a c₂ read
      by_cases less : c₁.rest.length < n
      · exact eats_typeRule spot (near less ▸ read)
      · exact eats spot (far less ▸ read)
    have holds (spot : Spot) (c₁ : Cursor) : M spot c₁ (nested spot c₁) := by
      by_cases less : c₁.rest.length < n
      · exact near less ▸ ih _ less spot c₁ rfl
      · exact far less ▸ begin spot c₁
    have same : (unfolded spot).rule nested c = typeRule spot c := by
      rw [typeRule_eq_unfolded]
      refine rule_congr tells' eats' _ (Nat.le_of_eq length) ?_
      rintro other c₁ (less | ⟨-, asks⟩)
      · exact near less
      · exact nomatch (asksFirst_unfolded spot other).symm.trans asks
    exact same ▸ step nested tells' eats' holds spot c

theorem rule_typeAt_depthFor {α : Type} (p : Scheme α) (source : List Char) :
    p.rule (typeAt (depthFor source)) (Cursor.ofText source) =
      p.rule typeRule (Cursor.ofText source) := by
  refine rule_congr (fun _ => inferInstance) (eats_typeAt _) p (Nat.le_refl _) ?_
  rintro spot c place
  have within : c.rest.length ≤ source.length :=
    place.elim Nat.le_of_lt fun ⟨equal, _⟩ => Nat.le_of_eq equal
  exact typeAt_eq_typeRule spot (Nat.lt_succ_of_le within)

theorem readSignature_eq (source : List Char) :
    readSignature source = Scheme.signature.rule typeRule (Cursor.ofText source) := by
  rw [← rule_typeAt_depthFor, rule_signature]
  rfl

theorem readType_eq (source : List Char) :
    readType source = Scheme.loneType.rule typeRule (Cursor.ofText source) := by
  rw [← rule_typeAt_depthFor, rule_loneType]
  rfl

end ImplFamilies.Grammar
