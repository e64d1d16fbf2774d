import ImplFamilies.Grammar.Signatures
import ImplFamilies.Proofs.Grammar.Reader

/-!
The grammar over lexemes, rule by rule, and the readers of types that it ties together. A nested
type begins at least one lexeme later, so a depth beyond the length of the input changes nothing,
and the readers of types satisfy the equations of the grammar without any depth.
-/

namespace ImplFamilies.Grammar

namespace Reader

def isModifier (l : Lexeme) : Bool :=
  l = .word "unsafe" || l = .word "extern" || l = .mark "\"C\""

def modifiers : Reader String := fun ts =>
  some (String.ofList (Text.joined " " ((ts.takeWhile isModifier).map (·.text.toList))),
    ts.dropWhile isModifier)

def identifier : Reader (List Char)
  | .word text :: ts => some (text.toList, ts)
  | .mark text :: ts => if text = "..." then some ("...".toList, ts) else none
  | _ => none

def segments : Reader String :=
  (separated₁ identifier "::").map fun names => String.ofList (Text.joined "::" names)

def lifetime : Reader String
  | .lifetime text :: ts => some (text, ts)
  | _ => none

def lifetimeBounds : Reader (List String) :=
  separated₁ lifetime "+"

def arrayLength : Reader UInt64
  | .word text :: ts =>
    if text.toList.all Char.isDigit = true ∧ Rule.numeral text.toList < UInt64.size then
      some (UInt64.ofNat (Rule.numeral text.toList), ts)
    else none
  | _ => none

def endOfInput : Reader Unit
  | [] => some ((), [])
  | _ => none

section Nested

variable (full plain : Reader Ty)

def arg : Reader Arg :=
  (lifetime.map Arg.lifetime).orElse (full.map Arg.type)

def args : Reader (List Arg) :=
  (((mark "<").andThen (mark ">")).map fun _ => []).orElse
    (between "<" ">" (list₁ (arg full) ","))

def callPath : Reader TypePath :=
  (((modifiers.andThen (segments.keepLeft (peek (mark "(")))).andThen
    (between "(" ")" (list full ","))).andThen
    (optional ((mark "->").keepRight full))).map
    fun (((words, name), inputs), output) => .fn words name inputs output

def plainPath : Reader TypePath :=
  (segments.andThen (optional (args full))).map fun (names, args) => .plain names args

def typePath : Reader TypePath :=
  (callPath full).orElse (plainPath full)

def traitBound : Reader TraitBound :=
  ((optional (mark "?")).andThen (typePath full)).map
    fun (question, path) => .mk question.isSome path

def bound : Reader Bound :=
  (lifetime.map Bound.lifetime).orElse ((traitBound full).map Bound.trait)

def bounds : Reader (List Bound) :=
  separated₁ (bound full) "+"

def boundedType (opener : Opener) : Reader Ty :=
  ((keyword opener.word).keepRight (bounds full)).map (bounded opener)

def singleType (opener : Opener) : Reader Ty :=
  ((keyword opener.word).keepRight (traitBound full)).map (Ty.single opener)

def unitType : Reader Ty :=
  ((mark "(").andThen (mark ")")).map fun _ => .tuple []

def tupleType : Reader Ty :=
  (between "(" ")" (list₁ full ",")).map Ty.tuple

def arrayOrSlice : Reader Ty :=
  (between "[" "]" (full.andThen (optional ((mark ";").keepRight arrayLength)))).map
    fun
      | (element, some size) => .array element size
      | (element, none) => .slice element

def mutability : Reader Bool :=
  ((keyword "mut").map fun _ => true).orElse ((keyword "const").map fun _ => false)

def pointerType : Reader Ty :=
  (((mark "*").keepRight mutability).andThen plain).map
    fun (mutable, element) => .pointer mutable element

def referenceType : Reader Ty :=
  ((((mark "&").keepRight (optional lifetime)).andThen
      ((optional (keyword "mut")).map Option.isSome)).andThen plain).map
    fun ((lifetime, mutable), element) => .reference lifetime mutable element

def plainType : Reader Ty :=
  ((mark "!").map fun _ => .never).orElse <|
    unitType.orElse <|
    (tupleType full).orElse <|
    (arrayOrSlice full).orElse <|
    (pointerType plain).orElse <|
    (referenceType plain).orElse <|
    (singleType full .impl).orElse <|
    (singleType full .dyn).orElse <|
    (typePath full).map Ty.path

def fullType (here : Reader Ty) : Reader Ty :=
  (boundedType full .impl).orElse <| (boundedType full .dyn).orElse here

def lifetimeParam : Reader Param :=
  (lifetime.andThen (optional ((mark ":").keepRight lifetimeBounds))).map
    fun (name, bounds) => .lifetime name (bounds.getD [])

def typeParam : Reader Param :=
  ((identifier.andThen (optional ((mark ":").keepRight (bounds full)))).andThen
    (optional ((mark "=").keepRight full))).map
    fun ((name, bounds), default) => .type (String.ofList name) (bounds.getD []) default

def generics : Reader (List Param) :=
  between "<" ">" (list (lifetimeParam.orElse (typeParam full)) ",")

def lifetimeItem : Reader Param :=
  ((lifetime.keepLeft (mark ":")).andThen lifetimeBounds).map
    fun (name, bounds) => .lifetime name bounds

def typeItem : Reader Param :=
  ((identifier.keepLeft (mark ":")).andThen (bounds full)).map
    fun (name, bounds) => .type (String.ofList name) bounds none

def whereClause : Reader (List Param) :=
  (keyword "where").keepRight (list (lifetimeItem.orElse (typeItem full)) ",")

def traitHead : Reader (((Option Unit × Option (List Param)) × Option Unit) × TypePath) :=
  ((((optional (keyword "unsafe")).keepLeft (keyword "impl")).andThen
    (optional (generics full))).andThen (optional (mark "!"))).andThen (typePath full)

def traitSignature : Reader Signature :=
  ((((traitHead full).keepLeft (keyword "for")).andThen full).andThen
    (optional (whereClause full))).map
    fun ((((((mark, generics), negation), traitRef), selfTy), whereClause)) =>
      { generics := generics.getD []
        isUnsafe := mark.isSome
        negated := negation.isSome
        traitRef := some traitRef
        selfTy
        whereClause }

def inherentSignature : Reader Signature :=
  ((((keyword "impl").keepRight (optional (generics full))).andThen full).andThen
    (optional (whereClause full))).map
    fun ((generics, selfTy), whereClause) =>
      { generics := generics.getD []
        isUnsafe := false
        negated := false
        traitRef := none
        selfTy
        whereClause }

def implementation : Reader Signature :=
  (traitSignature full).orElse (inherentSignature full)

end Nested

def typeAt : Nat → Spot → Reader Ty
  | 0, _ => fun _ => none
  | depth + 1, .plain => plainType (typeAt depth .full) (typeAt depth .plain)
  | depth + 1, .full =>
      fullType (typeAt depth .full) (plainType (typeAt depth .full) (typeAt depth .plain))

def readTy (spot : Spot) : Reader Ty := fun ts =>
  typeAt (ts.length + 1) spot ts

def IsSegment (l : Lexeme) : Prop :=
  (∃ text, l = .word text) ∨ l = .mark "..."

theorem identifier_segment {l : Lexeme} (h : IsSegment l) (ts : List Lexeme) :
    identifier (l :: ts) = some (l.text.toList, ts) := by
  rcases h with ⟨text, rfl⟩ | rfl <;> rfl

theorem segment_of_identifier {ts rest : List Lexeme} {name : List Char}
    (h : identifier ts = some (name, rest)) :
    ∃ l, IsSegment l ∧ ts = l :: rest ∧ name = l.text.toList := by
  match ts with
  | [] | .lifetime _ :: _ => cases h
  | .word text :: ts =>
    obtain ⟨rfl, rfl⟩ := Prod.mk.inj (Option.some.inj h)
    exact ⟨_, .inl ⟨text, rfl⟩, rfl, rfl⟩
  | .mark text :: ts =>
    simp only [identifier] at h
    split at h
    · rename_i dots
      obtain ⟨rfl, rfl⟩ := Prod.mk.inj (Option.some.inj h)
      exact ⟨_, .inr (dots ▸ rfl), rfl, by rw [dots]; rfl⟩
    · cases h

theorem consumes_identifier : Consumes identifier := by
  intro ts a rest h
  obtain ⟨l, -, rfl, -⟩ := segment_of_identifier h
  exact ⟨List.suffix_cons _ _, Nat.lt_succ_self _⟩

theorem lifetime_eq_some {ts rest : List Lexeme} {name : String} :
    lifetime ts = some (name, rest) ↔ ts = .lifetime name :: rest := by
  match ts with
  | [] | .word _ :: _ | .mark _ :: _ => simp [lifetime]
  | .lifetime text :: ts => simp [lifetime]

theorem consumes_lifetime : Consumes lifetime := by
  intro ts a rest h
  obtain rfl := lifetime_eq_some.1 h
  exact ⟨List.suffix_cons _ _, Nat.lt_succ_self _⟩

theorem arrayLength_eq_some {ts rest : List Lexeme} {size : UInt64} :
    arrayLength ts = some (size, rest) ↔
      ∃ text, ts = .word text :: rest ∧
        (text.toList.all Char.isDigit = true ∧ Rule.numeral text.toList < UInt64.size) ∧
        size = UInt64.ofNat (Rule.numeral text.toList) := by
  match ts with
  | [] | .lifetime _ :: _ | .mark _ :: _ => simp [arrayLength]
  | .word text :: ts =>
    rw [arrayLength, Option.ite_none_right_eq_some]
    constructor
    · rintro ⟨number, read⟩
      obtain ⟨rfl, rfl⟩ := Prod.mk.inj (Option.some.inj read)
      exact ⟨text, rfl, number, rfl⟩
    · rintro ⟨_, same, number, rfl⟩
      obtain ⟨word, rfl⟩ := List.cons.inj same
      obtain rfl := Lexeme.word.inj word
      exact ⟨number, rfl⟩

theorem consumes_arrayLength : Consumes arrayLength := by
  intro ts a rest h
  obtain ⟨_, rfl, -⟩ := arrayLength_eq_some.1 h
  exact ⟨List.suffix_cons _ _, Nat.lt_succ_self _⟩

theorem shrinks_modifiers : Shrinks modifiers := by
  intro ts a rest h
  obtain ⟨_, rfl⟩ := Prod.mk.inj (Option.some.inj h)
  exact List.dropWhile_suffix _

theorem consumes_segments : Consumes segments :=
  (Consumes.separated₁ consumes_identifier).map

section Extent

variable {full plain : Reader Ty}

theorem shrinks_arg (h : Shrinks full) : Shrinks (arg full) :=
  consumes_lifetime.map.shrinks.orElse h.map

theorem consumes_args (h : Shrinks full) : Consumes (args full) :=
  ((Consumes.mark "<").andThen (Consumes.mark ">").shrinks).map.orElse
    (Consumes.between (shrinks_arg h).list₁)

theorem consumes_callPath (h : Shrinks full) : Consumes (callPath full) :=
  (((shrinks_modifiers.andThen_consumes
    (consumes_segments.andThen Shrinks.peek).map).andThen
    (Consumes.between h.list).shrinks).andThen
    ((Consumes.mark "->").andThen h).map.shrinks.optional).map

theorem consumes_typePath (h : Shrinks full) : Consumes (typePath full) :=
  (consumes_callPath h).orElse (consumes_segments.andThen (consumes_args h).shrinks.optional).map

theorem consumes_traitBound (h : Shrinks full) : Consumes (traitBound full) :=
  ((Consumes.mark "?").shrinks.optional.andThen_consumes (consumes_typePath h)).map

theorem consumes_bound (h : Shrinks full) : Consumes (bound full) :=
  consumes_lifetime.map.orElse (consumes_traitBound h).map

theorem consumes_bounds (h : Shrinks full) : Consumes (bounds full) :=
  (consumes_bound h).separated₁

theorem consumes_param (h : Shrinks full) : Consumes (lifetimeParam.orElse (typeParam full)) := by
  have mark (text : String) {α : Type} {p : Reader α} (hp : Shrinks p) :
      Shrinks (optional ((Reader.mark text).keepRight p)) :=
    ((Consumes.mark text).andThen hp).map.shrinks.optional
  apply Consumes.orElse
  · exact (consumes_lifetime.andThen (mark ":" consumes_lifetime.separated₁.shrinks)).map
  · exact ((consumes_identifier.andThen (mark ":" (consumes_bounds h).shrinks)).andThen
      (mark "=" h)).map

theorem consumes_generics (h : Shrinks full) : Consumes (generics full) :=
  Consumes.between (consumes_param h).shrinks.list

theorem consumes_whereItem (h : Shrinks full) :
    Consumes (lifetimeItem.orElse (typeItem full)) := by
  have colon : Shrinks (mark ":") := (Consumes.mark ":").shrinks
  apply Consumes.orElse
  · exact ((consumes_lifetime.andThen colon).map.andThen consumes_lifetime.separated₁.shrinks).map
  · exact ((consumes_identifier.andThen colon).map.andThen (consumes_bounds h).shrinks).map

theorem consumes_plainType (hf : Shrinks full) (hp : Shrinks plain) :
    Consumes (plainType full plain) :=
  (Consumes.mark "!").map.orElse <|
    ((Consumes.mark "(").andThen (Consumes.mark ")").shrinks).map.orElse <|
    (Consumes.between hf.list₁).map.orElse <|
    (Consumes.between (hf.andThen
      ((Consumes.mark ";").andThen
        consumes_arrayLength.shrinks).map.shrinks.optional)).map.orElse <|
    (((Consumes.mark "*").andThen ((Consumes.keyword "mut").map.orElse
      (Consumes.keyword "const").map).shrinks).map.andThen hp).map.orElse <|
    ((((Consumes.mark "&").andThen consumes_lifetime.shrinks.optional).map.andThen
      (Consumes.keyword "mut").shrinks.optional.map).andThen hp).map.orElse <|
    ((Consumes.keyword _).andThen (consumes_traitBound hf).shrinks).map.map.orElse <|
    ((Consumes.keyword _).andThen (consumes_traitBound hf).shrinks).map.map.orElse <|
    (consumes_typePath hf).map

theorem consumes_fullType {here : Reader Ty} (hf : Shrinks full) (hh : Consumes here) :
    Consumes (fullType full here) :=
  ((Consumes.keyword _).andThen (consumes_bounds hf).shrinks).map.map.orElse <|
    ((Consumes.keyword _).andThen (consumes_bounds hf).shrinks).map.map.orElse hh

theorem shrinks_opening : Shrinks ((optional (keyword "unsafe")).keepLeft (keyword "impl")) :=
  ((Consumes.keyword "unsafe").shrinks.optional.andThen (Consumes.keyword "impl").shrinks).map

theorem shrinks_traitHead (h : Shrinks full) : Shrinks (traitHead full) :=
  ((shrinks_opening.andThen (consumes_generics h).shrinks.optional).andThen
    (Consumes.mark "!").shrinks.optional).andThen (consumes_typePath h).shrinks

theorem consumes_typeAt (depth : Nat) (spot : Spot) : Consumes (typeAt depth spot) := by
  induction depth generalizing spot with
  | zero => exact fun _ _ _ h => nomatch h
  | succ depth ih =>
    have plainer := consumes_plainType (ih .full).shrinks (ih .plain).shrinks
    cases spot with
    | plain => exact plainer
    | full => exact consumes_fullType (ih .full).shrinks plainer

end Extent

end Reader

end ImplFamilies.Grammar
