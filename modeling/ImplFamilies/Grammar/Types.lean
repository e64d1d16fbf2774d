import ImplFamilies.Grammar.Token
import ImplFamilies.Signature.Tree
import ImplFamilies.Text.Joined

/-!
Rules for types, paths and bounds. A rule that reads nested types takes the rules for them as
arguments: `full` for a type anywhere, `plain` for the element of a pointer or a reference, where
a list of bounds cannot stand. `typeAt` is a type up to a given depth of nesting.
-/

namespace ImplFamilies.Grammar

open Rule

/-- Names with `::` between them. -/
def segments : Rule String :=
  (separated₁ identifier (token "::")).map fun names => String.ofList (Text.joined "::" names)

def modifier : Rule (List Char) :=
  ((keyword "unsafe").map fun _ => "unsafe".toList).orElse <|
    ((keyword "extern").map fun _ => "extern".toList).orElse <|
      (token "\"C\"").map fun _ => "\"C\"".toList

def modifiers : Rule String :=
  (many modifier).map fun words => String.ofList (Text.joined " " words)

def lifetimeBounds : Rule (List String) :=
  separated₁ lifetime (token "+")

section Nested

variable (full plain : Rule Ty)

def arg : Rule Arg :=
  (lifetime.map Arg.lifetime).orElse (full.map Arg.type)

def args : Rule (List Arg) :=
  (((token "<").andThen (token ">")).map fun _ => []).orElse
    (between "<" ">" (list₁ (arg full) (token ",")))

/-- A path called like a function: a name right before an opening parenthesis. -/
def callPath : Rule TypePath :=
  (((modifiers.andThen (segments.keepLeft (peek (token "(")))).andThen
    (between "(" ")" (list full (token ",")))).andThen
    (optional ((token "->").keepRight full))).map
    fun (((words, name), inputs), output) => .fn words name inputs output

def plainPath : Rule TypePath :=
  (segments.andThen (optional (args full))).map fun (names, args) => .plain names args

def typePath : Rule TypePath :=
  (callPath full).orElse (plainPath full)

def traitBound : Rule TraitBound :=
  ((optional (token "?")).andThen (typePath full)).map
    fun (mark, path) => .mk mark.isSome path

def bound : Rule Bound :=
  (lifetime.map Bound.lifetime).orElse ((traitBound full).map Bound.trait)

def bounds : Rule (List Bound) :=
  separated₁ (bound full) (token "+")

/-- One trait bound after an opener is kept apart from a list. -/
def bounded (opener : Opener) : List Bound → Ty
  | [.trait b] => .single opener b
  | bs => .bounded opener bs

def boundedType (opener : Opener) : Rule Ty :=
  ((keyword opener.word).keepRight (bounds full)).map (bounded opener)

def singleType (opener : Opener) : Rule Ty :=
  ((keyword opener.word).keepRight (traitBound full)).map (Ty.single opener)

def unitType : Rule Ty :=
  ((token "(").andThen (token ")")).map fun _ => .tuple []

/-- Parentheses always make a tuple, also around one type. -/
def tupleType : Rule Ty :=
  (between "(" ")" (list₁ full (token ","))).map Ty.tuple

def arrayOrSlice : Rule Ty :=
  (between "[" "]" (full.andThen (optional ((token ";").keepRight arrayLength)))).map
    fun
      | (element, some size) => .array element size
      | (element, none) => .slice element

def pointerType : Rule Ty :=
  (((token "*").keepRight
      (((keyword "mut").map fun _ => true).orElse ((keyword "const").map fun _ => false))).andThen
    plain).map fun (mutable, element) => .pointer mutable element

def referenceType : Rule Ty :=
  ((((token "&").keepRight (optional lifetime)).andThen
      ((optional (keyword "mut")).map Option.isSome)).andThen plain).map
    fun ((lifetime, mutable), element) => .reference lifetime mutable element

def plainType : Rule Ty :=
  ((token "!").map fun _ => .never).orElse <|
    unitType.orElse <|
    (tupleType full).orElse <|
    (arrayOrSlice full).orElse <|
    (pointerType plain).orElse <|
    (referenceType plain).orElse <|
    (singleType full .impl).orElse <|
    (singleType full .dyn).orElse <|
    (typePath full).map Ty.path

/-- `here` reads the types that need no list of bounds. -/
def fullType (here : Rule Ty) : Rule Ty :=
  (boundedType full .impl).orElse <| (boundedType full .dyn).orElse here

end Nested

/-- Where a type stands: anywhere, or behind a star or an ampersand. -/
inductive Spot
  | full
  | plain
deriving DecidableEq

/-- Types nested less deep than the given bound. -/
def typeAt : Nat → Spot → Cursor → Outcome Ty
  | 0, _, c => stop c
  | depth + 1, .plain, c => plainType (typeAt depth .full) (typeAt depth .plain) c
  | depth + 1, .full, c =>
      fullType (typeAt depth .full) (plainType (typeAt depth .full) (typeAt depth .plain)) c

end ImplFamilies.Grammar
