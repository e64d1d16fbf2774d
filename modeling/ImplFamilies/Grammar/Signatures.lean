import ImplFamilies.Grammar.Types

/-!
Rules for generic lists, where clauses and whole signatures. An implementation of a trait is tried
first, an inherent one second.
-/

namespace ImplFamilies.Grammar

open Rule

section

variable (full : Rule Ty)

def lifetimeParam : Rule Param :=
  (lifetime.andThen (optional ((token ":").keepRight lifetimeBounds))).map
    fun (name, bounds) => .lifetime name (bounds.getD [])

def typeParam : Rule Param :=
  ((identifier.andThen (optional ((token ":").keepRight (bounds full)))).andThen
    (optional ((token "=").keepRight full))).map
    fun ((name, bounds), default) => .type (String.ofList name) (bounds.getD []) default

def generics : Rule (List Param) :=
  between "<" ">" (list (lifetimeParam.orElse (typeParam full)) (token ","))

def lifetimeItem : Rule Param :=
  ((lifetime.keepLeft (token ":")).andThen lifetimeBounds).map
    fun (name, bounds) => .lifetime name bounds

def typeItem : Rule Param :=
  ((identifier.keepLeft (token ":")).andThen (bounds full)).map
    fun (name, bounds) => .type (String.ofList name) bounds none

def whereClause : Rule (List Param) :=
  (keyword "where").keepRight (list (lifetimeItem.orElse (typeItem full)) (token ","))

def traitSignature : Rule Signature :=
  (((((((optional (keyword "unsafe")).keepLeft (keyword "impl")).andThen
    (optional (generics full))).andThen
    (optional (token "!"))).andThen
    (typePath full)).keepLeft (keyword "for")).andThen
    full |>.andThen
    (optional (whereClause full))).map
    fun ((((((mark, generics), negation), traitRef), selfTy), whereClause)) =>
      { generics := generics.getD []
        isUnsafe := mark.isSome
        negated := negation.isSome
        traitRef := some traitRef
        selfTy
        whereClause }

def inherentSignature : Rule Signature :=
  ((((keyword "impl").keepRight (optional (generics full))).andThen full).andThen
    (optional (whereClause full))).map
    fun ((generics, selfTy), whereClause) =>
      { generics := generics.getD []
        isUnsafe := false
        negated := false
        traitRef := none
        selfTy
        whereClause }

def signature : Rule Signature :=
  (padded ((traitSignature full).orElse (inherentSignature full))).keepLeft endOfInput

def loneType : Rule Ty :=
  (padded full).keepLeft endOfInput

end

/-- Each nested type begins after at least one character more, so this depth is never used up. -/
def depthFor (source : List Char) : Nat :=
  source.length + 1

def readSignature (source : List Char) : Outcome Signature :=
  signature (typeAt (depthFor source) .full) (Cursor.ofText source)

def readType (source : List Char) : Outcome Ty :=
  loneType (typeAt (depthFor source) .full) (Cursor.ofText source)

end ImplFamilies.Grammar
