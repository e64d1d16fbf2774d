import ImplFamilies.Canonical.Params
import ImplFamilies.Signature.Equality
import ImplFamilies.Signature.Inclusion
import ImplFamilies.Signature.Printer
import ImplFamilies.Signature.Renaming

/-!
Canonical forms: signatures in which the names chosen for type parameters and the place where a
bound is written no longer show. The type parameters are called `T0`, `T1` and so on in the order
of declaration.
-/

namespace ImplFamilies

/-- The parameters keep their declared names; the trait and the type have the canonical ones. -/
structure CanonicalForm where
  params : List Param
  negated : Bool
  traitRef : Option TypePath
  selfTy : Ty

/-- The name of the type parameter at a place in the order of declaration. -/
def canonicalName (index : Nat) : String :=
  "T" ++ toString index

/-- Renames the type parameters of a list to their canonical names. -/
def canonicalRenaming (params : List Param) : Renaming := fun name =>
  ((Param.typeNames params).idxOf? name).map canonicalName

namespace CanonicalForm

def ofSignature (s : Signature) : Except Violation CanonicalForm :=
  match Param.constrainAll (Param.declareAll s.generics) (s.whereClause.getD []) with
  | .error violation => .error violation
  | .ok params =>
    .ok {
      params
      negated := s.negated
      traitRef := s.traitRef.map (TypePath.rename (canonicalRenaming params))
      selfTy := s.selfTy.rename (canonicalRenaming params) }

/-- Both have the same trait and the same type; parameters do not count. -/
def sameShape (a b : CanonicalForm) : Bool :=
  a.negated == b.negated && a.traitRef == b.traitRef && a.selfTy == b.selfTy

/-- Both have the same shape and the same parameters, in whatever order. -/
def same (a b : CanonicalForm) : Bool :=
  a.sameShape b && a.params.length == b.params.length && a.params.all (b.params.contains ·)

/-- Traits are compared only where both forms have one. -/
def traitIncludes : Option TypePath → Option TypePath → Bool
  | some p, some q => p.includes q
  | _, _ => true

/-- The first form is general enough to stand for the second. -/
def includes (a b : CanonicalForm) : Bool :=
  a.negated == b.negated && traitIncludes a.traitRef b.traitRef && a.selfTy.includes b.selfTy

/-- The trait and the type in one line. -/
def header (f : CanonicalForm) : String :=
  (if f.negated then "!" else "") ++
    (match f.traitRef with
      | some path => path.render ++ " for " ++ f.selfTy.render
      | none => f.selfTy.render)

end CanonicalForm

end ImplFamilies
