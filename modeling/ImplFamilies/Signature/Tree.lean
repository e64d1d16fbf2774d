/-!
The tree of an implementation signature, as written: nothing is resolved and no name is changed. A
type after one of the words `impl` and `dyn` keeps apart a single trait bound and a list of
bounds.
-/

namespace ImplFamilies

/-- The word that opens a type made of bounds. -/
inductive Opener
  | impl
  | dyn
deriving DecidableEq, Repr

def Opener.word : Opener → String
  | .impl => "impl"
  | .dyn => "dyn"

mutual

inductive Ty
  | never
  | path (p : TypePath)
  | tuple (elements : List Ty)
  | array (element : Ty) (size : UInt64)
  | slice (element : Ty)
  | pointer (mutable : Bool) (element : Ty)
  | reference (lifetime : Option String) (mutable : Bool) (element : Ty)
  /-- One trait bound after the opener. -/
  | single (opener : Opener) (bound : TraitBound)
  /-- A list of bounds after the opener. -/
  | bounded (opener : Opener) (bounds : List Bound)

inductive TypePath
  /-- Segments with `::` between them; `none` when no angle brackets were written. -/
  | plain (segments : String) (args : Option (List Arg))
  /-- A path called like a function; the modifiers have single spaces between them. -/
  | fn (modifiers name : String) (inputs : List Ty) (output : Option Ty)

inductive Arg
  | lifetime (name : String)
  | type (ty : Ty)

inductive Bound
  | lifetime (name : String)
  | trait (bound : TraitBound)

inductive TraitBound
  /-- `optional` is set by a question mark in front. -/
  | mk (optional : Bool) (path : TypePath)

end

namespace TraitBound

def optional : TraitBound → Bool
  | .mk optional _ => optional

def path : TraitBound → TypePath
  | .mk _ path => path

end TraitBound

instance : Inhabited Ty := ⟨.never⟩
instance : Inhabited TypePath := ⟨.plain "" none⟩

/-- A generic parameter, or an item of a where clause. Lifetime names keep their apostrophe. -/
inductive Param
  | lifetime (name : String) (bounds : List String)
  | type (name : String) (bounds : List Bound) (default : Option Ty)

namespace Param

def name : Param → String
  | .lifetime name _ => name
  | .type name _ _ => name

def isLifetime : Param → Bool
  | .lifetime _ _ => true
  | .type _ _ _ => false

end Param

/-- The head of an implementation: what stands before its body. -/
structure Signature where
  generics : List Param
  isUnsafe : Bool
  negated : Bool
  /-- `none` for an inherent implementation. -/
  traitRef : Option TypePath
  selfTy : Ty
  whereClause : Option (List Param)

namespace Signature

def isInherent (s : Signature) : Bool :=
  s.traitRef.isNone

end Signature

/-- The type arguments in order, the lifetimes left out. -/
def typeArgs : List Arg → List Ty
  | [] => []
  | .lifetime _ :: args => typeArgs args
  | .type ty :: args => ty :: typeArgs args

/-- The trait bounds in order, the lifetimes left out. -/
def traitBounds : List Bound → List TraitBound
  | [] => []
  | .lifetime _ :: bounds => traitBounds bounds
  | .trait b :: bounds => b :: traitBounds bounds

end ImplFamilies
