import ImplFamilies.Proofs.Grammar.Derivation
import ImplFamilies.Proofs.Grammar.Names

/-!
Trees that some text stands for. The type of trees has more: lists of bounds that no text yields,
names with any characters, where items that say nothing.
-/

namespace ImplFamilies

open Grammar (IsIdentifier IsLifetime WellNamed joinedWords)

/-- The parts of a path, from the first on, and its text. -/
structure Segmented (parts : List String) (text : String) : Prop where
  some : parts ≠ []
  each : ∀ part ∈ parts, IsIdentifier part
  joined : text = joinedWords "::" parts

def Modifying (text : String) : Prop :=
  ∃ words, (∀ word ∈ words, word ∈ ["unsafe", "extern", "\"C\""]) ∧ text = joinedWords " " words

def Ty.isBounded : Ty → Bool
  | .bounded _ _ => true
  | _ => false

mutual

inductive Ty.WellFormed : Ty → Prop
  | never : Ty.WellFormed .never
  | path {p : TypePath} (path : TypePath.WellFormed p) : Ty.WellFormed (.path p)
  | tuple {xs : List Ty} (each : ∀ x ∈ xs, Ty.WellFormed x) : Ty.WellFormed (.tuple xs)
  | array {x : Ty} {size : UInt64} (element : Ty.WellFormed x) : Ty.WellFormed (.array x size)
  | slice {x : Ty} (element : Ty.WellFormed x) : Ty.WellFormed (.slice x)
  | pointer {mutable : Bool} {x : Ty} (element : Ty.WellFormed x)
      (unlisted : x.isBounded = false) : Ty.WellFormed (.pointer mutable x)
  | reference {lifetime : Option String} {mutable : Bool} {x : Ty}
      (named : ∀ name ∈ lifetime, IsLifetime name) (element : Ty.WellFormed x)
      (unlisted : x.isBounded = false) : Ty.WellFormed (.reference lifetime mutable x)
  | single {opener : Opener} {b : TraitBound} (bound : TraitBound.WellFormed b) :
      Ty.WellFormed (.single opener b)
  /-- One trait bound has a form of its own. -/
  | bounded {opener : Opener} {bs : List Bound} (some : bs ≠ []) (several : ∀ b, bs ≠ [.trait b])
      (each : ∀ b ∈ bs, Bound.WellFormed b) : Ty.WellFormed (.bounded opener bs)

inductive TypePath.WellFormed : TypePath → Prop
  | plain {parts : List String} {text : String} {args : Option (List Arg)}
      (segments : Segmented parts text) (each : ∀ as ∈ args, ∀ a ∈ as, Arg.WellFormed a) :
      TypePath.WellFormed (.plain text args)
  /-- A modifier is never taken for the first part of the name. -/
  | fn {first : String} {others : List String} {modifiers name : String} {inputs : List Ty}
      {output : Option Ty} (words : Modifying modifiers) (segments : Segmented (first :: others) name)
      (unmodified : first ≠ "unsafe" ∧ first ≠ "extern") (each : ∀ x ∈ inputs, Ty.WellFormed x)
      (result : ∀ x ∈ output, Ty.WellFormed x) :
      TypePath.WellFormed (.fn modifiers name inputs output)

inductive Arg.WellFormed : Arg → Prop
  | lifetime {name : String} (named : IsLifetime name) : Arg.WellFormed (.lifetime name)
  | type {x : Ty} (type : Ty.WellFormed x) : Arg.WellFormed (.type x)

inductive Bound.WellFormed : Bound → Prop
  | lifetime {name : String} (named : IsLifetime name) : Bound.WellFormed (.lifetime name)
  | trait {b : TraitBound} (bound : TraitBound.WellFormed b) : Bound.WellFormed (.trait b)

inductive TraitBound.WellFormed : TraitBound → Prop
  | mk {optional : Bool} {p : TypePath} (path : TypePath.WellFormed p) :
      TraitBound.WellFormed (.mk optional p)

end

namespace Param

inductive WellFormed : Param → Prop
  | lifetime {name : String} {bounds : List String} (named : IsLifetime name)
      (each : ∀ bound ∈ bounds, IsLifetime bound) : WellFormed (.lifetime name bounds)
  | type {name : String} {bounds : List Bound} {default : Option Ty} (named : IsIdentifier name)
      (each : ∀ b ∈ bounds, b.WellFormed) (given : ∀ t ∈ default, t.WellFormed) :
      WellFormed (.type name bounds default)

theorem WellFormed.wellNamed {p : Param} (h : p.WellFormed) : WellNamed p := by
  cases h with
  | lifetime named each => exact named
  | type named each given => exact named

/-- What an item of a where clause has besides: a bound, and no default. -/
def Constrains : Param → Prop
  | .lifetime _ bounds => bounds ≠ []
  | .type _ bounds default => bounds ≠ [] ∧ default = none

end Param

structure Signature.WellFormed (d : Signature) : Prop where
  generics : ∀ p ∈ d.generics, p.WellFormed
  trait : ∀ p ∈ d.traitRef, p.WellFormed
  self : d.selfTy.WellFormed
  items : ∀ items ∈ d.whereClause, ∀ p ∈ items, p.WellFormed ∧ p.Constrains
  /-- Only an implementation of a trait has a mark in front. -/
  inherent : d.traitRef = none → d.isUnsafe = false ∧ d.negated = false

end ImplFamilies
