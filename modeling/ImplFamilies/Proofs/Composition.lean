import ImplFamilies.Signature.Order

/-!
Induction over types and paths at once. A type or path may be assumed to satisfy what is to be
proved of it in all the types and paths it is made of, those in lists of arguments and of bounds
among them; lifetimes are no parts in this sense.
-/

namespace ImplFamilies

/-- A property of types and one of paths that pass from the parts to the whole. -/
structure Compositional (P : Ty → Prop) (Q : TypePath → Prop) : Prop where
  never : P .never
  path (p : TypePath) : Q p → P (.path p)
  tuple (xs : List Ty) : (∀ x ∈ xs, P x) → P (.tuple xs)
  array (x : Ty) (size : UInt64) : P x → P (.array x size)
  slice (x : Ty) : P x → P (.slice x)
  pointer (m : Bool) (x : Ty) : P x → P (.pointer m x)
  reference (l : Option String) (m : Bool) (x : Ty) : P x → P (.reference l m x)
  single (o : Opener) (b : TraitBound) : Q b.path → P (.single o b)
  bounded (o : Opener) (bs : List Bound) : (∀ b ∈ traitBounds bs, Q b.path) → P (.bounded o bs)
  plain (s : String) (as : Option (List Arg)) : (∀ x ∈ argTypes as, P x) → Q (.plain s as)
  fn (m n : String) (xs : List Ty) (x : Option Ty) :
    (∀ x ∈ xs, P x) → (∀ y ∈ x, P y) → Q (.fn m n xs x)

namespace Compositional

variable {P : Ty → Prop} {Q : TypePath → Prop}

mutual

theorem ty (h : Compositional P Q) : (a : Ty) → P a
  | .never => h.never
  | .path p => h.path p (h.typePath p)
  | .tuple xs => h.tuple xs (h.each xs)
  | .array x size => h.array x size (h.ty x)
  | .slice x => h.slice x (h.ty x)
  | .pointer m x => h.pointer m x (h.ty x)
  | .reference l m x => h.reference l m x (h.ty x)
  | .single o b => h.single o b (h.traitBound b)
  | .bounded o bs => h.bounded o bs (h.bounds bs)

theorem each (h : Compositional P Q) : (xs : List Ty) → ∀ x ∈ xs, P x
  | [] => by simp
  | x :: xs => List.forall_mem_cons.2 ⟨h.ty x, h.each xs⟩

theorem typePath (h : Compositional P Q) : (p : TypePath) → Q p
  | .plain s none => h.plain s none (by simp [argTypes, typeArgs])
  | .plain s (some as) => h.plain s (some as) (h.args as)
  | .fn m n xs none => h.fn m n xs none (h.each xs) (by simp)
  | .fn m n xs (some x) => h.fn m n xs (some x) (h.each xs) (by simpa using h.ty x)

theorem args (h : Compositional P Q) : (as : List Arg) → ∀ x ∈ typeArgs as, P x
  | [] => by simp [typeArgs]
  | .lifetime _ :: as => h.args as
  | .type x :: as => List.forall_mem_cons.2 ⟨h.ty x, h.args as⟩

theorem bounds (h : Compositional P Q) : (bs : List Bound) → ∀ b ∈ traitBounds bs, Q b.path
  | [] => by simp [traitBounds]
  | .lifetime _ :: bs => h.bounds bs
  | .trait b :: bs => List.forall_mem_cons.2 ⟨h.traitBound b, h.bounds bs⟩

theorem traitBound (h : Compositional P Q) : (b : TraitBound) → Q b.path
  | .mk _ p => h.typePath p

end

end Compositional

end ImplFamilies
