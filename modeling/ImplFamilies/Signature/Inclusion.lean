import ImplFamilies.Sequence.Covering
import ImplFamilies.Signature.Order

/-!
Inclusion: when one type is general enough to stand for another. A longer tuple or argument list
includes a shorter one whose positions it covers, a longer array a shorter one; lifetimes are
never read.
-/

namespace ImplFamilies

open Sequence

mutual

def Ty.includes : Ty → Ty → Bool
  | .never, .never => true
  | .path p, .path q => p.includes q
  | .tuple xs, .tuple ys => emptyFits xs ys && Ty.includesEach xs ys
  | .array x m, .array y n => decide (n ≤ m) && x.includes y
  | .slice x, .slice y => x.includes y
  | .pointer m x, .pointer n y => m == n && x.includes y
  | .reference _ m x, .reference _ n y => m == n && x.includes y
  | .single o b, .single q c => o == q && b.includes c
  | .bounded o bs, .bounded q cs =>
      o == q && emptyFits (traitBounds bs) (traitBounds cs) &&
        Bound.includesTraits bs (traitBounds cs)
  | _, _ => false

def Ty.includesEach : List Ty → List Ty → Bool
  | _, [] => true
  | [], _ :: _ => false
  | x :: xs, y :: ys => x.includes y && Ty.includesEach xs ys

def TypePath.includes : TypePath → TypePath → Bool
  | .plain s none, .plain t bs => s == t && (argTypes bs).isEmpty
  | .plain s (some as), .plain t bs =>
      s == t && emptyFits (typeArgs as) (argTypes bs) && Arg.includesTypes as (argTypes bs)
  | .fn m n xs none, .fn k l ys none =>
      n == l && m == k && emptyFits xs ys && Ty.includesEach xs ys
  | .fn m n xs (some x), .fn k l ys (some y) =>
      n == l && m == k && emptyFits xs ys && Ty.includesEach xs ys && x.includes y
  | _, _ => false

/-- The type arguments of a list against types. -/
def Arg.includesTypes : List Arg → List Ty → Bool
  | [], ys => ys.isEmpty
  | .lifetime _ :: as, ys => Arg.includesTypes as ys
  | .type _ :: _, [] => true
  | .type x :: as, y :: ys => x.includes y && Arg.includesTypes as ys

/-- The trait bounds of a list against trait bounds. -/
def Bound.includesTraits : List Bound → List TraitBound → Bool
  | [], cs => cs.isEmpty
  | .lifetime _ :: bs, cs => Bound.includesTraits bs cs
  | .trait _ :: _, [] => true
  | .trait b :: bs, c :: cs => b.includes c && Bound.includesTraits bs cs

/-- An optional bound includes a required one, and not the other way round. -/
def TraitBound.includes : TraitBound → TraitBound → Bool
  | .mk o p, .mk q r => (o || !q) && p.includes r

end

theorem Ty.includesEach_eq (xs ys : List Ty) :
    Ty.includesEach xs ys = coversEach Ty.includes xs ys := by
  induction xs generalizing ys with
  | nil => cases ys <;> simp [Ty.includesEach, coversEach]
  | cons x xs ih => cases ys <;> simp [Ty.includesEach, coversEach, ih]

theorem Arg.includesTypes_eq (as : List Arg) (ys : List Ty) :
    Arg.includesTypes as ys = coversEach Ty.includes (typeArgs as) ys := by
  induction as generalizing ys with
  | nil => cases ys <;> simp [Arg.includesTypes, typeArgs, coversEach]
  | cons a as ih =>
    cases a <;> cases ys <;> simp [Arg.includesTypes, typeArgs, coversEach, ih]

theorem Bound.includesTraits_eq (bs : List Bound) (cs : List TraitBound) :
    Bound.includesTraits bs cs = coversEach TraitBound.includes (traitBounds bs) cs := by
  induction bs generalizing cs with
  | nil => cases cs <;> simp [Bound.includesTraits, traitBounds, coversEach]
  | cons b bs ih =>
    cases b <;> cases cs <;> simp [Bound.includesTraits, traitBounds, coversEach, ih]

end ImplFamilies
