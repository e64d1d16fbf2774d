import ImplFamilies.Signature.Tree

/-!
An order on types, paths and bounds, used to sort lists of bounds and to find repetitions in them.
It reads lifetimes of references and of bound lists, and passes over lifetimes among the arguments
of a path.
-/

namespace ImplFamilies

/-- Kinds of types stand in the order of their names, from array to path. -/
def Ty.rank : Ty → Nat
  | .array _ _ => 0
  | .bounded .impl _ => 1
  | .single .impl _ => 2
  | .never => 3
  | .pointer _ _ => 4
  | .reference _ _ _ => 5
  | .slice _ => 6
  | .bounded .dyn _ => 7
  | .single .dyn _ => 8
  | .tuple _ => 9
  | .path _ => 10

/-- The type arguments of a path; none when it has no brackets. -/
def argTypes (args : Option (List Arg)) : List Ty :=
  typeArgs (args.getD [])

mutual

def Ty.order : Ty → Ty → Ordering
  | .path p, .path q => p.order q
  | .tuple xs, .tuple ys => Ty.orderEach xs ys
  | .array x m, .array y n => (x.order y).then (compare m n)
  | .slice x, .slice y => x.order y
  | .pointer m x, .pointer n y => (compare m n).then (x.order y)
  | .reference l m x, .reference k n y =>
      (compare l k).then ((compare m n).then (x.order y))
  | .single o b, .single q c =>
      (compare (Ty.single o b).rank (Ty.single q c).rank).then (b.order c)
  | .bounded o bs, .bounded q cs =>
      (compare (Ty.bounded o bs).rank (Ty.bounded q cs).rank).then (Bound.orderEach bs cs)
  | x, y => compare x.rank y.rank

def Ty.orderEach : List Ty → List Ty → Ordering
  | [], [] => .eq
  | [], _ :: _ => .lt
  | _ :: _, [] => .gt
  | x :: xs, y :: ys => (x.order y).then (Ty.orderEach xs ys)

/-- A plain path comes before one called like a function. -/
def TypePath.order : TypePath → TypePath → Ordering
  | .plain s none, .plain t bs =>
      (compare s t).then (if (argTypes bs).isEmpty then .eq else .lt)
  | .plain s (some as), .plain t bs => (compare s t).then (Arg.orderTypes as (argTypes bs))
  | .plain _ _, .fn _ _ _ _ => .lt
  | .fn _ _ _ _, .plain _ _ => .gt
  | .fn m n xs none, .fn k l ys y =>
      (compare n l).then ((compare m k).then ((Ty.orderEach xs ys).then
        (compare false y.isSome)))
  | .fn m n xs (some x), .fn k l ys y =>
      (compare n l).then ((compare m k).then ((Ty.orderEach xs ys).then
        (match y with | some y => x.order y | none => .gt)))

/-- The type arguments of a list against types. -/
def Arg.orderTypes : List Arg → List Ty → Ordering
  | [], [] => .eq
  | [], _ :: _ => .lt
  | .lifetime _ :: as, ys => Arg.orderTypes as ys
  | .type _ :: _, [] => .gt
  | .type x :: as, y :: ys => (x.order y).then (Arg.orderTypes as ys)

/-- Lifetimes come before traits. -/
def Bound.order : Bound → Bound → Ordering
  | .lifetime l, .lifetime k => compare l k
  | .lifetime _, .trait _ => .lt
  | .trait _, .lifetime _ => .gt
  | .trait b, .trait c => b.order c

def Bound.orderEach : List Bound → List Bound → Ordering
  | [], [] => .eq
  | [], _ :: _ => .lt
  | _ :: _, [] => .gt
  | b :: bs, c :: cs => (b.order c).then (Bound.orderEach bs cs)

/-- A required bound comes before an optional one. -/
def TraitBound.order : TraitBound → TraitBound → Ordering
  | .mk o p, .mk q r => (compare o q).then (p.order r)

end

theorem Ty.orderEach_eq (xs ys : List Ty) : Ty.orderEach xs ys = xs.compareLex Ty.order ys := by
  induction xs generalizing ys with
  | nil => cases ys <;> simp [Ty.orderEach, List.compareLex_nil_nil, List.compareLex_nil_cons]
  | cons x xs ih =>
    cases ys with
    | nil => simp [Ty.orderEach, List.compareLex_cons_nil]
    | cons y ys => simp [Ty.orderEach, List.compareLex_cons_cons, ih]

theorem Bound.orderEach_eq (bs cs : List Bound) :
    Bound.orderEach bs cs = bs.compareLex Bound.order cs := by
  induction bs generalizing cs with
  | nil => cases cs <;> simp [Bound.orderEach, List.compareLex_nil_nil, List.compareLex_nil_cons]
  | cons b bs ih =>
    cases cs with
    | nil => simp [Bound.orderEach, List.compareLex_cons_nil]
    | cons c cs => simp [Bound.orderEach, List.compareLex_cons_cons, ih]

theorem Arg.orderTypes_eq (as : List Arg) (ys : List Ty) :
    Arg.orderTypes as ys = (typeArgs as).compareLex Ty.order ys := by
  induction as generalizing ys with
  | nil =>
    cases ys <;> simp [Arg.orderTypes, typeArgs, List.compareLex_nil_nil, List.compareLex_nil_cons]
  | cons a as ih =>
    cases a with
    | lifetime l => simp [Arg.orderTypes, typeArgs, ih]
    | type x =>
      cases ys with
      | nil => simp [Arg.orderTypes, typeArgs, List.compareLex_cons_nil]
      | cons y ys => simp [Arg.orderTypes, typeArgs, List.compareLex_cons_cons, ih]

end ImplFamilies
