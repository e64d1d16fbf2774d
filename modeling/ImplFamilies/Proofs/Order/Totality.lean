import ImplFamilies.Proofs.Order.Preorder

/-!
The order leaves no two types without an answer. Types of different kinds are told apart by the
names of their kinds; types of one kind are compared by their parts, and types whose kinds have one
name are of one kind.
-/

namespace ImplFamilies

namespace Sequence

variable {α : Type}

def orderLast (cmp : α → α → Ordering) (xs ys : List α) : Ordering :=
  match xs.getLast?, ys.getLast? with
  | some x, some y => cmp x y
  | _, _ => .eq

/-- Shared positions decide first, then the lengths, and between lists of one length their last
items once more. -/
def orderWithLast (cmp : α → α → Ordering) (xs ys : List α) : Ordering :=
  match ((xs.zip ys).map fun (x, y) => cmp x y).find? (· != .eq) with
  | some decided => decided
  | none => (compare xs.length ys.length).then (orderLast cmp xs ys)

theorem orderLast_cons {cmp : α → α → Ordering} {x y : α} (first : cmp x y = .eq)
    (xs ys : List α) :
    (compare xs.length ys.length).then (orderLast cmp (x :: xs) (y :: ys)) =
      (compare xs.length ys.length).then (orderLast cmp xs ys) := by
  cases xs with
  | nil =>
    cases ys with
    | nil => exact first
    | cons y' ys => rfl
  | cons x' xs =>
    cases ys with
    | nil => rfl
    | cons y' ys => rw [orderLast, List.getLast?_cons_cons, List.getLast?_cons_cons, orderLast]

theorem orderWithLast_cons (cmp : α → α → Ordering) (x y : α) (xs ys : List α) :
    orderWithLast cmp (x :: xs) (y :: ys) = (cmp x y).then (orderWithLast cmp xs ys) := by
  have lengths : compare (xs.length + 1) (ys.length + 1) = compare xs.length ys.length := by
    simp [compare, compareOfLessAndEq]
  cases first : cmp x y with
  | lt => simp [orderWithLast, first]
  | gt => simp [orderWithLast, first]
  | eq => simp [orderWithLast, first, lengths, orderLast_cons first]

/-- The last look at the last items finds what the first one found. -/
theorem orderWithLast_eq (cmp : α → α → Ordering) (xs ys : List α) :
    orderWithLast cmp xs ys = xs.compareLex cmp ys := by
  induction xs generalizing ys with
  | nil =>
    cases ys with
    | nil => rfl
    | cons y ys =>
      rw [List.compareLex_nil_cons]
      rfl
  | cons x xs ih =>
    cases ys with
    | nil =>
      rw [List.compareLex_cons_nil]
      rfl
    | cons y ys => rw [orderWithLast_cons, List.compareLex_cons_cons, ih]

end Sequence

def Ty.tag : Ty → String
  | .never => "never"
  | .path _ => "typePath"
  | .tuple _ => "tuple"
  | .array _ _ => "array"
  | .slice _ => "slice"
  | .pointer _ _ => "pointer"
  | .reference _ _ _ => "reference"
  | .bounded .impl _ => "implTrait"
  | .bounded .dyn _ => "traitObject"
  | .single .impl _ => "implTraitOneBound"
  | .single .dyn _ => "traitObjectOneBound"

def Ty.tags : List String :=
  ["array", "implTrait", "implTraitOneBound", "never", "pointer", "reference", "slice",
    "traitObject", "traitObjectOneBound", "tuple", "typePath"]

theorem Ty.compare_tags : ∀ i j : Fin tags.length, compare tags[i] tags[j] = compare i.1 j.1 := by
  decide +kernel

theorem Ty.getElem?_tags_rank (a : Ty) : tags[a.rank]? = some a.tag := by
  rcases a with _ | p | xs | x | x | x | x | ⟨_ | _, c⟩ | ⟨_ | _, bs⟩ <;> rfl

theorem Ty.compare_tag (a b : Ty) : compare a.tag b.tag = compare a.rank b.rank := by
  obtain ⟨ha, atag⟩ := List.getElem?_eq_some_iff.1 (getElem?_tags_rank a)
  obtain ⟨hb, btag⟩ := List.getElem?_eq_some_iff.1 (getElem?_tags_rank b)
  rw [← atag, ← btag]
  exact compare_tags ⟨a.rank, ha⟩ ⟨b.rank, hb⟩

def Ty.partsOrder? : Ty → Ty → Option Ordering
  | .never, .never => some .eq
  | .path p, .path q => some (p.order q)
  | .tuple xs, .tuple ys => some (Sequence.orderWithLast Ty.order xs ys)
  | .array x m, .array y n => some ((x.order y).then (compare m n))
  | .slice x, .slice y => some (x.order y)
  | .pointer m x, .pointer n y => some ((compare m n).then (x.order y))
  | .reference l m x, .reference k n y =>
      some ((compare l k).then ((compare m n).then (x.order y)))
  | .bounded .impl bs, .bounded .impl cs => some (Sequence.orderWithLast Bound.order bs cs)
  | .bounded .dyn bs, .bounded .dyn cs => some (Sequence.orderWithLast Bound.order bs cs)
  | .single .impl b, .single .impl c => some (b.order c)
  | .single .dyn b, .single .dyn c => some (b.order c)
  | _, _ => none

/-- The names of the kinds decide first, then the parts. -/
def Ty.orderByTag? (a b : Ty) : Option Ordering :=
  match compare a.tag b.tag with
  | .eq => a.partsOrder? b
  | decided => some decided

theorem Ty.partsOrder?_of_sameKind {a b : Ty} (same : SameKind a b) :
    a.partsOrder? b = some (a.order b) := by
  cases same with
  | never => simp [partsOrder?, Ty.order]
  | tuple xs ys => rw [partsOrder?, Ty.order, Ty.orderEach_eq, Sequence.orderWithLast_eq]
  | single o b c =>
    cases o <;> rw [partsOrder?, Ty.order] <;> rfl
  | bounded o bs cs =>
    cases o <;>
      rw [partsOrder?, Ty.order, Bound.orderEach_eq, Sequence.orderWithLast_eq] <;>
      rfl
  | _ => rw [partsOrder?, Ty.order]

theorem Ty.orderByTag?_eq (a b : Ty) : a.orderByTag? b = some (a.order b) := by
  rw [orderByTag?, compare_tag]
  by_cases h : a.rank = b.rank
  · rw [Nat.compare_eq_eq.2 h]
    exact partsOrder?_of_sameKind (sameKind_of_rank_eq h)
  · rw [order_of_rank_ne h]
    cases decided : compare a.rank b.rank with
    | eq => exact absurd (Nat.compare_eq_eq.1 decided) h
    | lt => rfl
    | gt => rfl

/-- Comparing the other way round gives the reverse, comparing with itself gives equality, and what
is not greater passes on. -/
structure TotalPreorder {α : Type} (cmp : α → α → Ordering) : Prop where
  reverse (a b : α) : cmp b a = (cmp a b).swap
  self (a : α) : cmp a a = .eq
  trans (a b c : α) : cmp a b ≠ .gt → cmp b c ≠ .gt → cmp a c ≠ .gt

theorem TotalPreorder.of_transCmp {α : Type} (cmp : α → α → Ordering) [Std.TransCmp cmp] :
    TotalPreorder cmp where
  reverse _ _ := Std.OrientedCmp.eq_swap
  self _ := Std.ReflCmp.compare_self
  trans a b c := by
    simp only [Ordering.ne_gt_iff_isLE]
    exact Std.TransCmp.isLE_trans

/-- Types, paths and bounds are in a total preorder each. That of types is the one of the names of
their kinds and then of their parts, and it leaves no two types without an answer. -/
theorem order_is_total_preorder :
    TotalPreorder Ty.order ∧ TotalPreorder TypePath.order ∧ TotalPreorder Bound.order ∧
      ∀ a b : Ty, a.orderByTag? b = some (a.order b) :=
  ⟨.of_transCmp _, .of_transCmp _, .of_transCmp _, Ty.orderByTag?_eq⟩

end ImplFamilies
