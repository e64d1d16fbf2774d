import ImplFamilies.Proofs.Composition
import Mathlib.Order.Compare

/-!
Comparing types, paths and bounds the other way round reverses the answer, and what comes not after
an item comes not after what that item does not come after.

Transitivity alone does not pass from the parts of a tree to the tree, since parts that are equal in
the order must be interchangeable as well. What does pass on is how the three comparisons of three
items hang together.
-/

namespace ImplFamilies

/-- How three items compare two by two: one that is equal to its neighbour can stand for it, and two
steps in one direction lead in that direction. -/
structure Chained (ab bc ac : Ordering) : Prop where
  left : ab = .eq → ac = bc
  right : bc = .eq → ac = ab
  onward : ab = bc → ac = ab

namespace Chained

variable {α : Type} {ab bc ac ab' bc' ac' : Ordering}

theorem of_compare (cmp : α → α → Ordering) [Std.TransCmp cmp] (a b c : α) :
    Chained (cmp a b) (cmp b c) (cmp a c) where
  left h := Std.TransCmp.congr_left h
  right h := (Std.TransCmp.congr_right h).symm
  onward h := by
    cases first : cmp a b with
    | lt => exact Std.TransCmp.lt_trans first (h ▸ first)
    | eq => exact (Std.TransCmp.congr_left first).trans (h ▸ first)
    | gt => exact Std.TransCmp.gt_trans first (h ▸ first)

/- Where one of the items differs in kind, two comparisons are settled whatever the third is. -/

theorem lt_left (o : Ordering) : Chained .lt o .lt := by
  constructor <;> simp

theorem lt_right (o : Ordering) : Chained o .lt .lt := by
  constructor <;> simp +contextual

theorem gt_left (o : Ordering) : Chained .gt o .gt := by
  constructor <;> simp

theorem gt_right (o : Ordering) : Chained o .gt .gt := by
  constructor <;> simp +contextual

theorem lt_gt (o : Ordering) : Chained .lt .gt o := by
  constructor <;> simp

theorem gt_lt (o : Ordering) : Chained .gt .lt o := by
  constructor <;> simp

/-- Further comparisons count only where the ones before find nothing. -/
theorem lex (h : Chained ab bc ac) (h' : ab = .eq → bc = .eq → Chained ab' bc' ac') :
    Chained (ab.then ab') (bc.then bc') (ac.then ac') := by
  obtain ⟨left, right, onward⟩ := h
  cases ab <;> cases bc
  case eq.eq =>
    rw [left rfl]
    exact h' rfl rfl
  case eq.lt => rw [left rfl]; exact lt_right _
  case eq.gt => rw [left rfl]; exact gt_right _
  case lt.eq => rw [right rfl]; exact lt_left _
  case gt.eq => rw [right rfl]; exact gt_left _
  case lt.lt => rw [onward rfl]; exact lt_left _
  case gt.gt => rw [onward rfl]; exact gt_left _
  case lt.gt => exact lt_gt _
  case gt.lt => exact gt_lt _

theorem isLE (h : Chained ab bc ac) (first : ab.isLE = true) (second : bc.isLE = true) :
    ac.isLE = true := by
  cases ab <;> cases bc
  case lt.lt => rw [h.onward rfl]; rfl
  case lt.eq => rw [h.right rfl]; rfl
  case eq.lt | eq.eq => rw [h.left rfl]; rfl
  all_goals simp at first second

/- Lists are compared item by item; the shorter of two that agree comes first. -/

theorem compareLex {cmp : α → α → Ordering} {xs : List α}
    (each : ∀ x ∈ xs, ∀ y z, Chained (cmp x y) (cmp y z) (cmp x z)) (ys zs : List α) :
    Chained (xs.compareLex cmp ys) (ys.compareLex cmp zs) (xs.compareLex cmp zs) := by
  induction xs generalizing ys zs with
  | nil =>
    cases ys with
    | nil =>
      rw [List.compareLex_nil_nil]
      exact ⟨fun _ => rfl, id, Eq.symm⟩
    | cons y ys =>
      rw [List.compareLex_nil_cons]
      cases zs with
      | nil => rw [List.compareLex_cons_nil]; exact lt_gt _
      | cons z zs => rw [List.compareLex_nil_cons]; exact lt_left _
  | cons x xs ih =>
    obtain ⟨first, rest⟩ := List.forall_mem_cons.1 each
    cases ys with
    | nil =>
      rw [List.compareLex_cons_nil]
      cases zs with
      | nil => rw [List.compareLex_cons_nil]; exact gt_left _
      | cons z zs => rw [List.compareLex_nil_cons]; exact gt_lt _
    | cons y ys =>
      cases zs with
      | nil =>
        rw [List.compareLex_cons_nil, List.compareLex_cons_nil]
        exact gt_right _
      | cons z zs =>
        rw [List.compareLex_cons_cons, List.compareLex_cons_cons, List.compareLex_cons_cons]
        exact (first y z).lex fun _ _ => ih rest ys zs

end Chained

theorem compareLex_swap {α : Type} {cmp : α → α → Ordering} {xs : List α}
    (each : ∀ x ∈ xs, ∀ y, cmp y x = (cmp x y).swap) (ys : List α) :
    ys.compareLex cmp xs = (xs.compareLex cmp ys).swap := by
  induction xs generalizing ys with
  | nil =>
    cases ys <;>
      simp [List.compareLex_nil_nil, List.compareLex_nil_cons, List.compareLex_cons_nil]
  | cons x xs ih =>
    obtain ⟨first, rest⟩ := List.forall_mem_cons.1 each
    cases ys with
    | nil => simp [List.compareLex_nil_cons, List.compareLex_cons_nil]
    | cons y ys => simp [List.compareLex_cons_cons, first y, ih rest ys, Ordering.swap_then]

/- The order of paths as one comparison after the other. -/

theorem TypePath.order_plain (s t : String) (as bs : Option (List Arg)) :
    (TypePath.plain s as).order (.plain t bs) =
      (compare s t).then ((argTypes as).compareLex Ty.order (argTypes bs)) := by
  cases as with
  | none =>
    have empty : argTypes none = [] := rfl
    rw [TypePath.order, empty]
    cases argTypes bs <;> simp [List.compareLex_nil_nil, List.compareLex_nil_cons]
  | some as => rw [TypePath.order, Arg.orderTypes_eq]; rfl

def Ty.outputOrder : Option Ty → Option Ty → Ordering
  | some x, some y => x.order y
  | x, y => compare x.isSome y.isSome

theorem TypePath.order_fn (m n k l : String) (xs ys : List Ty) (x y : Option Ty) :
    (TypePath.fn m n xs x).order (.fn k l ys y) =
      (compare n l).then ((compare m k).then
        ((xs.compareLex Ty.order ys).then (Ty.outputOrder x y))) := by
  cases x <;> cases y <;> simp [TypePath.order, Ty.orderEach_eq, Ty.outputOrder]
  rfl

theorem TypePath.order_plain_fn (s m n : String) (as : Option (List Arg)) (xs : List Ty)
    (x : Option Ty) : (TypePath.plain s as).order (.fn m n xs x) = .lt := by
  cases as <;> rw [TypePath.order]

theorem TypePath.order_fn_plain (m n s : String) (xs : List Ty) (x : Option Ty)
    (as : Option (List Arg)) : (TypePath.fn m n xs x).order (.plain s as) = .gt := by
  cases x <;> rw [TypePath.order]

/- Kinds of types. -/

inductive Ty.SameKind : Ty → Ty → Prop
  | never : SameKind .never .never
  | path (p q : TypePath) : SameKind (.path p) (.path q)
  | tuple (xs ys : List Ty) : SameKind (.tuple xs) (.tuple ys)
  | array (x y : Ty) (m n : UInt64) : SameKind (.array x m) (.array y n)
  | slice (x y : Ty) : SameKind (.slice x) (.slice y)
  | pointer (m n : Bool) (x y : Ty) : SameKind (.pointer m x) (.pointer n y)
  | reference (l k : Option String) (m n : Bool) (x y : Ty) :
      SameKind (.reference l m x) (.reference k n y)
  | single (o : Opener) (b c : TraitBound) : SameKind (.single o b) (.single o c)
  | bounded (o : Opener) (bs cs : List Bound) : SameKind (.bounded o bs) (.bounded o cs)

theorem Ty.sameKind_of_rank_eq {a b : Ty} (h : a.rank = b.rank) : SameKind a b := by
  rcases a with _ | p | xs | x | x | x | x | ⟨_ | _, c⟩ | ⟨_ | _, bs⟩ <;>
    rcases b with _ | q | ys | y | y | y | y | ⟨_ | _, d⟩ | ⟨_ | _, cs⟩ <;>
    first
    | constructor
    | cases h

theorem Ty.order_of_rank_ne {a b : Ty} (h : a.rank ≠ b.rank) :
    a.order b = compare a.rank b.rank := by
  rcases a with _ | p | xs | x | x | x | x | ⟨_ | _, c⟩ | ⟨_ | _, bs⟩ <;>
    rcases b with _ | q | ys | y | y | y | y | ⟨_ | _, d⟩ | ⟨_ | _, cs⟩ <;>
    first
    | exact absurd rfl h
    | rw [Ty.order] <;> simp
    | rw [Ty.order]; rfl

theorem mem_traitBounds {bs : List Bound} {b : TraitBound} :
    b ∈ traitBounds bs ↔ .trait b ∈ bs := by
  induction bs with
  | nil => simp [traitBounds]
  | cons c bs ih => cases c <;> simp [traitBounds, ih]

/- Comparing the other way round. -/

theorem TraitBound.order_swap {b : TraitBound}
    (paths : ∀ q, q.order b.path = (b.path.order q).swap) (c : TraitBound) :
    c.order b = (b.order c).swap := by
  obtain ⟨o, p⟩ := b
  obtain ⟨o', p'⟩ := c
  have marks : compare o' o = (compare o o').swap := Std.OrientedCmp.eq_swap
  have same : p'.order p = (p.order p').swap := paths p'
  rw [TraitBound.order, TraitBound.order, Ordering.swap_then, marks, same]

theorem Bound.order_swap {b : Bound}
    (traits : ∀ t, b = .trait t → ∀ q : TypePath, q.order t.path = (t.path.order q).swap)
    (c : Bound) : c.order b = (b.order c).swap := by
  cases b with
  | lifetime l =>
    cases c with
    | lifetime k =>
      rw [Bound.order, Bound.order]
      exact Std.OrientedCmp.eq_swap
    | trait c => rw [Bound.order, Bound.order, Ordering.swap_lt]
  | trait b =>
    cases c with
    | lifetime k => rw [Bound.order, Bound.order, Ordering.swap_gt]
    | trait c =>
      rw [Bound.order, Bound.order]
      exact TraitBound.order_swap (traits b rfl) c

theorem Ty.outputOrder_swap {x : Option Ty} (types : ∀ a ∈ x, ∀ b, b.order a = (a.order b).swap)
    (y : Option Ty) : Ty.outputOrder y x = (Ty.outputOrder x y).swap := by
  match x, y with
  | some x, some y => exact types x rfl y
  | some _, none => rfl
  | none, some _ => rfl
  | none, none => rfl

theorem Ty.order_swap_of_sameKind {a b : Ty}
    (parts : SameKind a b → b.order a = (a.order b).swap) : b.order a = (a.order b).swap := by
  by_cases h : a.rank = b.rank
  · exact parts (sameKind_of_rank_eq h)
  · rw [order_of_rank_ne h, order_of_rank_ne (Ne.symm h)]
    exact Std.OrientedCmp.eq_swap

theorem order_swap_compositional : Compositional
    (fun a => ∀ b : Ty, b.order a = (a.order b).swap)
    (fun p => ∀ q : TypePath, q.order p = (p.order q).swap) where
  never := by
    intro b
    refine Ty.order_swap_of_sameKind fun same => ?_
    cases same
    simp [Ty.order]
  path := by
    intro p ih b
    refine Ty.order_swap_of_sameKind fun same => ?_
    cases same with
    | path _ q => rw [Ty.order, Ty.order, ih q]
  tuple := by
    intro xs ih b
    refine Ty.order_swap_of_sameKind fun same => ?_
    cases same with
    | tuple _ ys => rw [Ty.order, Ty.order, Ty.orderEach_eq, Ty.orderEach_eq, compareLex_swap ih ys]
  array := by
    intro x m ih b
    refine Ty.order_swap_of_sameKind fun same => ?_
    cases same with
    | array _ y _ n =>
      have sizes : compare n m = (compare m n).swap := Std.OrientedCmp.eq_swap
      rw [Ty.order, Ty.order, Ordering.swap_then, ih y, sizes]
  slice := by
    intro x ih b
    refine Ty.order_swap_of_sameKind fun same => ?_
    cases same with
    | slice _ y => rw [Ty.order, Ty.order, ih y]
  pointer := by
    intro m x ih b
    refine Ty.order_swap_of_sameKind fun same => ?_
    cases same with
    | pointer _ n _ y =>
      have marks : compare n m = (compare m n).swap := Std.OrientedCmp.eq_swap
      rw [Ty.order, Ty.order, Ordering.swap_then, ih y, marks]
  reference := by
    intro l m x ih b
    refine Ty.order_swap_of_sameKind fun same => ?_
    cases same with
    | reference _ k _ n _ y =>
      have lifetimes : compare k l = (compare l k).swap := Std.OrientedCmp.eq_swap
      have marks : compare n m = (compare m n).swap := Std.OrientedCmp.eq_swap
      rw [Ty.order, Ty.order, Ordering.swap_then, Ordering.swap_then, ih y, lifetimes, marks]
  single := by
    intro o c ih b
    refine Ty.order_swap_of_sameKind fun same => ?_
    cases same with
    | single _ _ d =>
      have kinds : (Ty.single o d).rank = (Ty.single o c).rank := by cases o <;> rfl
      rw [Ty.order, Ty.order, kinds, Ordering.swap_then, TraitBound.order_swap ih d]
      simp
  bounded := by
    intro o bs ih b
    refine Ty.order_swap_of_sameKind fun same => ?_
    cases same with
    | bounded _ _ cs =>
      have each : ∀ b ∈ bs, ∀ c, Bound.order c b = (b.order c).swap := by
        rintro b hb
        exact Bound.order_swap fun t ht => ih t (mem_traitBounds.2 (ht ▸ hb))
      have kinds : (Ty.bounded o cs).rank = (Ty.bounded o bs).rank := by cases o <;> rfl
      rw [Ty.order, Ty.order, kinds, Ordering.swap_then, Bound.orderEach_eq, Bound.orderEach_eq,
        compareLex_swap each cs]
      simp
  plain := by
    intro s as ih q
    cases q with
    | plain t bs =>
      have names : compare t s = (compare s t).swap := Std.OrientedCmp.eq_swap
      rw [TypePath.order_plain, TypePath.order_plain, Ordering.swap_then, names,
        compareLex_swap ih]
    | fn k l ys y => rw [TypePath.order_plain_fn, TypePath.order_fn_plain, Ordering.swap_lt]
  fn := by
    intro m n xs x each output q
    cases q with
    | plain t bs => rw [TypePath.order_plain_fn, TypePath.order_fn_plain, Ordering.swap_gt]
    | fn k l ys y =>
      have names : compare l n = (compare n l).swap := Std.OrientedCmp.eq_swap
      have modifiers : compare k m = (compare m k).swap := Std.OrientedCmp.eq_swap
      rw [TypePath.order_fn, TypePath.order_fn, Ordering.swap_then, Ordering.swap_then,
        Ordering.swap_then, names, modifiers, compareLex_swap each, Ty.outputOrder_swap output]

/- Going on from one comparison to the next. -/

theorem TraitBound.order_chained {b : TraitBound}
    (paths : ∀ q r, Chained (b.path.order q) (q.order r) (b.path.order r)) (c d : TraitBound) :
    Chained (b.order c) (c.order d) (b.order d) := by
  obtain ⟨o, p⟩ := b
  obtain ⟨o', p'⟩ := c
  obtain ⟨o'', p''⟩ := d
  simp only [TraitBound.order]
  exact (Chained.of_compare compare o o' o'').lex fun _ _ => paths p' p''

theorem Bound.order_chained {b : Bound}
    (traits : ∀ t, b = .trait t → ∀ q r : TypePath,
      Chained (t.path.order q) (q.order r) (t.path.order r)) (c d : Bound) :
    Chained (b.order c) (c.order d) (b.order d) := by
  match b, c, d with
  | .lifetime l, .lifetime k, .lifetime j =>
    simp only [Bound.order]
    exact Chained.of_compare compare l k j
  | .lifetime _, .lifetime _, .trait _ => simp only [Bound.order]; exact .lt_right _
  | .lifetime _, .trait _, .lifetime _ => simp only [Bound.order]; exact .lt_gt _
  | .lifetime _, .trait _, .trait _ => simp only [Bound.order]; exact .lt_left _
  | .trait _, .lifetime _, .lifetime _ => simp only [Bound.order]; exact .gt_left _
  | .trait _, .lifetime _, .trait _ => simp only [Bound.order]; exact .gt_lt _
  | .trait _, .trait _, .lifetime _ => simp only [Bound.order]; exact .gt_right _
  | .trait b, .trait c, .trait d =>
    simp only [Bound.order]
    exact TraitBound.order_chained (traits b rfl) c d

theorem Ty.outputOrder_chained {x : Option Ty}
    (types : ∀ a ∈ x, ∀ b c, Chained (Ty.order a b) (b.order c) (a.order c)) (y z : Option Ty) :
    Chained (outputOrder x y) (outputOrder y z) (outputOrder x z) := by
  match x, y, z with
  | some x, some y, some z => exact types x rfl y z
  | some _, some _, none => exact .gt_right _
  | some _, none, some _ => exact .gt_lt _
  | some _, none, none => exact .gt_left _
  | none, some _, some _ => exact .lt_left _
  | none, some _, none => exact .lt_gt _
  | none, none, some _ => exact .lt_right _
  | none, none, none => exact Chained.of_compare compare false false false

theorem Ty.order_eq_rank_then (a b : Ty) :
    a.order b = (compare a.rank b.rank).then (a.order b) := by
  by_cases h : a.rank = b.rank
  · simp [h]
  · rw [order_of_rank_ne h, Ordering.then_self]

theorem Ty.order_chained_of_sameKind {a b c : Ty}
    (parts : SameKind a b → SameKind a c → Chained (a.order b) (b.order c) (a.order c)) :
    Chained (a.order b) (b.order c) (a.order c) := by
  rw [order_eq_rank_then a b, order_eq_rank_then b c, order_eq_rank_then a c]
  refine (Chained.of_compare compare a.rank b.rank c.rank).lex fun first second => ?_
  have ab : a.rank = b.rank := Nat.compare_eq_eq.1 first
  have bc : b.rank = c.rank := Nat.compare_eq_eq.1 second
  exact parts (sameKind_of_rank_eq ab) (sameKind_of_rank_eq (ab.trans bc))

theorem order_chained_compositional : Compositional
    (fun a => ∀ b c : Ty, Chained (a.order b) (b.order c) (a.order c))
    (fun p => ∀ q r : TypePath, Chained (p.order q) (q.order r) (p.order r)) where
  never := by
    intro b c
    refine Ty.order_chained_of_sameKind fun ab ac => ?_
    cases ab
    cases ac
    simp only [Ty.order]
    exact Chained.of_compare compare _ _ _
  path := by
    intro p ih b c
    refine Ty.order_chained_of_sameKind fun ab ac => ?_
    cases ab with
    | path _ q =>
      cases ac with
      | path _ r =>
        simp only [Ty.order]
        exact ih q r
  tuple := by
    intro xs ih b c
    refine Ty.order_chained_of_sameKind fun ab ac => ?_
    cases ab with
    | tuple _ ys =>
      cases ac with
      | tuple _ zs =>
        simp only [Ty.order, Ty.orderEach_eq]
        exact Chained.compareLex ih ys zs
  array := by
    intro x m ih b c
    refine Ty.order_chained_of_sameKind fun ab ac => ?_
    cases ab with
    | array _ y _ n =>
      cases ac with
      | array _ z _ k =>
        simp only [Ty.order]
        exact (ih y z).lex fun _ _ => Chained.of_compare compare m n k
  slice := by
    intro x ih b c
    refine Ty.order_chained_of_sameKind fun ab ac => ?_
    cases ab with
    | slice _ y =>
      cases ac with
      | slice _ z =>
        simp only [Ty.order]
        exact ih y z
  pointer := by
    intro m x ih b c
    refine Ty.order_chained_of_sameKind fun ab ac => ?_
    cases ab with
    | pointer _ n _ y =>
      cases ac with
      | pointer _ k _ z =>
        simp only [Ty.order]
        exact (Chained.of_compare compare m n k).lex fun _ _ => ih y z
  reference := by
    intro l m x ih b c
    refine Ty.order_chained_of_sameKind fun ab ac => ?_
    cases ab with
    | reference _ l' _ n _ y =>
      cases ac with
      | reference _ l'' _ k _ z =>
        simp only [Ty.order]
        exact (Chained.of_compare compare l l' l'').lex fun _ _ =>
          (Chained.of_compare compare m n k).lex fun _ _ => ih y z
  single := by
    intro o t ih b c
    refine Ty.order_chained_of_sameKind fun ab ac => ?_
    cases ab with
    | single _ _ u =>
      cases ac with
      | single _ _ v =>
        simp only [Ty.order]
        exact (Chained.of_compare compare _ _ _).lex fun _ _ => TraitBound.order_chained ih u v
  bounded := by
    intro o bs ih b c
    refine Ty.order_chained_of_sameKind fun ab ac => ?_
    cases ab with
    | bounded _ _ cs =>
      cases ac with
      | bounded _ _ ds =>
        have each : ∀ b ∈ bs, ∀ c d, Chained (Bound.order b c) (c.order d) (b.order d) := by
          intro b hb
          exact Bound.order_chained fun t ht => ih t (mem_traitBounds.2 (ht ▸ hb))
        simp only [Ty.order, Bound.orderEach_eq]
        exact (Chained.of_compare compare _ _ _).lex fun _ _ => Chained.compareLex each cs ds
  plain := by
    intro s as ih q r
    cases q with
    | plain t bs =>
      cases r with
      | plain u cs =>
        simp only [TypePath.order_plain]
        exact (Chained.of_compare compare s t u).lex fun _ _ => Chained.compareLex ih _ _
      | fn =>
        simp only [TypePath.order_plain_fn]
        exact .lt_right _
    | fn =>
      cases r with
      | plain =>
        simp only [TypePath.order_plain_fn, TypePath.order_fn_plain]
        exact .lt_gt _
      | fn =>
        simp only [TypePath.order_plain_fn]
        exact .lt_left _
  fn := by
    intro m n xs x each output q r
    cases q with
    | plain =>
      cases r with
      | plain =>
        simp only [TypePath.order_fn_plain]
        exact .gt_left _
      | fn =>
        simp only [TypePath.order_plain_fn, TypePath.order_fn_plain]
        exact .gt_lt _
    | fn m' n' ys y =>
      cases r with
      | plain =>
        simp only [TypePath.order_fn_plain]
        exact .gt_right _
      | fn m'' n'' zs z =>
        simp only [TypePath.order_fn]
        exact (Chained.of_compare compare n n' n'').lex fun _ _ =>
          (Chained.of_compare compare m m' m'').lex fun _ _ =>
            (Chained.compareLex each ys zs).lex fun _ _ => Ty.outputOrder_chained output y z

instance : Std.TransCmp Ty.order where
  eq_swap := order_swap_compositional.ty _ _
  isLE_trans := (order_chained_compositional.ty _ _ _).isLE

instance : Std.TransCmp TypePath.order where
  eq_swap := order_swap_compositional.typePath _ _
  isLE_trans := (order_chained_compositional.typePath _ _ _).isLE

instance : Std.TransCmp Bound.order where
  eq_swap := Bound.order_swap (fun t _ => order_swap_compositional.typePath t.path) _
  isLE_trans :=
    (Bound.order_chained (fun t _ => order_chained_compositional.typePath t.path) _ _).isLE

end ImplFamilies
