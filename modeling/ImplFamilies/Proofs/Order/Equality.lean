import ImplFamilies.Proofs.Inclusion.Antisymmetry
import ImplFamilies.Proofs.Order.Preorder

/-!
What the order calls equal. It reads all of a tree but the lifetimes among the arguments of paths,
so trees are equal in it exactly when they are the same without those. Lifetimes of references and
of lists of bounds do count, which makes this finer than inclusion both ways.
-/

namespace ImplFamilies

mutual

/-- The part of a type that the order reads. -/
def Ty.compared : Ty → Ty
  | .never => .never
  | .path p => .path p.compared
  | .tuple xs => .tuple (Ty.comparedEach xs)
  | .array x n => .array x.compared n
  | .slice x => .slice x.compared
  | .pointer m x => .pointer m x.compared
  | .reference l m x => .reference l m x.compared
  | .single o b => .single o b.compared
  | .bounded o bs => .bounded o (Bound.comparedEach bs)

def Ty.comparedEach : List Ty → List Ty
  | [] => []
  | x :: xs => x.compared :: Ty.comparedEach xs

def TypePath.compared : TypePath → TypePath
  | .plain s none => .plain s none
  | .plain s (some as) => .plain s (presentArgs (Arg.comparedEach as))
  | .fn m n xs none => .fn m n (Ty.comparedEach xs) none
  | .fn m n xs (some x) => .fn m n (Ty.comparedEach xs) (some x.compared)

def Arg.comparedEach : List Arg → List Arg
  | [] => []
  | .lifetime _ :: as => Arg.comparedEach as
  | .type x :: as => .type x.compared :: Arg.comparedEach as

def Bound.compared : Bound → Bound
  | .lifetime l => .lifetime l
  | .trait b => .trait b.compared

def Bound.comparedEach : List Bound → List Bound
  | [] => []
  | b :: bs => b.compared :: Bound.comparedEach bs

def TraitBound.compared : TraitBound → TraitBound
  | .mk o p => .mk o p.compared

end

@[simp] theorem Ty.comparedEach_eq_map (xs : List Ty) :
    Ty.comparedEach xs = xs.map Ty.compared := by
  induction xs with
  | nil => rfl
  | cons x xs ih => simp [Ty.comparedEach, ih]

@[simp] theorem Bound.comparedEach_eq_map (bs : List Bound) :
    Bound.comparedEach bs = bs.map Bound.compared := by
  induction bs with
  | nil => rfl
  | cons b bs ih => simp [Bound.comparedEach, ih]

theorem Arg.comparedEach_eq_map (as : List Arg) :
    Arg.comparedEach as = ((typeArgs as).map Ty.compared).map Arg.type := by
  induction as with
  | nil => rfl
  | cons a as ih => cases a <;> simp [Arg.comparedEach, typeArgs, ih]

theorem TypePath.compared_plain (s : String) (as : Option (List Arg)) :
    (TypePath.plain s as).compared =
      .plain s (presentArgs (((argTypes as).map Ty.compared).map Arg.type)) := by
  cases as with
  | none => rfl
  | some as => rw [TypePath.compared, Arg.comparedEach_eq_map]; rfl

theorem TypePath.compared_fn (m n : String) (xs : List Ty) (x : Option Ty) :
    (TypePath.fn m n xs x).compared = .fn m n (xs.map Ty.compared) (x.map Ty.compared) := by
  cases x <;> simp [TypePath.compared]

theorem Ty.rank_compared (a : Ty) : a.compared.rank = a.rank := by
  rcases a with _ | p | xs | x | x | x | x | ⟨_ | _, c⟩ | ⟨_ | _, bs⟩ <;> rfl

/- Lists, outputs and argument lists, by their items. -/

theorem compareLex_eq_iff {α β : Type} {cmp : α → α → Ordering} {f : α → β} {xs : List α}
    (each : ∀ x ∈ xs, ∀ y, cmp x y = .eq ↔ f x = f y) (ys : List α) :
    xs.compareLex cmp ys = .eq ↔ xs.map f = ys.map f := by
  induction xs generalizing ys with
  | nil => cases ys <;> simp [List.compareLex_nil_nil, List.compareLex_nil_cons]
  | cons x xs ih =>
    obtain ⟨first, rest⟩ := List.forall_mem_cons.1 each
    cases ys with
    | nil => simp [List.compareLex_cons_nil]
    | cons y ys =>
      rw [List.compareLex_cons_cons, Ordering.then_eq_eq, first y, ih rest ys, List.map_cons,
        List.map_cons, List.cons.injEq]

theorem Ty.outputOrder_eq_iff {x : Option Ty}
    (types : ∀ a ∈ x, ∀ b, a.order b = .eq ↔ a.compared = b.compared) (y : Option Ty) :
    outputOrder x y = .eq ↔ x.map Ty.compared = y.map Ty.compared := by
  match x, y with
  | some x, some y => simpa [outputOrder] using types x rfl y
  | some _, none => simp [outputOrder]
  | none, some _ => simp [outputOrder]
  | none, none => simp [outputOrder]

theorem argTypes_types (xs : List Ty) : argTypes (presentArgs (xs.map Arg.type)) = xs := by
  rw [argTypes_presentArgs]
  induction xs with
  | nil => rfl
  | cons x xs ih => rw [List.map_cons, typeArgs, ih]

theorem presentArgs_types_inj {xs ys : List Ty} :
    presentArgs (xs.map Arg.type) = presentArgs (ys.map Arg.type) ↔ xs = ys := by
  constructor
  · intro same
    have types := congrArg argTypes same
    rwa [argTypes_types, argTypes_types] at types
  · rintro rfl
    rfl

/- Types, paths and bounds. -/

theorem TraitBound.order_eq_iff {b : TraitBound}
    (paths : ∀ q, b.path.order q = .eq ↔ b.path.compared = q.compared) (c : TraitBound) :
    b.order c = .eq ↔ b.compared = c.compared := by
  obtain ⟨o, p⟩ := b
  obtain ⟨o', p'⟩ := c
  have path : p.order p' = .eq ↔ p.compared = p'.compared := paths p'
  rw [TraitBound.order, Ordering.then_eq_eq, Std.compare_eq_iff_eq, path, TraitBound.compared,
    TraitBound.compared, TraitBound.mk.injEq]

theorem Bound.order_eq_iff {b : Bound}
    (traits : ∀ t, b = .trait t → ∀ q : TypePath,
      t.path.order q = .eq ↔ t.path.compared = q.compared) (c : Bound) :
    b.order c = .eq ↔ b.compared = c.compared := by
  match b, c with
  | .lifetime l, .lifetime k => simp [Bound.order, Bound.compared]
  | .lifetime _, .trait _ => simp [Bound.order, Bound.compared]
  | .trait _, .lifetime _ => simp [Bound.order, Bound.compared]
  | .trait b, .trait c =>
    rw [Bound.order, TraitBound.order_eq_iff (traits b rfl) c, Bound.compared, Bound.compared,
      Bound.trait.injEq]

theorem Ty.order_eq_iff_of_sameKind {a b : Ty}
    (parts : SameKind a b → (a.order b = .eq ↔ a.compared = b.compared)) :
    a.order b = .eq ↔ a.compared = b.compared := by
  by_cases h : a.rank = b.rank
  · exact parts (sameKind_of_rank_eq h)
  · constructor
    · intro equal
      rw [order_of_rank_ne h, Nat.compare_eq_eq] at equal
      exact absurd equal h
    · intro same
      have ranks := congrArg rank same
      rw [rank_compared, rank_compared] at ranks
      exact absurd ranks h

theorem order_eq_compositional : Compositional
    (fun a => ∀ b : Ty, a.order b = .eq ↔ a.compared = b.compared)
    (fun p => ∀ q : TypePath, p.order q = .eq ↔ p.compared = q.compared) where
  never := by
    intro b
    refine Ty.order_eq_iff_of_sameKind fun same => ?_
    cases same
    simp [Ty.order]
  path := by
    intro p ih b
    refine Ty.order_eq_iff_of_sameKind fun same => ?_
    cases same with
    | path _ q => rw [Ty.order, ih q, Ty.compared, Ty.compared, Ty.path.injEq]
  tuple := by
    intro xs ih b
    refine Ty.order_eq_iff_of_sameKind fun same => ?_
    cases same with
    | tuple _ ys =>
      rw [Ty.order, Ty.orderEach_eq, compareLex_eq_iff ih, Ty.compared, Ty.compared,
        Ty.comparedEach_eq_map, Ty.comparedEach_eq_map, Ty.tuple.injEq]
  array := by
    intro x m ih b
    refine Ty.order_eq_iff_of_sameKind fun same => ?_
    cases same with
    | array _ y _ n =>
      rw [Ty.order, Ordering.then_eq_eq, ih y, Std.compare_eq_iff_eq, Ty.compared, Ty.compared,
        Ty.array.injEq]
  slice := by
    intro x ih b
    refine Ty.order_eq_iff_of_sameKind fun same => ?_
    cases same with
    | slice _ y => rw [Ty.order, ih y, Ty.compared, Ty.compared, Ty.slice.injEq]
  pointer := by
    intro m x ih b
    refine Ty.order_eq_iff_of_sameKind fun same => ?_
    cases same with
    | pointer _ n _ y =>
      rw [Ty.order, Ordering.then_eq_eq, Std.compare_eq_iff_eq, ih y, Ty.compared, Ty.compared,
        Ty.pointer.injEq]
  reference := by
    intro l m x ih b
    refine Ty.order_eq_iff_of_sameKind fun same => ?_
    cases same with
    | reference _ k _ n _ y =>
      rw [Ty.order, Ordering.then_eq_eq, Ordering.then_eq_eq, Std.compare_eq_iff_eq,
        Std.compare_eq_iff_eq, ih y, Ty.compared, Ty.compared, Ty.reference.injEq]
  single := by
    intro o c ih b
    refine Ty.order_eq_iff_of_sameKind fun same => ?_
    cases same with
    | single _ _ d =>
      have kinds : (Ty.single o c).rank = (Ty.single o d).rank := by cases o <;> rfl
      rw [Ty.order, Ordering.then_eq_eq, Nat.compare_eq_eq, TraitBound.order_eq_iff ih,
        Ty.compared, Ty.compared, Ty.single.injEq]
      simp [kinds]
  bounded := by
    intro o bs ih b
    refine Ty.order_eq_iff_of_sameKind fun same => ?_
    cases same with
    | bounded _ _ cs =>
      have each : ∀ b ∈ bs, ∀ c, Bound.order b c = .eq ↔ b.compared = c.compared := by
        intro b hb
        exact Bound.order_eq_iff fun t ht => ih t (mem_traitBounds.2 (ht ▸ hb))
      have kinds : (Ty.bounded o bs).rank = (Ty.bounded o cs).rank := by cases o <;> rfl
      rw [Ty.order, Ordering.then_eq_eq, Nat.compare_eq_eq, Bound.orderEach_eq,
        compareLex_eq_iff each, Ty.compared, Ty.compared, Bound.comparedEach_eq_map,
        Bound.comparedEach_eq_map, Ty.bounded.injEq]
      simp [kinds]
  plain := by
    intro s as ih q
    cases q with
    | plain t bs =>
      rw [TypePath.order_plain, Ordering.then_eq_eq, Std.compare_eq_iff_eq, compareLex_eq_iff ih,
        TypePath.compared_plain, TypePath.compared_plain, TypePath.plain.injEq,
        presentArgs_types_inj]
    | fn k l ys y =>
      simp [TypePath.order_plain_fn, TypePath.compared_plain, TypePath.compared_fn]
  fn := by
    intro m n xs x each output q
    cases q with
    | plain t bs =>
      simp [TypePath.order_fn_plain, TypePath.compared_plain, TypePath.compared_fn]
    | fn k l ys y =>
      rw [TypePath.order_fn, Ordering.then_eq_eq, Ordering.then_eq_eq, Ordering.then_eq_eq,
        Std.compare_eq_iff_eq, Std.compare_eq_iff_eq, compareLex_eq_iff each,
        Ty.outputOrder_eq_iff output, TypePath.compared_fn, TypePath.compared_fn,
        TypePath.fn.injEq, and_left_comm]

/- Equal in the order, hence the same for inclusion. -/

theorem traitBounds_map_compared (bs : List Bound) :
    traitBounds (bs.map Bound.compared) = (traitBounds bs).map TraitBound.compared := by
  induction bs with
  | nil => rfl
  | cons b bs ih => cases b <;> simp [Bound.compared, traitBounds, ih]

theorem erase_compared_compositional : Compositional
    (fun a => a.compared.erase = a.erase) (fun p => p.compared.erase = p.erase) where
  never := rfl
  path p ih := by rw [Ty.compared, Ty.erase, ih, Ty.erase]
  tuple xs ih := by
    have each : xs.map (Ty.erase ∘ Ty.compared) = xs.map Ty.erase := List.map_congr_left ih
    simp [Ty.compared, Ty.erase, each]
  array x n ih := by rw [Ty.compared, Ty.erase, ih, Ty.erase]
  slice x ih := by rw [Ty.compared, Ty.erase, ih, Ty.erase]
  pointer m x ih := by rw [Ty.compared, Ty.erase, ih, Ty.erase]
  reference l m x ih := by rw [Ty.compared, Ty.erase, ih, Ty.erase]
  single o b ih := by
    obtain ⟨optional, p⟩ := b
    have path : p.compared.erase = p.erase := ih
    simp [Ty.compared, TraitBound.compared, Ty.erase, TraitBound.erase, path]
  bounded o bs ih := by
    have each : (traitBounds (bs.map Bound.compared)).map TraitBound.erase =
        (traitBounds bs).map TraitBound.erase := by
      rw [traitBounds_map_compared, List.map_map]
      refine List.map_congr_left fun b hb => ?_
      obtain ⟨optional, p⟩ := b
      have path : p.compared.erase = p.erase := ih _ hb
      simp [TraitBound.compared, TraitBound.erase, path]
    rw [Ty.compared, Ty.erase, Ty.erase, Bound.comparedEach_eq_map,
      Bound.eraseEach_eq_of_map each]
  plain s as ih := by
    have each : ((argTypes as).map Ty.compared).map Ty.erase = (argTypes as).map Ty.erase := by
      rw [List.map_map]
      exact List.map_congr_left ih
    rw [TypePath.compared_plain, TypePath.erase_plain, TypePath.erase_plain, eraseArgs_eq,
      eraseArgs_eq, argTypes_types, each]
  fn m n xs x each output := by
    have inputs : xs.map (Ty.erase ∘ Ty.compared) = xs.map Ty.erase := List.map_congr_left each
    have last : x.map (Ty.erase ∘ Ty.compared) = x.map Ty.erase := by
      cases x with
      | none => rfl
      | some y => exact congrArg some (output y rfl)
    simp [TypePath.compared_fn, TypePath.erase_fn, inputs, last]

theorem Ty.erase_eq_of_order {a b : Ty} (h : a.order b = .eq) : a.erase = b.erase := by
  rw [← erase_compared_compositional.ty a, (order_eq_compositional.ty a b).1 h,
    erase_compared_compositional.ty b]

theorem TypePath.erase_eq_of_order {p q : TypePath} (h : p.order q = .eq) :
    p.erase = q.erase := by
  rw [← erase_compared_compositional.typePath p, (order_eq_compositional.typePath p q).1 h,
    erase_compared_compositional.typePath q]

/-- Types, paths and bounds are equal in the order exactly when they are the same without the
lifetimes among the arguments of paths. Types and paths equal in the order include each other. -/
theorem equal_iff_same_compared :
    (∀ a b : Ty, a.order b = .eq ↔ a.compared = b.compared) ∧
    (∀ p q : TypePath, p.order q = .eq ↔ p.compared = q.compared) ∧
    (∀ b c : Bound, b.order c = .eq ↔ b.compared = c.compared) ∧
    (∀ b c : TraitBound, b.order c = .eq ↔ b.compared = c.compared) ∧
    (∀ a b : Ty, a.order b = .eq → a.includes b = true ∧ b.includes a = true) ∧
    ∀ p q : TypePath, p.order q = .eq → p.includes q = true ∧ q.includes p = true := by
  have paths := order_eq_compositional.typePath
  refine ⟨order_eq_compositional.ty, paths, ?_, ?_, ?_, ?_⟩
  · exact fun b => Bound.order_eq_iff fun t _ => paths t.path
  · exact fun b => TraitBound.order_eq_iff (paths b.path)
  · exact fun a b equal => Ty.mutual_iff.2 (Ty.erase_eq_of_order equal)
  · exact fun p q equal => TypePath.mutual_iff.2 (TypePath.erase_eq_of_order equal)

/-- A lifetime among the arguments is not read, as if the argument list held only the type; that of
a reference is read, although inclusion passes over it. -/
theorem lifetime_argument_not_read :
    let borrowed (l : Option String) : Ty := .reference l false (.path (.plain "T" none))
    let wrapped (args : List Arg) : Ty :=
      .path (.plain "Wrap" (some (args ++ [.type (borrowed "'b")])))
    (wrapped [.lifetime "'a"]).order (wrapped []) = .eq ∧
      (wrapped [.lifetime "'a"]).includes (wrapped []) = true ∧
      (wrapped []).includes (wrapped [.lifetime "'a"]) = true ∧
      (borrowed "'b").order (borrowed none) ≠ .eq ∧
      (borrowed "'b").includes (borrowed none) = true := by
  intro borrowed wrapped
  obtain ⟨types, _, _, _, included, _⟩ := equal_iff_same_compared
  have equal : (wrapped [.lifetime "'a"]).order (wrapped []) = .eq :=
    (types _ _).2 (by decide +kernel)
  obtain ⟨first, second⟩ := included _ _ equal
  refine ⟨equal, first, second, fun read => ?_, by decide +kernel⟩
  exact absurd ((types _ _).1 read) (by decide +kernel)

end ImplFamilies
