import ImplFamilies.Proofs.Inclusion.Erasure
import ImplFamilies.Proofs.Renaming.Segments

/-!
Renaming, inclusion and order. Inclusion and the order ask of paths only whether they are the same,
and this in places that renaming leaves where they are. So what is included stays so, and what is
equal in the order; and nothing is added as long as renaming keeps the paths of both sides apart.
-/

namespace ImplFamilies

open Sequence

/- What is true of two trees against what is true of them renamed. -/

/-- A way in which one thing bears on another: everything on itself, and conjunctions as their
parts. -/
structure Congruent (how : Prop → Prop → Prop) : Prop where
  same (P : Prop) : how P P
  both {P P' Q Q' : Prop} : how P P' → how Q Q' → how (P ∧ Q) (P' ∧ Q')

theorem congruent_imp : Congruent fun P P' => P → P' where
  same _ := id
  both := And.imp

theorem congruent_iff : Congruent Iff where
  same _ := Iff.rfl
  both := and_congr

def Bears (how : Prop → Prop → Prop) (ρ : Renaming) (ss ts : List String) : Prop :=
  ∀ s ∈ ss, ∀ t ∈ ts, how (s = t) (renameSegments ρ s = renameSegments ρ t)

section Bearing

variable {how : Prop → Prop → Prop} {ρ : Renaming} {ss ts : List String}

theorem Bears.mono (h : Bears how ρ ss ts) {ss' ts' : List String} (left : ss' ⊆ ss)
    (right : ts' ⊆ ts) : Bears how ρ ss' ts' :=
  fun s hs t ht => h s (left hs) t (right ht)

theorem Bears.items {α : Type} {f : α → List String} {xs ys : List α} {x y : α}
    (h : Bears how ρ (xs.flatMap f) (ys.flatMap f)) (hx : x ∈ xs) (hy : y ∈ ys) :
    Bears how ρ (f x) (f y) :=
  h.mono (fun _ mem => List.mem_flatMap.2 ⟨x, hx, mem⟩)
    fun _ mem => List.mem_flatMap.2 ⟨y, hy, mem⟩

namespace Congruent

variable (h : Congruent how)
include h

theorem coversEach {α : Type} {r : α → α → Bool} {f : α → α} {xs ys : List α}
    (each : ∀ x ∈ xs, ∀ y ∈ ys, how (r x y = true) (r (f x) (f y) = true)) :
    how (coversEach r xs ys = true) (coversEach r (xs.map f) (ys.map f) = true) := by
  induction xs generalizing ys with
  | nil => cases ys <;> exact h.same _
  | cons x xs ih =>
    cases ys with
    | nil => exact h.same _
    | cons y ys =>
      simp only [List.map_cons, Sequence.coversEach, Bool.and_eq_true]
      refine h.both (each x List.mem_cons_self y List.mem_cons_self) (ih fun x' hx y' hy => ?_)
      exact each x' (List.mem_cons_of_mem _ hx) y' (List.mem_cons_of_mem _ hy)

theorem compareLex {α : Type} {cmp : α → α → Ordering} {f : α → α} {xs ys : List α}
    (each : ∀ x ∈ xs, ∀ y ∈ ys, how (cmp x y = .eq) (cmp (f x) (f y) = .eq)) :
    how (xs.compareLex cmp ys = .eq) ((xs.map f).compareLex cmp (ys.map f) = .eq) := by
  induction xs generalizing ys with
  | nil =>
    cases ys with
    | nil => exact h.same _
    | cons y ys =>
      rw [List.map_nil, List.map_cons, List.compareLex_nil_cons, List.compareLex_nil_cons]
      exact h.same _
  | cons x xs ih =>
    cases ys with
    | nil =>
      rw [List.map_nil, List.map_cons, List.compareLex_cons_nil, List.compareLex_cons_nil]
      exact h.same _
    | cons y ys =>
      rw [List.map_cons, List.map_cons, List.compareLex_cons_cons, List.compareLex_cons_cons,
        Ordering.then_eq_eq, Ordering.then_eq_eq]
      refine h.both (each x List.mem_cons_self y List.mem_cons_self) (ih fun x' hx y' hy => ?_)
      exact each x' (List.mem_cons_of_mem _ hx) y' (List.mem_cons_of_mem _ hy)

end Congruent

/- Inclusion. -/

theorem TraitBound.includes_rename (h : Congruent how) {b c : TraitBound}
    (paths : how (b.path.includes c.path = true)
      ((b.path.rename ρ).includes (c.path.rename ρ) = true)) :
    how (b.includes c = true) ((b.rename ρ).includes (c.rename ρ) = true) := by
  obtain ⟨o, p⟩ := b
  obtain ⟨o', q⟩ := c
  simp only [TraitBound.rename, TraitBound.includes, Bool.and_eq_true]
  exact h.both (h.same _) paths

theorem Ty.outputIncludes_rename (h : Congruent how) {x y : Option Ty}
    (types : ∀ a ∈ x, ∀ b ∈ y, how (a.includes b = true)
      ((a.rename ρ).includes (b.rename ρ) = true)) :
    how (outputIncludes x y = true)
      (outputIncludes (x.map (Ty.rename ρ)) (y.map (Ty.rename ρ)) = true) := by
  match x, y with
  | some x, some y => exact types x rfl y rfl
  | some _, none => exact h.same _
  | none, some _ => exact h.same _
  | none, none => exact h.same _

theorem includes_rename_compositional (ρ : Renaming) (h : Congruent how) : Compositional
    (fun a => ∀ b : Ty, Bears how ρ a.paths b.paths →
      how (a.includes b = true) ((a.rename ρ).includes (b.rename ρ) = true))
    (fun p => ∀ q : TypePath, Bears how ρ p.paths q.paths →
      how (p.includes q = true) ((p.rename ρ).includes (q.rename ρ) = true)) where
  never b bears := by
    cases b <;> simp only [Ty.rename, Ty.includes] <;> exact h.same _
  path p ih b bears := by
    cases b <;> simp only [Ty.rename, Ty.includes]
    case path q => exact ih q bears
    all_goals exact h.same _
  tuple xs ih b bears := by
    cases b <;> simp only [Ty.rename, Ty.includes, Ty.renameEach_eq_map, Ty.includesEach_eq,
      emptyFits_map, Bool.and_eq_true]
    case tuple ys =>
      rw [Ty.paths, Ty.paths, Ty.pathsEach_eq_flatMap, Ty.pathsEach_eq_flatMap] at bears
      exact h.both (h.same _) (h.coversEach fun x hx y hy => ih x hx y (bears.items hx hy))
    all_goals exact h.same _
  array x m ih b bears := by
    cases b <;> simp only [Ty.rename, Ty.includes, Bool.and_eq_true]
    case array y n => exact h.both (h.same _) (ih y bears)
    all_goals exact h.same _
  slice x ih b bears := by
    cases b <;> simp only [Ty.rename, Ty.includes]
    case slice y => exact ih y bears
    all_goals exact h.same _
  pointer m x ih b bears := by
    cases b <;> simp only [Ty.rename, Ty.includes, Bool.and_eq_true]
    case pointer n y => exact h.both (h.same _) (ih y bears)
    all_goals exact h.same _
  reference l m x ih b bears := by
    cases b <;> simp only [Ty.rename, Ty.includes, Bool.and_eq_true]
    case reference k n y => exact h.both (h.same _) (ih y bears)
    all_goals exact h.same _
  single o b ih c bears := by
    cases c <;> simp only [Ty.rename, Ty.includes, Bool.and_eq_true]
    case single q c =>
      rw [Ty.paths, Ty.paths, TraitBound.paths_eq, TraitBound.paths_eq] at bears
      exact h.both (h.same _) (TraitBound.includes_rename h (ih c.path bears))
    all_goals exact h.same _
  bounded o bs ih c bears := by
    cases c <;> simp only [Ty.rename, Ty.includes, Bound.renameEach_eq_map,
      Bound.includesTraits_eq, traitBounds_rename, emptyFits_map, Bool.and_eq_true]
    case bounded q cs =>
      rw [Ty.paths, Ty.paths, Bound.pathsEach_eq_flatMap, Bound.pathsEach_eq_flatMap] at bears
      refine h.both (h.same _) (h.coversEach fun b hb c hc => ?_)
      exact TraitBound.includes_rename h (ih b hb c.path (bears.items hb hc))
    all_goals exact h.same _
  plain s as ih q bears := by
    cases q with
    | plain t bs =>
      rw [TypePath.paths_plain, TypePath.paths_plain] at bears
      simp only [TypePath.rename_plain, TypePath.includes_plain, argTypes_rename, emptyFits_map,
        Bool.and_eq_true, beq_iff_eq]
      have name := bears s List.mem_cons_self t List.mem_cons_self
      have rest := bears.mono (List.subset_cons_self _ _) (List.subset_cons_self _ _)
      exact h.both (h.both name (h.same _))
        (h.coversEach fun x hx y hy => ih x hx y (rest.items hx hy))
    | fn k l ys y =>
      rw [TypePath.rename_plain, TypePath.rename_fn, TypePath.includes_plain_fn,
        TypePath.includes_plain_fn]
      exact h.same _
  fn m n xs x each output q bears := by
    cases q with
    | plain t bs =>
      rw [TypePath.rename_plain, TypePath.rename_fn, TypePath.includes_fn_plain,
        TypePath.includes_fn_plain]
      exact h.same _
    | fn k l ys y =>
      rw [TypePath.paths_fn, TypePath.paths_fn] at bears
      have inputs := bears.mono (List.subset_append_left _ _) (List.subset_append_left _ _)
      have outputs := bears.mono (List.subset_append_right _ _) (List.subset_append_right _ _)
      simp only [TypePath.rename_fn, TypePath.includes_fn, emptyFits_map, Bool.and_eq_true]
      refine h.both (h.both (h.same _) ?_) ?_
      · exact h.coversEach fun x hx y hy => each x hx y (inputs.items hx hy)
      · refine Ty.outputIncludes_rename h fun a ha b hb => output a ha b ?_
        exact outputs.items (Option.mem_toList.2 ha) (Option.mem_toList.2 hb)

/- Order. -/

theorem Ty.rank_rename (a : Ty) : (a.rename ρ).rank = a.rank := by
  rcases a with _ | p | xs | x | x | x | x | ⟨_ | _, c⟩ | ⟨_ | _, bs⟩ <;> rfl

theorem TraitBound.order_rename (h : Congruent how) {b c : TraitBound}
    (paths : how (b.path.order c.path = .eq) ((b.path.rename ρ).order (c.path.rename ρ) = .eq)) :
    how (b.order c = .eq) ((b.rename ρ).order (c.rename ρ) = .eq) := by
  obtain ⟨o, p⟩ := b
  obtain ⟨o', q⟩ := c
  simp only [TraitBound.rename, TraitBound.order, Ordering.then_eq_eq]
  exact h.both (h.same _) paths

theorem Bound.order_rename (h : Congruent how) {b c : Bound}
    (traits : ∀ t u, b = .trait t → c = .trait u → how (t.path.order u.path = .eq)
      ((t.path.rename ρ).order (u.path.rename ρ) = .eq)) :
    how (b.order c = .eq) ((b.rename ρ).order (c.rename ρ) = .eq) := by
  cases b <;> cases c <;> simp only [Bound.rename, Bound.order]
  case trait.trait t u => exact TraitBound.order_rename h (traits t u rfl rfl)
  all_goals exact h.same _

theorem Ty.outputOrder_rename (h : Congruent how) {x y : Option Ty}
    (types : ∀ a ∈ x, ∀ b ∈ y, how (a.order b = .eq) ((a.rename ρ).order (b.rename ρ) = .eq)) :
    how (outputOrder x y = .eq)
      (outputOrder (x.map (Ty.rename ρ)) (y.map (Ty.rename ρ)) = .eq) := by
  match x, y with
  | some x, some y => exact types x rfl y rfl
  | some _, none => exact h.same _
  | none, some _ => exact h.same _
  | none, none => exact h.same _

theorem Ty.order_rename_of_sameKind (h : Congruent how) {a b : Ty}
    (parts : SameKind a b → how (a.order b = .eq) ((a.rename ρ).order (b.rename ρ) = .eq)) :
    how (a.order b = .eq) ((a.rename ρ).order (b.rename ρ) = .eq) := by
  by_cases kinds : a.rank = b.rank
  · exact parts (sameKind_of_rank_eq kinds)
  · have others : (a.rename ρ).rank ≠ (b.rename ρ).rank := by rwa [rank_rename, rank_rename]
    rw [order_of_rank_ne kinds, order_of_rank_ne others, rank_rename, rank_rename]
    exact h.same _

theorem order_rename_compositional (ρ : Renaming) (h : Congruent how) : Compositional
    (fun a => ∀ b : Ty, Bears how ρ a.paths b.paths →
      how (a.order b = .eq) ((a.rename ρ).order (b.rename ρ) = .eq))
    (fun p => ∀ q : TypePath, Bears how ρ p.paths q.paths →
      how (p.order q = .eq) ((p.rename ρ).order (q.rename ρ) = .eq)) where
  never b bears := by
    refine Ty.order_rename_of_sameKind h fun kinds => ?_
    cases kinds
    exact h.same _
  path p ih b bears := by
    refine Ty.order_rename_of_sameKind h fun kinds => ?_
    cases kinds with
    | path _ q =>
      simp only [Ty.rename, Ty.order]
      exact ih q bears
  tuple xs ih b bears := by
    refine Ty.order_rename_of_sameKind h fun kinds => ?_
    cases kinds with
    | tuple _ ys =>
      rw [Ty.paths, Ty.paths, Ty.pathsEach_eq_flatMap, Ty.pathsEach_eq_flatMap] at bears
      simp only [Ty.rename, Ty.order, Ty.renameEach_eq_map, Ty.orderEach_eq]
      exact h.compareLex fun x hx y hy => ih x hx y (bears.items hx hy)
  array x m ih b bears := by
    refine Ty.order_rename_of_sameKind h fun kinds => ?_
    cases kinds with
    | array _ y _ n =>
      simp only [Ty.rename, Ty.order, Ordering.then_eq_eq]
      exact h.both (ih y bears) (h.same _)
  slice x ih b bears := by
    refine Ty.order_rename_of_sameKind h fun kinds => ?_
    cases kinds with
    | slice _ y =>
      simp only [Ty.rename, Ty.order]
      exact ih y bears
  pointer m x ih b bears := by
    refine Ty.order_rename_of_sameKind h fun kinds => ?_
    cases kinds with
    | pointer _ n _ y =>
      simp only [Ty.rename, Ty.order, Ordering.then_eq_eq]
      exact h.both (h.same _) (ih y bears)
  reference l m x ih b bears := by
    refine Ty.order_rename_of_sameKind h fun kinds => ?_
    cases kinds with
    | reference _ k _ n _ y =>
      simp only [Ty.rename, Ty.order, Ordering.then_eq_eq]
      exact h.both (h.same _) (h.both (h.same _) (ih y bears))
  single o b ih c bears := by
    refine Ty.order_rename_of_sameKind h fun kinds => ?_
    cases kinds with
    | single _ _ c =>
      rw [Ty.paths, Ty.paths, TraitBound.paths_eq, TraitBound.paths_eq] at bears
      have ranks (d : TraitBound) : (Ty.single o (d.rename ρ)).rank = (Ty.single o d).rank :=
        Ty.rank_rename (.single o d)
      simp only [Ty.rename, Ty.order, Ordering.then_eq_eq, ranks]
      exact h.both (h.same _) (TraitBound.order_rename h (ih c.path bears))
  bounded o bs ih c bears := by
    refine Ty.order_rename_of_sameKind h fun kinds => ?_
    cases kinds with
    | bounded _ _ cs =>
      rw [Ty.paths, Ty.paths, Bound.pathsEach_eq_flatMap, Bound.pathsEach_eq_flatMap] at bears
      have ranks (ds : List Bound) :
          (Ty.bounded o (ds.map (Bound.rename ρ))).rank = (Ty.bounded o ds).rank := by
        cases o <;> rfl
      simp only [Ty.rename, Ty.order, Bound.renameEach_eq_map, Bound.orderEach_eq,
        Ordering.then_eq_eq, ranks]
      refine h.both (h.same _) (h.compareLex fun b hb c hc => Bound.order_rename h ?_)
      rintro t u rfl rfl
      have ht := mem_traitBounds.2 hb
      exact ih t ht u.path (bears.items ht (mem_traitBounds.2 hc))
  plain s as ih q bears := by
    cases q with
    | plain t bs =>
      rw [TypePath.paths_plain, TypePath.paths_plain] at bears
      simp only [TypePath.rename_plain, TypePath.order_plain, argTypes_rename,
        Ordering.then_eq_eq, Std.compare_eq_iff_eq]
      have name := bears s List.mem_cons_self t List.mem_cons_self
      have rest := bears.mono (List.subset_cons_self _ _) (List.subset_cons_self _ _)
      exact h.both name (h.compareLex fun x hx y hy => ih x hx y (rest.items hx hy))
    | fn k l ys y =>
      rw [TypePath.rename_plain, TypePath.rename_fn, TypePath.order_plain_fn,
        TypePath.order_plain_fn]
      exact h.same _
  fn m n xs x each output q bears := by
    cases q with
    | plain t bs =>
      rw [TypePath.rename_plain, TypePath.rename_fn, TypePath.order_fn_plain,
        TypePath.order_fn_plain]
      exact h.same _
    | fn k l ys y =>
      rw [TypePath.paths_fn, TypePath.paths_fn] at bears
      have inputs := bears.mono (List.subset_append_left _ _) (List.subset_append_left _ _)
      have outputs := bears.mono (List.subset_append_right _ _) (List.subset_append_right _ _)
      simp only [TypePath.rename_fn, TypePath.order_fn, Ordering.then_eq_eq]
      refine h.both (h.same _) (h.both (h.same _) (h.both ?_ ?_))
      · exact h.compareLex fun x hx y hy => each x hx y (inputs.items hx hy)
      · refine Ty.outputOrder_rename h fun a ha b hb => output a ha b ?_
        exact outputs.items (Option.mem_toList.2 ha) (Option.mem_toList.2 hb)

end Bearing

/- Renamings that keep paths apart. -/

theorem bears_imp (ρ : Renaming) (ss ts : List String) : Bears (fun P P' => P → P') ρ ss ts :=
  fun _ _ _ _ => congrArg _

theorem Renaming.KeepsApart.bears {ρ : Renaming} {ss ts : List String}
    (apart : ρ.KeepsApart (ss ++ ts)) : Bears Iff ρ ss ts := fun _ hs _ ht =>
  (apart.renameSegments_inj (List.mem_append_left _ hs) (List.mem_append_right _ ht)).symm

/-- What includes another type or path, or is equal to it in the order, does so renamed; and the
other way round, if the renaming keeps apart the paths of both. -/
theorem renaming_respects_inclusion_and_order (ρ : Renaming) :
    (∀ a b : Ty,
      (a.includes b = true → (a.rename ρ).includes (b.rename ρ) = true) ∧
      (a.order b = .eq → (a.rename ρ).order (b.rename ρ) = .eq) ∧
      (ρ.KeepsApart (a.paths ++ b.paths) →
        (a.includes b = true ↔ (a.rename ρ).includes (b.rename ρ) = true) ∧
        (a.order b = .eq ↔ (a.rename ρ).order (b.rename ρ) = .eq))) ∧
    ∀ p q : TypePath,
      (p.includes q = true → (p.rename ρ).includes (q.rename ρ) = true) ∧
      (p.order q = .eq → (p.rename ρ).order (q.rename ρ) = .eq) ∧
      (ρ.KeepsApart (p.paths ++ q.paths) →
        (p.includes q = true ↔ (p.rename ρ).includes (q.rename ρ) = true) ∧
        (p.order q = .eq ↔ (p.rename ρ).order (q.rename ρ) = .eq)) := by
  have includes := includes_rename_compositional ρ congruent_imp
  have order := order_rename_compositional ρ congruent_imp
  have includes_iff := includes_rename_compositional ρ congruent_iff
  have order_iff := order_rename_compositional ρ congruent_iff
  constructor
  · intro a b
    have always := bears_imp ρ a.paths b.paths
    exact ⟨includes.ty a b always, order.ty a b always, fun apart =>
      ⟨includes_iff.ty a b apart.bears, order_iff.ty a b apart.bears⟩⟩
  · intro p q
    have always := bears_imp ρ p.paths q.paths
    exact ⟨includes.typePath p q always, order.typePath p q always, fun apart =>
      ⟨includes_iff.typePath p q apart.bears, order_iff.typePath p q apart.bears⟩⟩

/-- Names that are exchanged: a tuple includes a shorter one as before, and not the other way
round. -/
theorem exchanged_names_kept_apart :
    let ρ : Renaming := fun name =>
      if name = "A" then some "B" else if name = "B" then some "A" else none
    let item : Ty := .path (.plain "A::Item" none)
    let wrapped : Ty := .path (.plain "Wrap" (some [.type (.path (.plain "B" none))]))
    let long : Ty := .tuple [item, wrapped]
    let short : Ty := .tuple [item]
    ρ.KeepsApart (short.paths ++ long.paths) ∧
      long.includes short = true ∧ (long.rename ρ).includes (short.rename ρ) = true ∧
      (short.rename ρ).includes (long.rename ρ) = false ∧ short.includes long = false := by
  intro ρ item wrapped long short
  have known {name new : String} (renamed : ρ name = some new) : new = "A" ∨ new = "B" := by
    simp only [ρ] at renamed
    split at renamed
    · exact .inr (Option.some.inj renamed).symm
    · split at renamed
      · exact .inl (Option.some.inj renamed).symm
      · cases renamed
  have apart : ρ.KeepsApart (short.paths ++ long.paths) :=
    { undivided := fun name new renamed => by rcases known renamed with rfl | rfl <;> decide
      heads := by decide +kernel
      ends := by
        rintro ⟨name, new, renamed, colon⟩
        rcases known renamed with rfl | rfl <;> exact absurd colon (by decide) }
  obtain ⟨types, -⟩ := renaming_respects_inclusion_and_order ρ
  have wider : long.includes short = true := by decide +kernel
  have narrower : (short.rename ρ).includes (long.rename ρ) = false := by decide +kernel
  refine ⟨apart, wider, (types long short).1 wider, narrower, Bool.eq_false_iff.2 fun held => ?_⟩
  exact absurd (((types short long).2.2 apart).1.1 held) (Bool.eq_false_iff.1 narrower)

/-- A new name that ends in a colon runs together with the two behind it, to the same as the name
without it in front of three. Both names are different and neither is divided. -/
theorem colons_run_together :
    let ρ : Renaming := fun name =>
      if name = "A" then some "X:" else if name = "B" then some "X" else none
    let a : TypePath := .plain "A::x" none
    let b : TypePath := .plain "B:::x" none
    (∀ name new, ρ name = some new → ¬ [':', ':'] <:+: new.toList) ∧
      (∀ s ∈ a.paths ++ b.paths, ∀ t ∈ a.paths ++ b.paths,
        ρ.apply (leading s) = ρ.apply (leading t) → leading s = leading t) ∧
      (a.rename ρ).includes (b.rename ρ) = true ∧ a.includes b = false ∧
      (a.rename ρ).order (b.rename ρ) = .eq ∧ a.order b ≠ .eq ∧
      ((Ty.path a).rename ρ).includes ((Ty.path b).rename ρ) = true ∧
      (Ty.path a).includes (.path b) = false ∧
      ((Ty.path a).rename ρ).order ((Ty.path b).rename ρ) = .eq ∧
      (Ty.path a).order (.path b) ≠ .eq := by
  intro ρ a b
  refine ⟨fun name new renamed => ?_, by decide +kernel, by decide +kernel, by decide +kernel,
    by decide +kernel, by decide +kernel, by decide +kernel, by decide +kernel, by decide +kernel,
    by decide +kernel⟩
  simp only [ρ] at renamed
  split at renamed
  · exact Option.some.inj renamed ▸ by decide
  · split at renamed
    · exact Option.some.inj renamed ▸ by decide
    · cases renamed

end ImplFamilies
