import ImplFamilies.Proofs.Composition
import ImplFamilies.Proofs.Inclusion.Erasure

/-!
Types that include each other differ in lifetimes only. What inclusion checks one way is an
inequality in most places: the length of a list, the size of an array, the mark of an optional
bound. Both ways together leave no room, so both types are the same without their lifetimes.
-/

namespace ImplFamilies

open Sequence

namespace Sequence

variable {α β : Type}

theorem map_eq_of_covers {r : α → α → Bool} {f : α → β} {xs ys : List α}
    (each : ∀ x ∈ xs, ∀ y, r x y = true → r y x = true → f x = f y)
    (h₁ : coversEach r xs ys = true) (h₂ : coversEach r ys xs = true) : xs.map f = ys.map f := by
  induction xs generalizing ys with
  | nil =>
    cases ys with
    | nil => rfl
    | cons y ys => simp [coversEach] at h₁
  | cons x xs ih =>
    cases ys with
    | nil => simp [coversEach] at h₂
    | cons y ys =>
      obtain ⟨first, rest⟩ := List.forall_mem_cons.1 each
      simp only [coversEach, Bool.and_eq_true] at h₁ h₂
      rw [List.map_cons, List.map_cons, first y h₁.1 h₂.1, ih rest h₁.2 h₂.2]

end Sequence

theorem eraseArgs_eq (as : Option (List Arg)) :
    eraseArgs as = presentArgs (((argTypes as).map Ty.erase).map Arg.type) := by
  cases as with
  | none => rfl
  | some as =>
    rw [eraseArgs, Option.bind_some, Arg.eraseEach_eq_map, List.map_map]
    rfl

theorem TraitBound.erase_eq_of_includes {b c : TraitBound}
    (paths : ∀ q, b.path.includes q = true → q.includes b.path = true →
      b.path.erase = q.erase)
    (h₁ : b.includes c = true) (h₂ : c.includes b = true) : b.erase = c.erase := by
  obtain ⟨o, p⟩ := b
  obtain ⟨o', p'⟩ := c
  obtain ⟨optional₁, path₁⟩ := TraitBound.includes_iff.1 h₁
  obtain ⟨optional₂, path₂⟩ := TraitBound.includes_iff.1 h₂
  have marks : o = o' := Bool.eq_iff_iff.2 ⟨optional₂, optional₁⟩
  have same : p.erase = p'.erase := paths p' path₁ path₂
  rw [TraitBound.erase, TraitBound.erase, marks, same]

theorem Bound.eraseEach_eq_of_map {bs cs : List Bound}
    (h : (traitBounds bs).map TraitBound.erase = (traitBounds cs).map TraitBound.erase) :
    Bound.eraseEach bs = Bound.eraseEach cs := by
  have traits (bs : List Bound) :
      Bound.eraseEach bs = ((traitBounds bs).map TraitBound.erase).map Bound.trait := by
    rw [Bound.eraseEach_eq_map, List.map_map]
    rfl
  rw [traits, traits, h]

/-- Trees that include each other are the same without lifetimes; the induction is on one of them,
as what includes it and is included by it has the same kind. -/
theorem erase_eq_compositional : Compositional
    (fun a => ∀ b : Ty, a.includes b = true → b.includes a = true → a.erase = b.erase)
    (fun p => ∀ q : TypePath, p.includes q = true → q.includes p = true → p.erase = q.erase) where
  never := by
    intro b h₁ _
    rw [Ty.includes_never_iff.1 h₁]
  path := by
    intro p ih b h₁ h₂
    obtain ⟨q, rfl, p₁⟩ := Ty.includes_path_iff.1 h₁
    obtain ⟨_, ⟨⟩, p₂⟩ := Ty.includes_path_iff.1 h₂
    rw [Ty.erase, Ty.erase, ih q p₁ p₂]
  tuple := by
    intro xs ih b h₁ h₂
    obtain ⟨ys, rfl, _, each₁⟩ := Ty.includes_tuple_iff.1 h₁
    obtain ⟨_, ⟨⟩, _, each₂⟩ := Ty.includes_tuple_iff.1 h₂
    rw [Ty.includesEach_eq] at each₁ each₂
    rw [Ty.erase, Ty.erase, Ty.eraseEach_eq_map, Ty.eraseEach_eq_map,
      map_eq_of_covers ih each₁ each₂]
  array := by
    intro x m ih b h₁ h₂
    obtain ⟨y, n, rfl, size₁, x₁⟩ := Ty.includes_array_iff.1 h₁
    obtain ⟨_, _, ⟨⟩, size₂, x₂⟩ := Ty.includes_array_iff.1 h₂
    rw [Ty.erase, Ty.erase, ih y x₁ x₂, UInt64.le_antisymm size₂ size₁]
  slice := by
    intro x ih b h₁ h₂
    obtain ⟨y, rfl, x₁⟩ := Ty.includes_slice_iff.1 h₁
    obtain ⟨_, ⟨⟩, x₂⟩ := Ty.includes_slice_iff.1 h₂
    rw [Ty.erase, Ty.erase, ih y x₁ x₂]
  pointer := by
    intro m x ih b h₁ h₂
    obtain ⟨_, y, rfl, rfl, x₁⟩ := Ty.includes_pointer_iff.1 h₁
    obtain ⟨_, _, ⟨⟩, _, x₂⟩ := Ty.includes_pointer_iff.1 h₂
    rw [Ty.erase, Ty.erase, ih y x₁ x₂]
  reference := by
    intro l m x ih b h₁ h₂
    obtain ⟨_, _, y, rfl, rfl, x₁⟩ := Ty.includes_reference_iff.1 h₁
    obtain ⟨_, _, _, ⟨⟩, _, x₂⟩ := Ty.includes_reference_iff.1 h₂
    rw [Ty.erase, Ty.erase, ih y x₁ x₂]
  single := by
    intro o c ih b h₁ h₂
    obtain ⟨_, d, rfl, rfl, c₁⟩ := Ty.includes_single_iff.1 h₁
    obtain ⟨_, _, ⟨⟩, _, c₂⟩ := Ty.includes_single_iff.1 h₂
    rw [Ty.erase, Ty.erase, TraitBound.erase_eq_of_includes ih c₁ c₂]
  bounded := by
    intro o bs ih b h₁ h₂
    obtain ⟨_, cs, rfl, rfl, _, traits₁⟩ := Ty.includes_bounded_iff.1 h₁
    obtain ⟨_, _, ⟨⟩, _, _, traits₂⟩ := Ty.includes_bounded_iff.1 h₂
    rw [Bound.includesTraits_eq] at traits₁ traits₂
    have same := map_eq_of_covers (f := TraitBound.erase)
      (fun b hb c => TraitBound.erase_eq_of_includes (ih b hb)) traits₁ traits₂
    rw [Ty.erase, Ty.erase, Bound.eraseEach_eq_of_map same]
  plain := by
    intro s as ih q h₁ h₂
    obtain ⟨_, bs, rfl, rfl, _, args₁⟩ := TypePath.includes_plain_iff.1 h₁
    obtain ⟨_, _, ⟨⟩, _, _, args₂⟩ := TypePath.includes_plain_iff.1 h₂
    rw [TypePath.erase_plain, TypePath.erase_plain, eraseArgs_eq, eraseArgs_eq,
      map_eq_of_covers ih args₁ args₂]
  fn := by
    intro m n xs x each ih q h₁ h₂
    obtain ⟨_, _, ys, y, rfl, rfl, rfl, _, each₁, output₁⟩ := TypePath.includes_fn_iff.1 h₁
    obtain ⟨_, _, _, _, ⟨⟩, _, _, _, each₂, output₂⟩ := TypePath.includes_fn_iff.1 h₂
    rw [Ty.includesEach_eq] at each₁ each₂
    have outputs : x.map Ty.erase = y.map Ty.erase := by
      match x, y, output₁, output₂ with
      | some x, some y, output₁, output₂ => exact congrArg some (ih x rfl y output₁ output₂)
      | none, none, _, _ => rfl
    rw [TypePath.erase_fn, TypePath.erase_fn, map_eq_of_covers each each₁ each₂, outputs]

theorem Ty.includes_of_erase_eq {a b : Ty} (h : a.erase = b.erase) : a.includes b = true := by
  rw [← Ty.includes_erase, h, Ty.includes_erase, Ty.includes_refl]

theorem Ty.mutual_iff {a b : Ty} :
    a.includes b = true ∧ b.includes a = true ↔ a.erase = b.erase :=
  ⟨fun h => erase_eq_compositional.ty a b h.1 h.2,
    fun h => ⟨includes_of_erase_eq h, includes_of_erase_eq h.symm⟩⟩

theorem TypePath.includes_of_erase_eq {p q : TypePath} (h : p.erase = q.erase) :
    p.includes q = true := by
  rw [← TypePath.includes_erase, h, TypePath.includes_erase, TypePath.includes_refl]

theorem TypePath.mutual_iff {p q : TypePath} :
    p.includes q = true ∧ q.includes p = true ↔ p.erase = q.erase :=
  ⟨fun h => erase_eq_compositional.typePath p q h.1 h.2,
    fun h => ⟨includes_of_erase_eq h, includes_of_erase_eq h.symm⟩⟩

namespace CanonicalForm

theorem traits_mutual_iff {p q : Option TypePath} (alike : p.isSome = q.isSome) :
    traitIncludes p q = true ∧ traitIncludes q p = true ↔
      p.map TypePath.erase = q.map TypePath.erase := by
  match p, q with
  | none, none => simp [traitIncludes]
  | some p, some q => simpa [traitIncludes] using TypePath.mutual_iff
  | some _, none => cases alike
  | none, some _ => cases alike

theorem mutual_iff {a b : CanonicalForm} (alike : a.traitRef.isSome = b.traitRef.isSome) :
    a.includes b = true ∧ b.includes a = true ↔ a.Resembles b := by
  rw [Resembles, ← traits_mutual_iff alike, ← Ty.mutual_iff, includes_iff, includes_iff,
    eq_comm (a := b.negated)]
  constructor
  · rintro ⟨⟨sign, trait₁, type₁⟩, _, trait₂, type₂⟩
    exact ⟨sign, ⟨trait₁, trait₂⟩, type₁, type₂⟩
  · rintro ⟨sign, ⟨trait₁, trait₂⟩, type₁, type₂⟩
    exact ⟨⟨sign, trait₁, type₁⟩, sign, trait₂, type₂⟩

/-- Types, and likewise paths, include each other exactly when they are the same without lifetimes.
So do canonical forms of one sign, provided that both have a trait or neither has one; what counts
of a form is its shape, as inclusion does not read the parameters. -/
theorem mutual_inclusion_iff_same_erasure :
    (∀ a b : Ty, a.includes b = true ∧ b.includes a = true ↔ a.erase = b.erase) ∧
    (∀ p q : TypePath, p.includes q = true ∧ q.includes p = true ↔ p.erase = q.erase) ∧
    ∀ a b : CanonicalForm, a.traitRef.isSome = b.traitRef.isSome →
      (a.includes b = true ∧ b.includes a = true ↔
        a.negated = b.negated ∧ a.traitRef.map TypePath.erase = b.traitRef.map TypePath.erase ∧
          a.selfTy.erase = b.selfTy.erase) :=
  ⟨fun _ _ => Ty.mutual_iff, fun _ _ => TypePath.mutual_iff, fun _ _ alike => mutual_iff alike⟩

/-- Lifetimes of a reference, in two argument lists and in a list of bounds make no difference. -/
theorem borrowed_form_and_bare_form :
    let wrapped (args : List Arg) (bounds : List Bound) : Ty :=
      .path (.plain "Wrap" (some (args ++ [.type (.bounded .dyn bounds)])))
    let any : Bound := .trait (.mk false (.plain "Any" none))
    let borrowed : CanonicalForm := ⟨[], false, some (.plain "Foo" (some [.lifetime "'a"])),
      .reference (some "'a") false (wrapped [.lifetime "'a"] [any, .lifetime "'a"])⟩
    let bare : CanonicalForm := ⟨[], false, some (.plain "Foo" none),
      .reference none false (wrapped [] [any])⟩
    borrowed.traitRef.isSome = bare.traitRef.isSome ∧
      borrowed.includes bare = true ∧ bare.includes borrowed = true := by
  intro wrapped any borrowed bare
  have alike : borrowed.traitRef.isSome = bare.traitRef.isSome := rfl
  obtain ⟨_, _, forms⟩ := mutual_inclusion_iff_same_erasure
  exact ⟨alike, (forms borrowed bare alike).2 ⟨rfl, by decide +kernel, by decide +kernel⟩⟩

end CanonicalForm

end ImplFamilies
