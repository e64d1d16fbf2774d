import ImplFamilies.Canonical.Form

/-!
Inclusion is reflexive and transitive on types, paths and lists of bounds. Between canonical forms
transitivity needs that a form without a trait does not stand between two forms with one.
-/

namespace ImplFamilies

open Sequence

namespace Sequence

variable {α : Type}

theorem coversEach_nil (r : α → α → Bool) (ys : List α) : coversEach r [] ys = ys.isEmpty := by
  cases ys <;> rfl

theorem emptyFits_self (xs : List α) : emptyFits xs xs = true := by
  cases xs <;> rfl

theorem emptyFits_trans {xs ys zs : List α} (h₁ : emptyFits xs ys = true)
    (h₂ : emptyFits ys zs = true) : emptyFits xs zs = true := by
  cases xs <;> cases ys <;> cases zs <;> simp_all [emptyFits]

end Sequence

/- What a type of each kind includes is of the same kind. -/

theorem Ty.includes_never_iff {b : Ty} : Ty.never.includes b = true ↔ b = .never := by
  cases b <;> simp [Ty.includes]

theorem Ty.includes_path_iff {p : TypePath} {b : Ty} :
    (Ty.path p).includes b = true ↔ ∃ q, b = .path q ∧ p.includes q = true := by
  constructor
  · intro h
    cases b with
    | path q => exact ⟨q, rfl, by simpa [Ty.includes] using h⟩
    | _ => simp [Ty.includes] at h
  · rintro ⟨q, rfl, h⟩
    simpa [Ty.includes] using h

theorem Ty.includes_tuple_iff {xs : List Ty} {b : Ty} :
    (Ty.tuple xs).includes b = true ↔
      ∃ ys, b = .tuple ys ∧ emptyFits xs ys = true ∧ Ty.includesEach xs ys = true := by
  constructor
  · intro h
    cases b with
    | tuple ys => exact ⟨ys, rfl, by simpa [Ty.includes] using h⟩
    | _ => simp [Ty.includes] at h
  · rintro ⟨ys, rfl, h⟩
    simpa [Ty.includes] using h

theorem Ty.includes_array_iff {x : Ty} {m : UInt64} {b : Ty} :
    (Ty.array x m).includes b = true ↔
      ∃ y n, b = .array y n ∧ n ≤ m ∧ x.includes y = true := by
  constructor
  · intro h
    cases b with
    | array y n => exact ⟨y, n, rfl, by simpa [Ty.includes] using h⟩
    | _ => simp [Ty.includes] at h
  · rintro ⟨y, n, rfl, h⟩
    simpa [Ty.includes] using h

theorem Ty.includes_slice_iff {x b : Ty} :
    (Ty.slice x).includes b = true ↔ ∃ y, b = .slice y ∧ x.includes y = true := by
  constructor
  · intro h
    cases b with
    | slice y => exact ⟨y, rfl, by simpa [Ty.includes] using h⟩
    | _ => simp [Ty.includes] at h
  · rintro ⟨y, rfl, h⟩
    simpa [Ty.includes] using h

theorem Ty.includes_pointer_iff {m : Bool} {x b : Ty} :
    (Ty.pointer m x).includes b = true ↔
      ∃ n y, b = .pointer n y ∧ m = n ∧ x.includes y = true := by
  constructor
  · intro h
    cases b with
    | pointer n y => exact ⟨n, y, rfl, by simpa [Ty.includes] using h⟩
    | _ => simp [Ty.includes] at h
  · rintro ⟨n, y, rfl, h⟩
    simpa [Ty.includes] using h

theorem Ty.includes_reference_iff {l : Option String} {m : Bool} {x b : Ty} :
    (Ty.reference l m x).includes b = true ↔
      ∃ k n y, b = .reference k n y ∧ m = n ∧ x.includes y = true := by
  constructor
  · intro h
    cases b with
    | reference k n y => exact ⟨k, n, y, rfl, by simpa [Ty.includes] using h⟩
    | _ => simp [Ty.includes] at h
  · rintro ⟨k, n, y, rfl, h⟩
    simpa [Ty.includes] using h

theorem Ty.includes_single_iff {o : Opener} {d : TraitBound} {b : Ty} :
    (Ty.single o d).includes b = true ↔
      ∃ q e, b = .single q e ∧ o = q ∧ d.includes e = true := by
  constructor
  · intro h
    cases b with
    | single q e => exact ⟨q, e, rfl, by simpa [Ty.includes] using h⟩
    | _ => simp [Ty.includes] at h
  · rintro ⟨q, e, rfl, h⟩
    simpa [Ty.includes] using h

theorem Ty.includes_bounded_iff {o : Opener} {bs : List Bound} {b : Ty} :
    (Ty.bounded o bs).includes b = true ↔
      ∃ q cs, b = .bounded q cs ∧ o = q ∧
        emptyFits (traitBounds bs) (traitBounds cs) = true ∧
        Bound.includesTraits bs (traitBounds cs) = true := by
  constructor
  · intro h
    cases b with
    | bounded q cs => exact ⟨q, cs, rfl, by simpa [Ty.includes, and_assoc] using h⟩
    | _ => simp [Ty.includes] at h
  · rintro ⟨q, cs, rfl, h⟩
    simpa [Ty.includes, and_assoc] using h

theorem TypePath.includes_plain_iff {s : String} {as : Option (List Arg)} {q : TypePath} :
    (TypePath.plain s as).includes q = true ↔
      ∃ t bs, q = .plain t bs ∧ s = t ∧ emptyFits (argTypes as) (argTypes bs) = true ∧
        coversEach Ty.includes (argTypes as) (argTypes bs) = true := by
  have step (t : String) (bs : Option (List Arg)) :
      (TypePath.plain s as).includes (.plain t bs) = true ↔ s = t ∧
        emptyFits (argTypes as) (argTypes bs) = true ∧
        coversEach Ty.includes (argTypes as) (argTypes bs) = true := by
    cases as with
    | none =>
      simp only [TypePath.includes, ← coversEach_nil Ty.includes]
      simp [argTypes, typeArgs, emptyFits]
    | some as => simp [TypePath.includes, argTypes, Arg.includesTypes_eq, and_assoc]
  constructor
  · intro h
    cases q with
    | plain t bs => exact ⟨t, bs, rfl, (step t bs).1 h⟩
    | fn k l ys y => cases as <;> simp [TypePath.includes] at h
  · rintro ⟨t, bs, rfl, h⟩
    exact (step t bs).2 h

def Ty.outputIncludes : Option Ty → Option Ty → Bool
  | some x, some y => x.includes y
  | none, none => true
  | _, _ => false

theorem TypePath.includes_fn_iff {m n : String} {xs : List Ty} {x : Option Ty} {q : TypePath} :
    (TypePath.fn m n xs x).includes q = true ↔
      ∃ k l ys y, q = .fn k l ys y ∧ n = l ∧ m = k ∧ emptyFits xs ys = true ∧
        Ty.includesEach xs ys = true ∧ Ty.outputIncludes x y = true := by
  have step (k l : String) (ys : List Ty) (y : Option Ty) :
      (TypePath.fn m n xs x).includes (.fn k l ys y) = true ↔ n = l ∧ m = k ∧
        emptyFits xs ys = true ∧ Ty.includesEach xs ys = true ∧
        Ty.outputIncludes x y = true := by
    cases x <;> cases y <;> simp [TypePath.includes, Ty.outputIncludes, and_assoc]
  constructor
  · intro h
    cases q with
    | plain t bs => cases x <;> simp [TypePath.includes] at h
    | fn k l ys y => exact ⟨k, l, ys, y, rfl, (step k l ys y).1 h⟩
  · rintro ⟨k, l, ys, y, rfl, h⟩
    exact (step k l ys y).2 h

theorem TraitBound.includes_iff {b c : TraitBound} :
    b.includes c = true ↔ (c.optional = true → b.optional = true) ∧
      b.path.includes c.path = true := by
  rcases b with ⟨o, p⟩
  rcases c with ⟨q, r⟩
  cases o <;> cases q <;> simp [TraitBound.includes, TraitBound.optional, TraitBound.path]

mutual

theorem Ty.includes_refl : (a : Ty) → a.includes a = true
  | .never => Ty.includes_never_iff.2 rfl
  | .path p => Ty.includes_path_iff.2 ⟨p, rfl, TypePath.includes_refl p⟩
  | .tuple xs => Ty.includes_tuple_iff.2 ⟨xs, rfl, emptyFits_self xs, Ty.includesEach_refl xs⟩
  | .array x m => Ty.includes_array_iff.2 ⟨x, m, rfl, UInt64.le_refl m, Ty.includes_refl x⟩
  | .slice x => Ty.includes_slice_iff.2 ⟨x, rfl, Ty.includes_refl x⟩
  | .pointer m x => Ty.includes_pointer_iff.2 ⟨m, x, rfl, rfl, Ty.includes_refl x⟩
  | .reference l m x => Ty.includes_reference_iff.2 ⟨l, m, x, rfl, rfl, Ty.includes_refl x⟩
  | .single o b => Ty.includes_single_iff.2 ⟨o, b, rfl, rfl, TraitBound.includes_refl b⟩
  | .bounded o bs => Ty.includes_bounded_iff.2
      ⟨o, bs, rfl, rfl, emptyFits_self _, Bound.includesTraits_refl bs⟩

theorem Ty.includesEach_refl : (xs : List Ty) → Ty.includesEach xs xs = true
  | [] => by simp [Ty.includesEach]
  | x :: xs => by simp [Ty.includesEach, Ty.includes_refl x, Ty.includesEach_refl xs]

theorem TypePath.includes_refl : (p : TypePath) → p.includes p = true
  | .plain s none => by simp [TypePath.includes, argTypes, typeArgs]
  | .plain s (some as) => by
      simp [TypePath.includes, argTypes, emptyFits_self (typeArgs as), Arg.includesTypes_refl as]
  | .fn m n xs none => by simp [TypePath.includes, emptyFits_self xs, Ty.includesEach_refl xs]
  | .fn m n xs (some x) => by
      simp [TypePath.includes, emptyFits_self xs, Ty.includesEach_refl xs, Ty.includes_refl x]

theorem Arg.includesTypes_refl : (as : List Arg) → Arg.includesTypes as (typeArgs as) = true
  | [] => by simp [Arg.includesTypes, typeArgs]
  | .lifetime _ :: as => by
      simpa only [Arg.includesTypes, typeArgs] using Arg.includesTypes_refl as
  | .type x :: as => by
      simp [Arg.includesTypes, typeArgs, Ty.includes_refl x, Arg.includesTypes_refl as]

theorem Bound.includesTraits_refl :
    (bs : List Bound) → Bound.includesTraits bs (traitBounds bs) = true
  | [] => by simp [Bound.includesTraits, traitBounds]
  | .lifetime _ :: bs => by
      simpa only [Bound.includesTraits, traitBounds] using Bound.includesTraits_refl bs
  | .trait b :: bs => by
      simp [Bound.includesTraits, traitBounds, TraitBound.includes_refl b,
        Bound.includesTraits_refl bs]

theorem TraitBound.includes_refl : (b : TraitBound) → b.includes b = true
  | .mk o p => by cases o <;> simp [TraitBound.includes, TypePath.includes_refl p]

end
mutual

theorem Ty.includes_trans :
    (a b c : Ty) → a.includes b = true → b.includes c = true → a.includes c = true
  | .never, b, c => by
      intro h₁ h₂
      obtain rfl := Ty.includes_never_iff.1 h₁
      exact h₂
  | .path p, b, c => by
      intro h₁ h₂
      obtain ⟨q, rfl, hp⟩ := Ty.includes_path_iff.1 h₁
      obtain ⟨r, rfl, hq⟩ := Ty.includes_path_iff.1 h₂
      exact Ty.includes_path_iff.2 ⟨r, rfl, TypePath.includes_trans p q r hp hq⟩
  | .tuple xs, b, c => by
      intro h₁ h₂
      obtain ⟨ys, rfl, e₁, t₁⟩ := Ty.includes_tuple_iff.1 h₁
      obtain ⟨zs, rfl, e₂, t₂⟩ := Ty.includes_tuple_iff.1 h₂
      exact Ty.includes_tuple_iff.2
        ⟨zs, rfl, emptyFits_trans e₁ e₂, Ty.includesEach_trans xs ys zs t₁ t₂⟩
  | .array x m, b, c => by
      intro h₁ h₂
      obtain ⟨y, n, rfl, e₁, t₁⟩ := Ty.includes_array_iff.1 h₁
      obtain ⟨z, k, rfl, e₂, t₂⟩ := Ty.includes_array_iff.1 h₂
      exact Ty.includes_array_iff.2
        ⟨z, k, rfl, UInt64.le_trans e₂ e₁, Ty.includes_trans x y z t₁ t₂⟩
  | .slice x, b, c => by
      intro h₁ h₂
      obtain ⟨y, rfl, t₁⟩ := Ty.includes_slice_iff.1 h₁
      obtain ⟨z, rfl, t₂⟩ := Ty.includes_slice_iff.1 h₂
      exact Ty.includes_slice_iff.2 ⟨z, rfl, Ty.includes_trans x y z t₁ t₂⟩
  | .pointer m x, b, c => by
      intro h₁ h₂
      obtain ⟨_, y, rfl, rfl, t₁⟩ := Ty.includes_pointer_iff.1 h₁
      obtain ⟨_, z, rfl, rfl, t₂⟩ := Ty.includes_pointer_iff.1 h₂
      exact Ty.includes_pointer_iff.2 ⟨m, z, rfl, rfl, Ty.includes_trans x y z t₁ t₂⟩
  | .reference l m x, b, c => by
      intro h₁ h₂
      obtain ⟨_, _, y, rfl, rfl, t₁⟩ := Ty.includes_reference_iff.1 h₁
      obtain ⟨k, _, z, rfl, rfl, t₂⟩ := Ty.includes_reference_iff.1 h₂
      exact Ty.includes_reference_iff.2 ⟨k, m, z, rfl, rfl, Ty.includes_trans x y z t₁ t₂⟩
  | .single o d, b, c => by
      intro h₁ h₂
      obtain ⟨_, e, rfl, rfl, t₁⟩ := Ty.includes_single_iff.1 h₁
      obtain ⟨_, f, rfl, rfl, t₂⟩ := Ty.includes_single_iff.1 h₂
      exact Ty.includes_single_iff.2 ⟨o, f, rfl, rfl, TraitBound.includes_trans d e f t₁ t₂⟩
  | .bounded o bs, b, c => by
      intro h₁ h₂
      obtain ⟨_, cs, rfl, rfl, e₁, t₁⟩ := Ty.includes_bounded_iff.1 h₁
      obtain ⟨_, ds, rfl, rfl, e₂, t₂⟩ := Ty.includes_bounded_iff.1 h₂
      rw [Bound.includesTraits_eq] at t₁ t₂
      refine Ty.includes_bounded_iff.2 ⟨o, ds, rfl, rfl, emptyFits_trans e₁ e₂, ?_⟩
      rw [Bound.includesTraits_eq]
      exact Bound.coversTraits_trans bs _ _ t₁ t₂

theorem Ty.includesEach_trans : (xs ys zs : List Ty) → Ty.includesEach xs ys = true →
    Ty.includesEach ys zs = true → Ty.includesEach xs zs = true
  | [], ys, zs => by cases ys <;> cases zs <;> simp [Ty.includesEach]
  | x :: xs, ys, zs => by
      cases ys <;> cases zs <;> simp [Ty.includesEach]
      intro h₁ t₁ h₂ t₂
      exact ⟨Ty.includes_trans x _ _ h₁ h₂, Ty.includesEach_trans xs _ _ t₁ t₂⟩

theorem TypePath.includes_trans :
    (p q r : TypePath) → p.includes q = true → q.includes r = true → p.includes r = true
  | .plain s as, q, r => by
      intro h₁ h₂
      obtain ⟨_, bs, rfl, rfl, e₁, t₁⟩ := TypePath.includes_plain_iff.1 h₁
      obtain ⟨_, cs, rfl, rfl, e₂, t₂⟩ := TypePath.includes_plain_iff.1 h₂
      refine TypePath.includes_plain_iff.2 ⟨s, cs, rfl, rfl, emptyFits_trans e₁ e₂, ?_⟩
      cases as with
      | none => exact Arg.coversTypes_trans [] _ _ t₁ t₂
      | some as => exact Arg.coversTypes_trans as _ _ t₁ t₂
  | .fn m n xs x, q, r => by
      intro h₁ h₂
      obtain ⟨_, _, ys, y, rfl, rfl, rfl, e₁, t₁, o₁⟩ := TypePath.includes_fn_iff.1 h₁
      obtain ⟨_, _, zs, z, rfl, rfl, rfl, e₂, t₂, o₂⟩ := TypePath.includes_fn_iff.1 h₂
      refine TypePath.includes_fn_iff.2 ⟨m, n, zs, z, rfl, rfl, rfl, emptyFits_trans e₁ e₂,
        Ty.includesEach_trans xs ys zs t₁ t₂, ?_⟩
      match x, y, z, o₁, o₂ with
      | some x, some y, some z, o₁, o₂ => exact Ty.includes_trans x y z o₁ o₂
      | none, none, none, _, _ => rfl

theorem Arg.coversTypes_trans : (as : List Arg) → (ys zs : List Ty) →
    coversEach Ty.includes (typeArgs as) ys = true → coversEach Ty.includes ys zs = true →
    coversEach Ty.includes (typeArgs as) zs = true
  | [], ys, zs => by cases ys <;> cases zs <;> simp [typeArgs, coversEach]
  | .lifetime _ :: as, ys, zs => by
      simpa only [typeArgs] using Arg.coversTypes_trans as ys zs
  | .type x :: as, ys, zs => by
      cases ys <;> cases zs <;> simp [typeArgs, coversEach]
      intro h₁ t₁ h₂ t₂
      exact ⟨Ty.includes_trans x _ _ h₁ h₂, Arg.coversTypes_trans as _ _ t₁ t₂⟩

theorem Bound.coversTraits_trans : (bs : List Bound) → (cs ds : List TraitBound) →
    coversEach TraitBound.includes (traitBounds bs) cs = true →
    coversEach TraitBound.includes cs ds = true →
    coversEach TraitBound.includes (traitBounds bs) ds = true
  | [], cs, ds => by cases cs <;> cases ds <;> simp [traitBounds, coversEach]
  | .lifetime _ :: bs, cs, ds => by
      simpa only [traitBounds] using Bound.coversTraits_trans bs cs ds
  | .trait b :: bs, cs, ds => by
      cases cs <;> cases ds <;> simp [traitBounds, coversEach]
      intro h₁ t₁ h₂ t₂
      exact ⟨TraitBound.includes_trans b _ _ h₁ h₂, Bound.coversTraits_trans bs _ _ t₁ t₂⟩

theorem TraitBound.includes_trans :
    (b c d : TraitBound) → b.includes c = true → c.includes d = true → b.includes d = true
  | .mk o p, c, d => by
      intro h₁ h₂
      obtain ⟨o₁, t₁⟩ := TraitBound.includes_iff.1 h₁
      obtain ⟨o₂, t₂⟩ := TraitBound.includes_iff.1 h₂
      exact TraitBound.includes_iff.2
        ⟨fun h => o₁ (o₂ h), TypePath.includes_trans p c.path d.path t₁ t₂⟩

end

namespace CanonicalForm

theorem traitIncludes_refl (p : Option TypePath) : traitIncludes p p = true := by
  cases p with
  | none => rfl
  | some p => exact TypePath.includes_refl p

theorem includes_iff {a b : CanonicalForm} :
    a.includes b = true ↔ a.negated = b.negated ∧
      traitIncludes a.traitRef b.traitRef = true ∧ a.selfTy.includes b.selfTy = true := by
  simp [includes, and_assoc]

theorem includes_refl (a : CanonicalForm) : a.includes a = true :=
  includes_iff.2 ⟨rfl, traitIncludes_refl a.traitRef, Ty.includes_refl a.selfTy⟩

/-- The trait of the form between two others is read unless one of those two has none. -/
theorem traitIncludes_trans {p q r : Option TypePath}
    (named : q = none → p = none ∨ r = none) (h₁ : traitIncludes p q = true)
    (h₂ : traitIncludes q r = true) : traitIncludes p r = true := by
  match p, q, r with
  | none, _, _ => rfl
  | some _, _, none => rfl
  | some p, some q, some r => exact TypePath.includes_trans p q r h₁ h₂
  | some _, none, some _ => simp at named

theorem includes_trans {a b c : CanonicalForm}
    (named : b.traitRef = none → a.traitRef = none ∨ c.traitRef = none)
    (h₁ : a.includes b = true) (h₂ : b.includes c = true) : a.includes c = true := by
  obtain ⟨n₁, p₁, t₁⟩ := includes_iff.1 h₁
  obtain ⟨n₂, p₂, t₂⟩ := includes_iff.1 h₂
  exact includes_iff.2
    ⟨n₁.trans n₂, traitIncludes_trans named p₁ p₂, Ty.includes_trans _ _ _ t₁ t₂⟩

/-- Whatever form stands between two others, only their traits can keep them apart. -/
theorem includes_eq_traitIncludes {a b c : CanonicalForm} (h₁ : a.includes b = true)
    (h₂ : b.includes c = true) : a.includes c = traitIncludes a.traitRef c.traitRef := by
  obtain ⟨n₁, _, t₁⟩ := includes_iff.1 h₁
  obtain ⟨n₂, _, t₂⟩ := includes_iff.1 h₂
  simp [includes, n₁.trans n₂, Ty.includes_trans _ _ _ t₁ t₂]

/-- Types, paths and canonical forms include themselves, and what they include passes on. Only a
form without a trait between two with one breaks the chain, and then the two traits decide. -/
theorem inclusion_is_preorder :
    (∀ a : Ty, a.includes a = true) ∧
    (∀ a b c : Ty, a.includes b = true → b.includes c = true → a.includes c = true) ∧
    (∀ p : TypePath, p.includes p = true) ∧
    (∀ p q r : TypePath, p.includes q = true → q.includes r = true → p.includes r = true) ∧
    (∀ a : CanonicalForm, a.includes a = true) ∧
    ∀ a b c : CanonicalForm, a.includes b = true → b.includes c = true →
      (¬(b.traitRef = none ∧ a.traitRef ≠ none ∧ c.traitRef ≠ none) → a.includes c = true) ∧
      a.includes c = traitIncludes a.traitRef c.traitRef := by
  refine ⟨Ty.includes_refl, Ty.includes_trans, TypePath.includes_refl, TypePath.includes_trans,
    includes_refl, fun a b c h₁ h₂ => ⟨fun apart => ?_, includes_eq_traitIncludes h₁ h₂⟩⟩
  refine includes_trans (fun inherent => ?_) h₁ h₂
  by_cases first : a.traitRef = none
  · exact .inl first
  · by_cases last : c.traitRef = none
    · exact .inr last
    · exact absurd ⟨inherent, first, last⟩ apart

/-- The widest of three tuples includes the narrowest by way of the one between, but not when the
one between has no trait and the others have different ones. -/
theorem widest_tuple_includes_narrowest :
    let tuple (names : List String) : Ty := .tuple (names.map fun s => .path (.plain s none))
    let form (trait : Option String) (names : List String) : CanonicalForm :=
      ⟨[], false, trait.map fun s => .plain s none, tuple names⟩
    let wide := form (some "Foo") ["T0", "T1", "T2"]
    wide.includes (form (some "Foo") ["T0", "T1"]) = true ∧
    (form (some "Foo") ["T0", "T1"]).includes (form (some "Foo") ["T0"]) = true ∧
    wide.includes (form (some "Foo") ["T0"]) = true ∧
    wide.includes (form none ["T0", "T1"]) = true ∧
    (form none ["T0", "T1"]).includes (form (some "Bar") ["T0"]) = true ∧
    wide.includes (form (some "Bar") ["T0"]) = false := by
  intro tuple form wide
  have first : wide.includes (form (some "Foo") ["T0", "T1"]) = true := by decide +kernel
  have second : (form (some "Foo") ["T0", "T1"]).includes (form (some "Foo") ["T0"]) = true := by
    decide +kernel
  have nameless : wide.includes (form none ["T0", "T1"]) = true := by decide +kernel
  have other : (form none ["T0", "T1"]).includes (form (some "Bar") ["T0"]) = true := by
    decide +kernel
  obtain ⟨_, _, _, _, _, chain⟩ := inclusion_is_preorder
  refine ⟨first, second, (chain _ _ _ first second).1 (by simp [form]), nameless, other, ?_⟩
  rw [(chain _ _ _ nameless other).2]
  decide +kernel

end CanonicalForm

end ImplFamilies
