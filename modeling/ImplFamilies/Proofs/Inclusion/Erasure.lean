import ImplFamilies.Proofs.Inclusion.Preorder

/-!
Trees without their lifetimes, and inclusion between them. Erasing lifetimes on either side of an
inclusion changes nothing, whatever the trees are made of.
-/

namespace ImplFamilies

open Sequence

/-- An argument list that is empty counts as none. -/
def presentArgs : List Arg → Option (List Arg)
  | [] => none
  | a :: as => some (a :: as)

mutual

def Ty.erase : Ty → Ty
  | .never => .never
  | .path p => .path p.erase
  | .tuple xs => .tuple (Ty.eraseEach xs)
  | .array x n => .array x.erase n
  | .slice x => .slice x.erase
  | .pointer m x => .pointer m x.erase
  | .reference _ m x => .reference none m x.erase
  | .single o b => .single o b.erase
  | .bounded o bs => .bounded o (Bound.eraseEach bs)

def Ty.eraseEach : List Ty → List Ty
  | [] => []
  | x :: xs => x.erase :: Ty.eraseEach xs

def TypePath.erase : TypePath → TypePath
  | .plain s none => .plain s none
  | .plain s (some as) => .plain s (presentArgs (Arg.eraseEach as))
  | .fn m n xs none => .fn m n (Ty.eraseEach xs) none
  | .fn m n xs (some x) => .fn m n (Ty.eraseEach xs) (some x.erase)

def Arg.eraseEach : List Arg → List Arg
  | [] => []
  | .lifetime _ :: as => Arg.eraseEach as
  | .type x :: as => .type x.erase :: Arg.eraseEach as

def Bound.eraseEach : List Bound → List Bound
  | [] => []
  | .lifetime _ :: bs => Bound.eraseEach bs
  | .trait b :: bs => .trait b.erase :: Bound.eraseEach bs

def TraitBound.erase : TraitBound → TraitBound
  | .mk o p => .mk o p.erase

end

@[simp] theorem Ty.eraseEach_eq_map (xs : List Ty) : Ty.eraseEach xs = xs.map Ty.erase := by
  induction xs with
  | nil => rfl
  | cons x xs ih => simp [Ty.eraseEach, ih]

theorem Arg.eraseEach_eq_map (as : List Arg) :
    Arg.eraseEach as = (typeArgs as).map fun x => .type x.erase := by
  induction as with
  | nil => rfl
  | cons a as ih => cases a <;> simp [Arg.eraseEach, typeArgs, ih]

theorem Bound.eraseEach_eq_map (bs : List Bound) :
    Bound.eraseEach bs = (traitBounds bs).map fun b => .trait b.erase := by
  induction bs with
  | nil => rfl
  | cons b bs ih => cases b <;> simp [Bound.eraseEach, traitBounds, ih]

@[simp] theorem typeArgs_map_type {α : Type} (f : α → Ty) (xs : List α) :
    typeArgs (xs.map fun x => .type (f x)) = xs.map f := by
  induction xs with
  | nil => rfl
  | cons x xs ih => simp [typeArgs, ih]

@[simp] theorem traitBounds_map_trait {α : Type} (f : α → TraitBound) (bs : List α) :
    traitBounds (bs.map fun b => .trait (f b)) = bs.map f := by
  induction bs with
  | nil => rfl
  | cons b bs ih => simp [traitBounds, ih]

@[simp] theorem argTypes_presentArgs (as : List Arg) : argTypes (presentArgs as) = typeArgs as := by
  cases as <;> rfl

def eraseArgs (as : Option (List Arg)) : Option (List Arg) :=
  as.bind fun as => presentArgs (Arg.eraseEach as)

theorem TypePath.erase_plain (s : String) (as : Option (List Arg)) :
    (TypePath.plain s as).erase = .plain s (eraseArgs as) := by
  cases as <;> simp [TypePath.erase, eraseArgs]

theorem TypePath.erase_fn (m n : String) (xs : List Ty) (x : Option Ty) :
    (TypePath.fn m n xs x).erase = .fn m n (xs.map Ty.erase) (x.map Ty.erase) := by
  cases x <;> simp [TypePath.erase]

theorem argTypes_eraseArgs (as : Option (List Arg)) :
    argTypes (eraseArgs as) = (argTypes as).map Ty.erase := by
  cases as with
  | none => rfl
  | some as =>
    rw [eraseArgs, Option.bind_some, argTypes_presentArgs, Arg.eraseEach_eq_map,
      typeArgs_map_type]
    rfl

/- Inclusion of paths as a value, for both sides at once. -/

theorem TypePath.includes_plain (s t : String) (as bs : Option (List Arg)) :
    (TypePath.plain s as).includes (.plain t bs) =
      (s == t && emptyFits (argTypes as) (argTypes bs) &&
        coversEach Ty.includes (argTypes as) (argTypes bs)) := by
  rw [Bool.eq_iff_iff, includes_plain_iff]
  simp only [Bool.and_eq_true, beq_iff_eq, and_assoc]
  constructor
  · rintro ⟨_, _, ⟨⟩, parts⟩
    exact parts
  · intro parts
    exact ⟨t, bs, rfl, parts⟩

theorem TypePath.includes_fn (m n k l : String) (xs ys : List Ty) (x y : Option Ty) :
    (TypePath.fn m n xs x).includes (.fn k l ys y) =
      (n == l && m == k && emptyFits xs ys && coversEach Ty.includes xs ys &&
        Ty.outputIncludes x y) := by
  rw [Bool.eq_iff_iff, includes_fn_iff]
  simp only [Bool.and_eq_true, beq_iff_eq, and_assoc, ← Ty.includesEach_eq]
  constructor
  · rintro ⟨_, _, _, _, ⟨⟩, parts⟩
    exact parts
  · intro parts
    exact ⟨k, l, ys, y, rfl, parts⟩

namespace Sequence

variable {α β : Type}

@[simp] theorem emptyFits_map (f : α → β) (xs ys : List α) :
    emptyFits (xs.map f) (ys.map f) = emptyFits xs ys := by
  simp [emptyFits]

end Sequence

theorem TypePath.includes_plain_fn (s m n : String) (as : Option (List Arg)) (xs : List Ty)
    (x : Option Ty) : (TypePath.plain s as).includes (.fn m n xs x) = false := by
  cases as <;> simp [TypePath.includes]

theorem TypePath.includes_fn_plain (m n s : String) (xs : List Ty) (x : Option Ty)
    (as : Option (List Arg)) : (TypePath.fn m n xs x).includes (.plain s as) = false := by
  cases x <;> simp [TypePath.includes]

mutual

theorem Ty.includes_erase : (a b : Ty) → a.erase.includes b.erase = a.includes b
  | .never, b => by cases b <;> simp [Ty.erase, Ty.includes]
  | .path p, b => by cases b <;> simp [Ty.erase, Ty.includes, TypePath.includes_erase p]
  | .tuple xs, b => by
      cases b <;> simp [Ty.erase, Ty.includes, Ty.includesEach_eq, Ty.coversEach_erase xs]
  | .array x m, b => by cases b <;> simp [Ty.erase, Ty.includes, Ty.includes_erase x]
  | .slice x, b => by cases b <;> simp [Ty.erase, Ty.includes, Ty.includes_erase x]
  | .pointer m x, b => by cases b <;> simp [Ty.erase, Ty.includes, Ty.includes_erase x]
  | .reference l m x, b => by cases b <;> simp [Ty.erase, Ty.includes, Ty.includes_erase x]
  | .single o d, b => by cases b <;> simp [Ty.erase, Ty.includes, TraitBound.includes_erase d]
  | .bounded o bs, b => by
      cases b <;> simp [Ty.erase, Ty.includes, Bound.includesTraits_eq, Bound.eraseEach_eq_map,
        Bound.coversTraits_erase bs]

theorem Ty.coversEach_erase : (xs ys : List Ty) →
    coversEach Ty.includes (xs.map Ty.erase) (ys.map Ty.erase) = coversEach Ty.includes xs ys
  | [], ys => by cases ys <;> rfl
  | x :: xs, ys => by
      cases ys with
      | nil => rfl
      | cons y ys => simp [coversEach, Ty.includes_erase x y, Ty.coversEach_erase xs ys]

theorem TypePath.includes_erase : (p q : TypePath) → p.erase.includes q.erase = p.includes q
  | .plain s as, q => by
      cases q with
      | plain t bs =>
        have args : coversEach Ty.includes ((argTypes as).map Ty.erase)
            ((argTypes bs).map Ty.erase) =
            coversEach Ty.includes (argTypes as) (argTypes bs) := by
          cases as with
          | none => exact Arg.coversTypes_erase [] (argTypes bs)
          | some as => exact Arg.coversTypes_erase as (argTypes bs)
        simp [TypePath.erase_plain, TypePath.includes_plain, argTypes_eraseArgs, args]
      | fn k l ys y =>
        rw [TypePath.erase_plain, TypePath.erase_fn, TypePath.includes_plain_fn,
          TypePath.includes_plain_fn]
  | .fn m n xs x, q => by
      cases q with
      | plain t bs =>
        rw [TypePath.erase_plain, TypePath.erase_fn, TypePath.includes_fn_plain,
          TypePath.includes_fn_plain]
      | fn k l ys y =>
        have outputs : Ty.outputIncludes (x.map Ty.erase) (y.map Ty.erase) =
            Ty.outputIncludes x y := by
          match x, y with
          | some x, some y => exact Ty.includes_erase x y
          | some _, none => rfl
          | none, some _ => rfl
          | none, none => rfl
        simp [TypePath.erase_fn, TypePath.includes_fn, Ty.coversEach_erase xs ys, outputs]

theorem Arg.coversTypes_erase : (as : List Arg) → (ys : List Ty) →
    coversEach Ty.includes ((typeArgs as).map Ty.erase) (ys.map Ty.erase) =
      coversEach Ty.includes (typeArgs as) ys
  | [], ys => by cases ys <;> rfl
  | .lifetime _ :: as, ys => by
      simpa only [typeArgs] using Arg.coversTypes_erase as ys
  | .type x :: as, ys => by
      cases ys with
      | nil => rfl
      | cons y ys =>
        simp [typeArgs, coversEach, Ty.includes_erase x y, Arg.coversTypes_erase as ys]

theorem Bound.coversTraits_erase : (bs : List Bound) → (cs : List TraitBound) →
    coversEach TraitBound.includes ((traitBounds bs).map TraitBound.erase)
        (cs.map TraitBound.erase) =
      coversEach TraitBound.includes (traitBounds bs) cs
  | [], cs => by cases cs <;> rfl
  | .lifetime _ :: bs, cs => by
      simpa only [traitBounds] using Bound.coversTraits_erase bs cs
  | .trait b :: bs, cs => by
      cases cs with
      | nil => rfl
      | cons c cs =>
        simp [traitBounds, coversEach, TraitBound.includes_erase b c,
          Bound.coversTraits_erase bs cs]

theorem TraitBound.includes_erase : (b c : TraitBound) → b.erase.includes c.erase = b.includes c
  | .mk o p, .mk q r => by
      simp [TraitBound.erase, TraitBound.includes, TypePath.includes_erase p r]

end

namespace CanonicalForm

theorem traitIncludes_erase (p q : Option TypePath) :
    traitIncludes (p.map TypePath.erase) (q.map TypePath.erase) = traitIncludes p q := by
  cases p with
  | none => rfl
  | some p =>
    cases q with
    | none => rfl
    | some q => exact TypePath.includes_erase p q

/-- Both agree in sign, in having a trait, and in the trait and the type without lifetimes. -/
def Resembles (a b : CanonicalForm) : Prop :=
  a.negated = b.negated ∧
    a.traitRef.map TypePath.erase = b.traitRef.map TypePath.erase ∧
    a.selfTy.erase = b.selfTy.erase

theorem includes_of_resembles {a a' b b' : CanonicalForm} (ha : a.Resembles a')
    (hb : b.Resembles b') : a.includes b = a'.includes b' := by
  obtain ⟨na, pa, ta⟩ := ha
  obtain ⟨nb, pb, tb⟩ := hb
  rw [includes, ← traitIncludes_erase, ← Ty.includes_erase, na, nb, pa, pb, ta, tb,
    traitIncludes_erase, Ty.includes_erase, includes]

end CanonicalForm

end ImplFamilies
