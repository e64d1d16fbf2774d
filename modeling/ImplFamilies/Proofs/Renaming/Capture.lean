import ImplFamilies.Grammar.SyntaxError
import ImplFamilies.Proofs.Canonical.Declared
import ImplFamilies.Proofs.Renaming.CanonicalNames
import Mathlib.Data.List.Nodup

/-!
Canonical names are names like any other: a signature may use one of them for a type that it does
not declare, and in the canonical form that name and the parameter of its number are the same. No
other names fall together, and signatures without such a name can be told from their canonical
forms, up to the names of their parameters.
-/

namespace ImplFamilies

open Param (typeNames)

namespace Renaming

def between (names others : List String) : Renaming := fun n =>
  (names.idxOf? n).bind (others[·]?)

variable {names others : List String} {n m : String} {i : Nat}

theorem between_of_place (place : names.idxOf? n = some i) (h : others[i]? = some m) :
    (between names others).apply n = m := by
  rw [apply, between, place, Option.bind_some, h]
  rfl

theorem between_of_not_mem (h : n ∉ names) : (between names others).apply n = n := by
  rw [apply, between, List.idxOf?_eq_none_iff.2 h]
  rfl

def back (names : List String) : Renaming :=
  between ((List.range names.length).map canonicalName) names

theorem back_canonicalName (h : names[i]? = some n) : (back names).apply (canonicalName i) = n := by
  obtain ⟨within, _⟩ := List.getElem?_eq_some_iff.1 h
  refine between_of_place (List.idxOf?_eq_some_iff.2 ⟨by simpa using within, by simp, ?_⟩) h
  intro j before same
  have place : j = i := canonicalName_inj.1 (by simpa using same)
  omega

theorem back_of_ne (h : ∀ i < names.length, n ≠ canonicalName i) : (back names).apply n = n := by
  refine between_of_not_mem fun mem => ?_
  obtain ⟨i, within, rfl⟩ := List.mem_map.1 mem
  exact h i (List.mem_range.1 within) rfl

end Renaming

/-- The name `b`, declared by none of the parameters, is the canonical name of `a`. -/
def Captures (params : List Param) (a b : String) : Prop :=
  ∃ i, (typeNames params)[i]? = some a ∧ b = canonicalName i ∧ b ∉ typeNames params

/-- No name but those of the parameters is one of the first `k` canonical names. -/
def Uncaptured (params : List Param) (k : Nat) (names : List String) : Prop :=
  ∀ name ∈ names, name ∉ typeNames params → ∀ i < k, name ≠ canonicalName i

section Names

variable {params : List Param} {a b : String}

theorem idxOf?_of_getElem? {names : List String} {i : Nat} (distinct : names.Nodup)
    (h : names[i]? = some a) : names.idxOf? a = some i := by
  obtain ⟨within, same⟩ := List.getElem?_eq_some_iff.1 h
  refine List.idxOf?_eq_some_iff.2 ⟨within, same, fun j before same' => ?_⟩
  have place : j = i := distinct.getElem_inj_iff.1 (same'.trans same.symm)
  omega

theorem Captures.same_name (distinct : (typeNames params).Nodup) (h : Captures params a b) :
    (canonicalRenaming params).apply a = (canonicalRenaming params).apply b := by
  obtain ⟨i, place, rfl, undeclared⟩ := h
  rw [canonicalRenaming_of_not_mem undeclared, Renaming.apply, canonicalRenaming,
    idxOf?_of_getElem? distinct place]
  rfl

theorem captures_of_same_name (differ : a ≠ b)
    (same : (canonicalRenaming params).apply a = (canonicalRenaming params).apply b) :
    Captures params a b ∨ Captures params b a := by
  by_cases ha : a ∈ typeNames params <;> by_cases hb : b ∈ typeNames params
  · obtain ⟨i, place, renamed⟩ := canonicalRenaming_of_mem ha
    obtain ⟨j, place', renamed'⟩ := canonicalRenaming_of_mem hb
    rw [renamed, renamed', canonicalName_inj] at same
    subst same
    have found := (getElem?_of_idxOf? place).symm.trans (getElem?_of_idxOf? place')
    exact absurd (Option.some.inj found) differ
  · obtain ⟨i, place, renamed⟩ := canonicalRenaming_of_mem ha
    rw [renamed, canonicalRenaming_of_not_mem hb] at same
    exact .inl ⟨i, getElem?_of_idxOf? place, same.symm, hb⟩
  · obtain ⟨i, place, renamed⟩ := canonicalRenaming_of_mem hb
    rw [canonicalRenaming_of_not_mem ha, renamed] at same
    exact .inr ⟨i, getElem?_of_idxOf? place, same, ha⟩
  · rw [canonicalRenaming_of_not_mem ha, canonicalRenaming_of_not_mem hb] at same
    exact absurd same differ

theorem Uncaptured.not_captures {names : List String}
    (h : Uncaptured params (typeNames params).length names) (mem : b ∈ names) :
    ¬ Captures params a b := by
  rintro ⟨i, place, rfl, undeclared⟩
  exact h _ mem undeclared i (List.getElem?_eq_some_iff.1 place).1 rfl

/-- Without captured names, the canonical names lead back to the declared ones. -/
theorem back_canonicalRenaming {names : List String}
    (h : Uncaptured params (typeNames params).length names) (mem : a ∈ names) :
    (Renaming.back (typeNames params)).apply ((canonicalRenaming params).apply a) = a := by
  by_cases declared : a ∈ typeNames params
  · obtain ⟨i, place, renamed⟩ := canonicalRenaming_of_mem declared
    rw [renamed, Renaming.back_canonicalName (getElem?_of_idxOf? place)]
  · rw [canonicalRenaming_of_not_mem declared, Renaming.back_of_ne (h a mem declared)]

theorem place_lt_of_renamed {names : List String} {i k : Nat} (h : Uncaptured params k names)
    (within : i < k) (mem : a ∈ names)
    (renamed : (canonicalRenaming params).apply a = canonicalName i) :
    i < (typeNames params).length := by
  by_cases declared : a ∈ typeNames params
  · obtain ⟨j, place, renamed'⟩ := canonicalRenaming_of_mem declared
    obtain rfl := canonicalName_inj.1 (renamed'.symm.trans renamed)
    exact (List.getElem?_eq_some_iff.1 (getElem?_of_idxOf? place)).1
  · rw [canonicalRenaming_of_not_mem declared] at renamed
    exact absurd renamed (h a mem declared i within)

end Names

namespace CanonicalForm

variable {s t : Signature} {f g : CanonicalForm}

theorem nodup_typeNames (h : ofSignature s = .ok f) : (typeNames f.params).Nodup := by
  obtain ⟨params, fits, rfl⟩ := ofSignature_eq_ok.1 h
  rw [Param.typeNames_constrainAll fits]
  exact (Param.nodup_names_declareAll s.generics).sublist (List.filter_sublist.map _)

theorem getElem?_heads (h : ofSignature s = .ok f) {i : Nat} {a : String}
    (place : s.heads[i]? = some a) :
    f.heads[i]? = some ((canonicalRenaming f.params).apply a) := by
  rw [heads_ofSignature h, List.getElem?_map, place, Option.map_some]

/-- From one signature to another of the same canonical form, by the places of the parameters. -/
theorem renamed_of_sameShape {k : Nat} (hs : ofSignature s = .ok f) (ht : ofSignature t = .ok g)
    (fewer : (typeNames f.params).length ≤ k) (fewer' : (typeNames g.params).length ≤ k)
    (free : Uncaptured f.params k s.heads) (free' : Uncaptured g.params k t.heads)
    (same : f.sameShape g = true) :
    let ρ := Renaming.between (typeNames f.params) (typeNames g.params)
    s.negated = t.negated ∧ s.traitRef.map (TypePath.rename ρ) = t.traitRef ∧
      s.selfTy.rename ρ = t.selfTy := by
  intro ρ
  have heads := (heads_ofSignature hs).symm.trans <|
    (congrArg₂ headerHeads (sameShape_iff.1 same).2.1 (sameShape_iff.1 same).2.2).trans
      (heads_ofSignature ht)
  have forth : ∀ a ∈ s.heads, (Renaming.back (typeNames g.params)).apply
      ((canonicalRenaming f.params).apply a) = ρ.apply a := by
    intro a mem
    by_cases declared : a ∈ typeNames f.params
    · obtain ⟨i, place, renamed⟩ := canonicalRenaming_of_mem declared
      have within := (List.getElem?_eq_some_iff.1 (getElem?_of_idxOf? place)).1
      obtain ⟨b, mem', renamed'⟩ := List.mem_map.1 (heads ▸ List.mem_map_of_mem mem)
      have within' := place_lt_of_renamed free' (by omega) mem' (renamed'.trans renamed)
      have partner := List.getElem?_eq_getElem within'
      rw [renamed, Renaming.back_canonicalName partner, Renaming.between_of_place place partner]
    · rw [canonicalRenaming_of_not_mem declared, Renaming.between_of_not_mem declared]
      exact Renaming.back_of_ne fun i within => free a mem declared i (by omega)
  have returned : ∀ a ∈ t.heads, (Renaming.back (typeNames g.params)).apply
      ((canonicalRenaming g.params).apply a) = Renaming.keep.apply a := fun a mem =>
    back_canonicalRenaming (fun b hb other i within => free' b hb other i (by omega)) mem
  obtain ⟨params, _, rfl⟩ := ofSignature_eq_ok.1 hs
  obtain ⟨params', _, rfl⟩ := ofSignature_eq_ok.1 ht
  obtain ⟨negated, path, type⟩ := sameShape_iff.1 same
  obtain ⟨path₁, type₁⟩ := header_rename_rename (whole_canonicalRenaming params) forth
  obtain ⟨path₂, type₂⟩ := header_rename_rename (whole_canonicalRenaming params') returned
  obtain ⟨path₃, type₃⟩ := header_rename_keep t.traitRef t.selfTy
  dsimp only at path type
  rw [path] at path₁
  rw [type] at type₁
  exact ⟨negated, path₁.symm.trans (path₂.trans path₃), type₁.symm.trans (type₂.trans type₃)⟩

/-- Leading segments at different places, where they differ, have the same canonical form exactly
when one is a type parameter and the other its canonical name, used for something else. Where no
name is used so, they stay different, and signatures of the same shape are equal up to the names
of their type parameters, place by place. -/
theorem names_collide_only_by_capture :
    (∀ s f, ofSignature s = .ok f → f.heads.length = s.heads.length ∧
      ∀ (i j : Nat) (a b : String), s.heads[i]? = some a → s.heads[j]? = some b → a ≠ b →
        (f.heads[i]? = f.heads[j]? ↔ Captures f.params a b ∨ Captures f.params b a) ∧
        (Uncaptured f.params (typeNames f.params).length s.heads → f.heads[i]? ≠ f.heads[j]?)) ∧
    ∀ s t f g, ofSignature s = .ok f → ofSignature t = .ok g → f.sameShape g = true →
      let k := max (typeNames f.params).length (typeNames g.params).length
      let ρ := Renaming.between (typeNames f.params) (typeNames g.params)
      Uncaptured f.params k s.heads → Uncaptured g.params k t.heads →
        s.negated = t.negated ∧ s.traitRef.map (TypePath.rename ρ) = t.traitRef ∧
          s.selfTy.rename ρ = t.selfTy := by
  constructor
  · intro s f h
    refine ⟨by rw [heads_ofSignature h, List.length_map], fun i j a b hi hj differ => ?_⟩
    have collide : f.heads[i]? = f.heads[j]? ↔ Captures f.params a b ∨ Captures f.params b a := by
      rw [getElem?_heads h hi, getElem?_heads h hj, Option.some.injEq]
      refine ⟨captures_of_same_name differ, fun captured => ?_⟩
      rcases captured with captured | captured
      · exact captured.same_name (nodup_typeNames h)
      · exact (captured.same_name (nodup_typeNames h)).symm
    refine ⟨collide, fun free same => ?_⟩
    rcases collide.1 same with captured | captured
    · exact free.not_captures (List.mem_of_getElem? hj) captured
    · exact free.not_captures (List.mem_of_getElem? hi) captured
  · intro s t f g hs ht same k ρ free free'
    exact renamed_of_sameShape hs ht (Nat.le_max_left _ _) (Nat.le_max_right _ _) free free' same

/-- Names that are canonical names of other parameters are told apart and put back. -/
theorem swapped_names_put_back :
    let named (n : String) : Ty := .path (.plain n none)
    let header (a b : String) : Signature :=
      { generics := [.type a [] none, .type b [] none]
        isUnsafe := false
        negated := false
        traitRef := some (.plain "Foo" (some [.type (named b)]))
        selfTy := .tuple [named a, named "u8"]
        whereClause := none }
    ∃ f g, ofSignature (header "A" "B") = .ok f ∧ ofSignature (header "T1" "T0") = .ok g ∧
      f.sameShape g = true ∧ f.heads[1]? ≠ f.heads[2]? ∧
      (header "A" "B").selfTy.rename (.between ["A", "B"] ["T1", "T0"]) =
        (header "T1" "T0").selfTy := by
  intro named header
  let f : CanonicalForm :=
    { params := (header "A" "B").generics
      negated := false
      traitRef := some (.plain "Foo" (some [.type (named "T1")]))
      selfTy := .tuple [named "T0", named "u8"] }
  let g : CanonicalForm := { f with params := (header "T1" "T0").generics }
  have hs : ofSignature (header "A" "B") = .ok f := rfl
  have ht : ofSignature (header "T1" "T0") = .ok g := rfl
  have same : f.sameShape g = true := by decide +kernel
  have free : Uncaptured f.params 2 (header "A" "B").heads := by
    unfold Uncaptured
    decide +kernel
  have free' : Uncaptured g.params 2 (header "T1" "T0").heads := by
    unfold Uncaptured
    decide +kernel
  obtain ⟨places, shapes⟩ := names_collide_only_by_capture
  have apart := ((places _ f hs).2 1 2 "B" "A" (by decide +kernel) (by decide +kernel)
    (by decide +kernel)).2 free
  have equal := shapes _ _ f g hs ht same free free'
  exact ⟨f, g, hs, ht, same, apart, equal.2.2⟩

/-- An undeclared `T0` is taken for the first parameter, within a signature and between two. -/
theorem undeclared_name_taken_for_parameter :
    (∃ d f, Signature.ofText "impl<X> Foo for (X, T0)" = .ok d ∧ ofSignature d = .ok f ∧
      d.heads = ["Foo", "X", "T0"] ∧ f.heads = ["Foo", "T0", "T0"]) ∧
    ∃ s t f g, Signature.ofText "impl<X> Foo for X" = .ok s ∧
      Signature.ofText "impl<X> Foo for T0" = .ok t ∧ ofSignature s = .ok f ∧
      ofSignature t = .ok g ∧ f.sameShape g = true ∧
      s.selfTy.rename (.between (typeNames f.params) (typeNames g.params)) ≠ t.selfTy := by
  let header (ty : Ty) : Signature :=
    { generics := [.type "X" [] none]
      isUnsafe := false
      negated := false
      traitRef := some (.plain "Foo" none)
      selfTy := ty
      whereClause := none }
  let form (ty : Ty) : CanonicalForm :=
    { params := [.type "X" [] none]
      negated := false
      traitRef := some (.plain "Foo" none)
      selfTy := ty }
  let x : Ty := .path (.plain "X" none)
  let t0 : Ty := .path (.plain "T0" none)
  constructor
  · exact ⟨header (.tuple [x, t0]), form (.tuple [t0, t0]), rfl, rfl, by decide +kernel,
      by decide +kernel⟩
  · exact ⟨header x, header t0, form t0, form t0, rfl, rfl, rfl, rfl, by decide +kernel,
      by decide +kernel⟩

end CanonicalForm

end ImplFamilies
