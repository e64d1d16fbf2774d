import ImplFamilies.Proofs.Canonical.Declared
import ImplFamilies.Proofs.Grammar.WellFormed
import ImplFamilies.Proofs.Renaming.CanonicalNames

/-!
Canonical forms do not show the names that were chosen for type parameters. With other names for
them, all put in at once, a signature has a canonical form exactly when it had one before, and of
the same shape; names may be exchanged, and may be canonical names of other parameters.
-/

namespace ImplFamilies

open Param (typeNames declareAll constrainAll label)

def Renaming.of (names : List String) (σ : String → String) : Renaming := fun n =>
  if n ∈ names then some (σ n) else none

/-- With other names for type parameters, in bounds and defaults as well. -/
def Param.renamed (ρ : Renaming) : Param → Param
  | .lifetime name bounds => .lifetime name bounds
  | .type name bounds default =>
      .type (ρ.apply name) (bounds.map (Bound.rename ρ)) (default.map (Ty.rename ρ))

namespace Signature

def renamed (ρ : Renaming) (s : Signature) : Signature :=
  { s with
    generics := s.generics.map (Param.renamed ρ)
    traitRef := s.traitRef.map (TypePath.rename ρ)
    selfTy := s.selfTy.rename ρ
    whereClause := s.whereClause.map (List.map (Param.renamed ρ)) }

def items (s : Signature) : List Param :=
  s.whereClause.getD []

def mentioned (s : Signature) : List String :=
  (s.generics ++ s.items).map Param.name ++ s.heads

end Signature

structure RenamesParameters (ρ : Renaming) (s : Signature) : Prop where
  whole : ρ.Whole
  apart : ∀ m ∈ s.mentioned, ∀ n ∈ s.mentioned, ρ.apply m = ρ.apply n → m = n
  others : ∀ n ∈ s.mentioned, n ∉ typeNames (declareAll s.generics) → ρ.apply n = n
  lifetimes : ∀ p ∈ s.generics ++ s.items, p.isLifetime = true → ρ.apply p.name = p.name

theorem typeNames_renamed (ρ : Renaming) (ps : List Param) :
    typeNames (ps.map (Param.renamed ρ)) = (typeNames ps).map ρ.apply := by
  induction ps with
  | nil => rfl
  | cons p ps ih =>
    cases p with
    | lifetime name bounds => exact ih
    | type name bounds default => exact congrArg (ρ.apply name :: ·) ih

theorem idxOf?_map_of_apart {names : List String} {n : String} {f : String → String}
    (apart : ∀ m ∈ names, f m = f n → m = n) : (names.map f).idxOf? (f n) = names.idxOf? n := by
  induction names with
  | nil => rfl
  | cons m names ih =>
    obtain ⟨first, rest⟩ := List.forall_mem_cons.1 apart
    rw [List.map_cons, List.idxOf?_cons, List.idxOf?_cons, ih rest]
    by_cases same : m = n
    · rw [same]
      simp
    · have differ : f m ≠ f n := fun equal => same (first equal)
      simp [same, differ]

/-- The canonical names go to the same places under the old names and the new. -/
theorem canonicalRenaming_renamed {ρ : Renaming} {ps qs : List Param} {n : String}
    (names : typeNames qs = (typeNames ps).map ρ.apply)
    (apart : ∀ m ∈ typeNames ps, ρ.apply m = ρ.apply n → m = n)
    (other : n ∉ typeNames ps → ρ.apply n = n) :
    (canonicalRenaming qs).apply (ρ.apply n) = (canonicalRenaming ps).apply n := by
  have place := idxOf?_map_of_apart apart
  rw [Renaming.apply, canonicalRenaming, names, place]
  by_cases declared : n ∈ typeNames ps
  · obtain ⟨i, found, renamed⟩ := canonicalRenaming_of_mem declared
    rw [renamed, found]
    rfl
  · rw [canonicalRenaming_of_not_mem declared, List.idxOf?_eq_none_iff.2 declared]
    exact other declared

namespace RenamesParameters

variable {ρ : Renaming} {s : Signature} (h : RenamesParameters ρ s)
include h

theorem label_renamed {p : Param} (mem : p ∈ s.generics ++ s.items) :
    (p.renamed ρ).label = (ρ.apply p.name, p.isLifetime) := by
  cases p with
  | lifetime name bounds => exact Prod.ext (h.lifetimes _ mem rfl).symm rfl
  | type name bounds default => rfl

theorem apart_params {p q : Param} (hp : p ∈ s.generics ++ s.items)
    (hq : q ∈ s.generics ++ s.items) (same : ρ.apply p.name = ρ.apply q.name) :
    p.name = q.name :=
  h.apart _ (List.mem_append_left _ (List.mem_map_of_mem hp)) _
    (List.mem_append_left _ (List.mem_map_of_mem hq)) same

theorem declareAll_renamed :
    declareAll (s.generics.map (Param.renamed ρ)) =
      (declareAll s.generics).map (Param.renamed ρ) := by
  refine Param.declareAll_map fun q hq p hp => ?_
  have listed {r : Param} (mem : r ∈ s.generics) : r ∈ s.generics ++ s.items :=
    List.mem_append_left _ mem
  have named := congrArg Prod.fst (h.label_renamed (listed hq))
  have named' := congrArg Prod.fst (h.label_renamed (listed hp))
  simp only [label] at named named'
  rw [named, named']
  exact ⟨h.apart_params (listed hq) (listed hp), fun same => same ▸ rfl⟩

theorem label_mem_iff {item : Param} (mem : item ∈ s.items) :
    (item.renamed ρ).label ∈ ((declareAll s.generics).map (Param.renamed ρ)).map label ↔
      item.label ∈ (declareAll s.generics).map label := by
  have listed := List.mem_append_right s.generics mem
  have declared {p : Param} (hp : p ∈ declareAll s.generics) : p ∈ s.generics ++ s.items :=
    List.mem_append_left _ (Param.mem_of_mem_declareAll hp)
  rw [List.map_map, List.mem_map, List.mem_map, h.label_renamed listed]
  refine exists_congr fun p => and_congr_right fun hp => ?_
  rw [Function.comp_apply, h.label_renamed (declared hp), Prod.ext_iff, label, label, Prod.ext_iff]
  refine and_congr_left fun _ => ⟨h.apart_params (declared hp) listed, fun same => ?_⟩
  exact congrArg ρ.apply same

theorem fits_iff :
    (∃ qs, constrainAll (declareAll (s.renamed ρ).generics) (s.renamed ρ).items = .ok qs) ↔
      ∃ ps, constrainAll (declareAll s.generics) s.items = .ok ps := by
  have items : (s.renamed ρ).items = s.items.map (Param.renamed ρ) := by
    unfold Signature.items Signature.renamed
    cases s.whereClause <;> rfl
  rw [Param.constrainAll_declareAll_iff, Param.constrainAll_declareAll_iff, items,
    List.forall_mem_map]
  refine forall₂_congr fun item mem => ?_
  rw [Signature.renamed, h.declareAll_renamed]
  exact h.label_mem_iff mem

theorem typeNames_of_fits {ps qs : List Param}
    (fits : constrainAll (declareAll s.generics) s.items = .ok ps)
    (fits' : constrainAll (declareAll (s.renamed ρ).generics) (s.renamed ρ).items = .ok qs) :
    typeNames qs = (typeNames ps).map ρ.apply := by
  rw [Param.typeNames_constrainAll fits', Param.typeNames_constrainAll fits, Signature.renamed,
    h.declareAll_renamed, typeNames_renamed]

theorem isOk_iff :
    (∃ g, CanonicalForm.ofSignature (s.renamed ρ) = .ok g) ↔
      ∃ f, CanonicalForm.ofSignature s = .ok f := by
  have formed (t : Signature) : (∃ f, CanonicalForm.ofSignature t = .ok f) ↔
      ∃ ps, constrainAll (declareAll t.generics) t.items = .ok ps :=
    ⟨fun ⟨_, ok⟩ => (CanonicalForm.ofSignature_eq_ok.1 ok).imp fun _ found => found.1,
      fun ⟨_, fits⟩ => ⟨_, CanonicalForm.ofSignature_eq_ok.2 ⟨_, fits, rfl⟩⟩⟩
  rw [formed, formed]
  exact h.fits_iff

theorem sameShape {f g : CanonicalForm} (ok : CanonicalForm.ofSignature s = .ok f)
    (ok' : CanonicalForm.ofSignature (s.renamed ρ) = .ok g) : f.sameShape g = true := by
  obtain ⟨ps, fits, rfl⟩ := CanonicalForm.ofSignature_eq_ok.1 ok
  obtain ⟨qs, fits', rfl⟩ := CanonicalForm.ofSignature_eq_ok.1 ok'
  have names := h.typeNames_of_fits fits fits'
  have declared := Param.typeNames_constrainAll fits
  have mentioned {m : String} (mem : m ∈ typeNames ps) : m ∈ s.mentioned := by
    rw [declared, Param.mem_typeNames] at mem
    obtain ⟨p, hp, same⟩ := List.mem_map.1 mem
    have listed := List.mem_append_left s.items (Param.mem_of_mem_declareAll hp)
    exact List.mem_append_left _ (List.mem_map.2 ⟨p, listed, (Prod.mk.inj same).1⟩)
  have agree : ∀ n ∈ headerHeads s.traitRef s.selfTy,
      (canonicalRenaming qs).apply (ρ.apply n) = (canonicalRenaming ps).apply n := by
    intro n mem
    have here : n ∈ s.mentioned := List.mem_append_right _ mem
    refine canonicalRenaming_renamed names (fun m hm => h.apart m (mentioned hm) n here) ?_
    exact fun other => h.others n here (declared ▸ other)
  obtain ⟨path, type⟩ := header_rename_rename h.whole agree
  exact CanonicalForm.sameShape_iff.2 ⟨rfl, path.symm, type.symm⟩

end RenamesParameters

/- Signatures read from a text, where names of types are no names of lifetimes. -/

open Grammar (IsIdentifier WellNamed)

section Parsed

variable {ps : List Param} (named : ∀ p ∈ ps, WellNamed p)
include named

theorem identifier_of_mem_typeNames {n : String} (h : n ∈ typeNames ps) : IsIdentifier n := by
  obtain ⟨p, mem, same⟩ := List.mem_map.1 (Param.mem_typeNames.1 h)
  have wellNamed := named p mem
  cases p with
  | lifetime name bounds => exact nomatch (Prod.mk.inj same).2
  | type name bounds default =>
    obtain rfl : name = n := (Prod.mk.inj same).1
    exact wellNamed

theorem mem_typeNames_declareAll {n : String} (h : n ∈ typeNames ps) :
    n ∈ typeNames (declareAll ps) := by
  obtain ⟨p, mem, same⟩ := List.mem_map.1 (Param.mem_typeNames.1 h)
  have known := Param.mem_names_declareAll.2 (List.mem_map.2 ⟨p, mem, (Prod.mk.inj same).1⟩)
  obtain ⟨q, declared, rfl⟩ := List.mem_map.1 known
  refine Param.mem_typeNames.2 (List.mem_map.2 ⟨q, declared, ?_⟩)
  have wellNamed := named q (Param.mem_of_mem_declareAll declared)
  cases q with
  | lifetime name bounds =>
    exact absurd wellNamed (identifier_of_mem_typeNames named h).not_lifetime
  | type name bounds default => rfl

end Parsed

theorem renamesParameters_of_fresh {d : Signature} {σ : String → String}
    (named : ∀ p ∈ d.generics ++ d.items, WellNamed p)
    (injective : ∀ m ∈ typeNames d.generics, ∀ n ∈ typeNames d.generics, σ m = σ n → m = n)
    (identifiers : ∀ n ∈ typeNames d.generics, IsIdentifier (σ n))
    (fresh : ∀ n ∈ typeNames d.generics,
      σ n ∈ typeNames d.generics ∨ σ n ∉ d.mentioned) :
    RenamesParameters (.of (typeNames d.generics) σ) d := by
  have named_generics : ∀ p ∈ d.generics, WellNamed p := (List.forall_mem_append.1 named).1
  have of_mem {n : String} (h : n ∈ typeNames d.generics) :
      (Renaming.of (typeNames d.generics) σ).apply n = σ n := by
    rw [Renaming.apply, Renaming.of, if_pos h]
    rfl
  have of_not_mem {n : String} (h : n ∉ typeNames d.generics) :
      (Renaming.of (typeNames d.generics) σ).apply n = n := by
    rw [Renaming.apply, Renaming.of, if_neg h]
    rfl
  have no_clash {m n : String} (hm : m ∈ typeNames d.generics) (hn : n ∉ typeNames d.generics)
      (here : n ∈ d.mentioned) : σ m ≠ n := by
    rintro rfl
    rcases fresh m hm with known | new
    · exact hn known
    · exact new here
  refine ⟨?_, ?_, ?_, ?_⟩
  · intro name new renamed
    rw [Renaming.of] at renamed
    split at renamed
    · rename_i declared
      obtain rfl := Option.some.inj renamed
      exact (identifiers name declared).no_colon
    · cases renamed
  · intro m hm n hn same
    by_cases declared : m ∈ typeNames d.generics <;>
      by_cases declared' : n ∈ typeNames d.generics
    · rw [of_mem declared, of_mem declared'] at same
      exact injective m declared n declared' same
    · rw [of_mem declared, of_not_mem declared'] at same
      exact absurd same (no_clash declared declared' hn)
    · rw [of_not_mem declared, of_mem declared'] at same
      exact absurd same.symm (no_clash declared' declared hm)
    · rwa [of_not_mem declared, of_not_mem declared'] at same
  · exact fun n _ undeclared =>
      of_not_mem fun declared => undeclared (mem_typeNames_declareAll named_generics declared)
  · intro p mem lifetime
    refine of_not_mem fun declared => ?_
    have wellNamed := named p mem
    cases p with
    | lifetime name bounds =>
      exact (identifier_of_mem_typeNames named_generics declared).not_lifetime wellNamed
    | type name bounds default => cases lifetime

/-- Other names for the type parameters of a signature that is read from a text, all at once and
each of them a name of a type parameter or a new one, change neither whether there is a canonical
form nor its trait and type. -/
theorem canonical_form_shows_no_parameter_names {text : String} {d : Signature}
    {σ : String → String} (parsed : Signature.ofText text = .ok d)
    (injective : ∀ m ∈ typeNames d.generics, ∀ n ∈ typeNames d.generics, σ m = σ n → m = n)
    (identifiers : ∀ n ∈ typeNames d.generics, IsIdentifier (σ n))
    (fresh : ∀ n ∈ typeNames d.generics, σ n ∈ typeNames d.generics ∨ σ n ∉ d.mentioned) :
    let d' := d.renamed (.of (typeNames d.generics) σ)
    ((∃ v, CanonicalForm.ofSignature d' = .error v) ↔
      ∃ v, CanonicalForm.ofSignature d = .error v) ∧
    ∀ f g, CanonicalForm.ofSignature d = .ok f → CanonicalForm.ofSignature d' = .ok g →
      f.sameShape g = true := by
  intro d'
  have renames := renamesParameters_of_fresh (Grammar.wellNamed_of_parsed parsed) injective
    identifiers fresh
  have ok := renames.isOk_iff
  refine ⟨?_, fun f g formed formed' => renames.sameShape formed formed'⟩
  cases old : CanonicalForm.ofSignature d <;> cases new : CanonicalForm.ofSignature d' <;>
    simp [d', old, new] at ok ⊢

/-- Two names exchanged, one of them declared twice and one bounded in the where clause too. -/
theorem exchanged_names_not_shown :
    let text := "impl<T1, 'a, T0: A<T1>, T1> B<T0> for &'a T1 where T0: T1::C"
    let exchanged (n : String) : String := if n = "T1" then "T0" else "T1"
    ∃ d f g, Signature.ofText text = .ok d ∧ typeNames d.generics = ["T1", "T0", "T1"] ∧
      CanonicalForm.ofSignature d = .ok f ∧
      CanonicalForm.ofSignature (d.renamed (.of ["T1", "T0", "T1"] exchanged)) = .ok g ∧
      f.sameShape g = true := by
  intro text exchanged
  let named (n : String) : Ty := .path (.plain n none)
  let bound (n : String) (args : Option (List Arg)) : Bound := .trait (.mk false (.plain n args))
  let d : Signature :=
    { generics := [.type "T1" [] none, .lifetime "'a" [],
        .type "T0" [bound "A" (some [.type (named "T1")])] none, .type "T1" [] none]
      isUnsafe := false
      negated := false
      traitRef := some (.plain "B" (some [.type (named "T0")]))
      selfTy := .reference (some "'a") false (named "T1")
      whereClause := some [.type "T0" [bound "T1::C" none] none] }
  have parsed : Signature.ofText text = .ok d := by decide +kernel
  have identifiers : ∀ n ∈ typeNames d.generics, IsIdentifier (exchanged n) := by
    have chars : ∀ n ∈ ["T0", "T1"], n.toList ≠ [] ∧ n.toList.all Grammar.isWordChar = true := by
      decide
    have words : ∀ n ∈ ["T0", "T1"], (Grammar.Lexeme.word n).Formed :=
      fun n mem => Grammar.Lexeme.formed_word (chars n mem).1 (chars n mem).2
    intro n _
    by_cases first : n = "T1"
    · exact .inl (words _ (by simp [exchanged, first]))
    · exact .inl (words _ (by simp [exchanged, first]))
  obtain ⟨_, same⟩ := canonical_form_shows_no_parameter_names (σ := exchanged) parsed
    (by decide +kernel) identifiers (by decide +kernel)
  exact ⟨d, _, _, parsed, by decide +kernel, rfl, rfl, same _ _ rfl rfl⟩

end ImplFamilies
