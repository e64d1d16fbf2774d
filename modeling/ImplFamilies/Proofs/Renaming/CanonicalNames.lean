import ImplFamilies.Canonical.Form
import ImplFamilies.Grammar.Token
import ImplFamilies.Proofs.Renaming.Heads

/-!
Canonical names are words, a different one for each place. A canonical form has at each place the
leading segment that the signature has there, renamed.
-/

namespace ImplFamilies

open Grammar (isWordChar)

theorem toList_canonicalName (i : Nat) : (canonicalName i).toList = 'T' :: Nat.toDigits 10 i := by
  have digits : (toString i).toList = Nat.toDigits 10 i := by simp [toString]
  rw [canonicalName, String.toList_append, digits]
  rfl

theorem canonicalName_inj {i j : Nat} : canonicalName i = canonicalName j ↔ i = j := by
  refine ⟨fun same => ?_, fun same => same ▸ rfl⟩
  have digits := congrArg String.toList same
  rw [toList_canonicalName, toList_canonicalName] at digits
  rw [← @Nat.ofDigitChars_ten_toDigits i, (List.cons.inj digits).2, Nat.ofDigitChars_ten_toDigits]

theorem isWordChar_of_mem_canonicalName {i : Nat} {c : Char} (h : c ∈ (canonicalName i).toList) :
    isWordChar c = true := by
  rw [toList_canonicalName, List.mem_cons] at h
  rcases h with rfl | digit
  · decide
  · have number := Nat.isDigit_of_mem_toDigits (b := 10) (by decide) (by decide) digit
    simp [isWordChar, Char.isAlphanum, number]

/- Where the canonical names go. -/

variable {ps : List Param} {n : String} {i : Nat}

theorem whole_canonicalRenaming (ps : List Param) : (canonicalRenaming ps).Whole := by
  intro name new renamed colon
  obtain ⟨i, _, rfl⟩ := Option.map_eq_some_iff.1 renamed
  exact absurd (isWordChar_of_mem_canonicalName colon) (by decide)

theorem canonicalRenaming_of_mem (h : n ∈ Param.typeNames ps) :
    ∃ i, (Param.typeNames ps).idxOf? n = some i ∧
      (canonicalRenaming ps).apply n = canonicalName i := by
  cases place : (Param.typeNames ps).idxOf? n with
  | none => exact absurd h (List.idxOf?_eq_none_iff.1 place)
  | some i =>
    refine ⟨i, rfl, ?_⟩
    rw [Renaming.apply, canonicalRenaming, place]
    rfl

theorem canonicalRenaming_of_not_mem (h : n ∉ Param.typeNames ps) :
    (canonicalRenaming ps).apply n = n := by
  rw [Renaming.apply, canonicalRenaming, List.idxOf?_eq_none_iff.2 h]
  rfl

theorem getElem?_of_idxOf? {names : List String} (h : names.idxOf? n = some i) :
    names[i]? = some n := by
  obtain ⟨within, same, _⟩ := List.idxOf?_eq_some_iff.1 h
  rw [List.getElem?_eq_getElem within, same]

/- Traits and types together. -/

def headerHeads (path : Option TypePath) (ty : Ty) : List String :=
  path.toList.flatMap TypePath.heads ++ ty.heads

def Signature.heads (s : Signature) : List String :=
  headerHeads s.traitRef s.selfTy

def CanonicalForm.heads (f : CanonicalForm) : List String :=
  headerHeads f.traitRef f.selfTy

section Headers

variable {ρ σ τ : Renaming} {path : Option TypePath} {ty : Ty}

theorem headerHeads_rename (whole : ρ.Whole) :
    headerHeads (path.map (TypePath.rename ρ)) (ty.rename ρ) =
      (headerHeads path ty).map ρ.apply := by
  have renamed := heads_rename_compositional whole
  rw [headerHeads, headerHeads, List.map_append, renamed.ty, Option.toList_map,
    flatMap_heads_map fun p _ => renamed.typePath p]

theorem header_rename_rename (whole : ρ.Whole)
    (agree : ∀ name ∈ headerHeads path ty, σ.apply (ρ.apply name) = τ.apply name) :
    (path.map (TypePath.rename ρ)).map (TypePath.rename σ) = path.map (TypePath.rename τ) ∧
      (ty.rename ρ).rename σ = ty.rename τ := by
  have twice := rename_rename_compositional (σ := σ) (τ := τ) whole
  obtain ⟨paths, types⟩ := List.forall_mem_append.1 agree
  refine ⟨?_, twice.ty ty types⟩
  cases path with
  | none => rfl
  | some p =>
    have once := twice.typePath p (by simpa using paths)
    rw [Option.map_some, Option.map_some, once, Option.map_some]

theorem header_rename_keep (path : Option TypePath) (ty : Ty) :
    path.map (TypePath.rename .keep) = path ∧ ty.rename .keep = ty := by
  refine ⟨?_, rename_keep_compositional.ty ty⟩
  cases path with
  | none => rfl
  | some p => rw [Option.map_some, rename_keep_compositional.typePath p]

theorem header_rename_of_apply (keeps : ∀ name, ρ.apply name = name) (path : Option TypePath)
    (ty : Ty) : path.map (TypePath.rename ρ) = path ∧ ty.rename ρ = ty := by
  have whole : Renaming.keep.Whole := fun _ _ renamed => nomatch renamed
  obtain ⟨paths, types⟩ := header_rename_keep path ty
  have agree : ∀ name ∈ headerHeads path ty,
      ρ.apply (Renaming.keep.apply name) = Renaming.keep.apply name := fun name _ => keeps name
  have twice := header_rename_rename whole agree
  rwa [paths, types] at twice

end Headers

namespace CanonicalForm

variable {s : Signature} {f : CanonicalForm}

theorem ofSignature_eq_ok :
    ofSignature s = .ok f ↔ ∃ params,
      Param.constrainAll (Param.declareAll s.generics) (s.whereClause.getD []) = .ok params ∧
      f = {
        params
        negated := s.negated
        traitRef := s.traitRef.map (TypePath.rename (canonicalRenaming params))
        selfTy := s.selfTy.rename (canonicalRenaming params) } := by
  rw [ofSignature]
  cases Param.constrainAll (Param.declareAll s.generics) (s.whereClause.getD []) <;>
    simp [eq_comm]

theorem heads_ofSignature (h : ofSignature s = .ok f) :
    f.heads = s.heads.map (canonicalRenaming f.params).apply := by
  obtain ⟨params, _, rfl⟩ := ofSignature_eq_ok.1 h
  exact headerHeads_rename (whole_canonicalRenaming params)

theorem sameShape_iff {f g : CanonicalForm} :
    f.sameShape g = true ↔
      f.negated = g.negated ∧ f.traitRef = g.traitRef ∧ f.selfTy = g.selfTy := by
  simp [sameShape, and_assoc]

end CanonicalForm

end ImplFamilies
