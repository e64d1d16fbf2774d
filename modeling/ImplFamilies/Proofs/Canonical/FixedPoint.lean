import ImplFamilies.Listing.GroupTree
import ImplFamilies.Proofs.Canonical.Declared
import ImplFamilies.Proofs.Grammar.RenamedSignatures
import ImplFamilies.Proofs.Renaming.CanonicalNames

/-!
A canonical form written out as a signature, with its type parameters under their canonical names
and nothing said about them, is read again and has the same canonical trait and type.
-/

namespace ImplFamilies

open Grammar (Lexeme NotKeyword lexemes keywords)
open Grammar.Reader (AllFormed Words bareParams bareSignature implementation readTy)

def canonicalNames (count : Nat) : List String :=
  (List.range count).map canonicalName

namespace CanonicalForm

def canonicalGenerics (count : Nat) : String :=
  if count = 0 then "" else "<" ++ ", ".intercalate (canonicalNames count) ++ ">"

/-- The listed header of the form as that of an implementation. -/
def canonicalText (f : CanonicalForm) : String :=
  "impl" ++ canonicalGenerics (Param.typeNames f.params).length ++ " " ++ Group.headerOf f

end CanonicalForm

/- Canonical names as lexemes. -/

theorem canonicalName_formed (i : Nat) : (Lexeme.word (canonicalName i)).Formed := by
  refine ⟨?_, fun c mem => isWordChar_of_mem_canonicalName mem⟩
  rw [toList_canonicalName]
  exact List.cons_ne_nil _ _

theorem canonicalName_notKeyword (i : Nat) : NotKeyword (canonicalName i) := by
  intro reserved
  have first : (canonicalName i).toList.head? = some 'T' := by rw [toList_canonicalName]; rfl
  exact (by decide : ∀ keyword ∈ keywords, keyword.toList.head? ≠ some 'T') _ reserved first

theorem canonicalNames_formed {count : Nat} {name : String} (h : name ∈ canonicalNames count) :
    (Lexeme.word name).Formed := by
  obtain ⟨i, _, rfl⟩ := List.mem_map.1 h
  exact canonicalName_formed i

theorem words_canonicalRenaming (ps : List Param) : Words (canonicalRenaming ps) := by
  intro name new renamed
  obtain ⟨i, _, rfl⟩ := Option.map_eq_some_iff.1 renamed
  exact ⟨canonicalName_notKeyword i, canonicalName_formed i⟩

/- Parameters under their canonical names. -/

section Parameters

variable {count : Nat} {ps : List Param}

theorem nodup_canonicalNames (count : Nat) : (canonicalNames count).Nodup :=
  List.pairwise_map.2 (List.nodup_range.imp fun other same => other (canonicalName_inj.1 same))

theorem names_bareParams (names : List String) : (bareParams names).map Param.name = names := by
  rw [bareParams, List.map_map]
  exact List.map_id names

theorem typeNames_bareParams (names : List String) :
    Param.typeNames (bareParams names) = names := by
  have all : (bareParams names).filter (fun p => !p.isLifetime) = bareParams names :=
    List.filter_eq_self.2 fun p mem => by
      obtain ⟨name, _, rfl⟩ := List.mem_map.1 mem
      rfl
  rw [Param.typeNames, all, names_bareParams]

theorem canonicalRenaming_apply (h : Param.typeNames ps = canonicalNames count) (name : String) :
    (canonicalRenaming ps).apply name = name := by
  by_cases declared : name ∈ Param.typeNames ps
  · obtain ⟨i, place, renamed⟩ := canonicalRenaming_of_mem declared
    have found := getElem?_of_idxOf? place
    rw [h, canonicalNames, List.getElem?_map] at found
    obtain ⟨j, there, rfl⟩ := Option.map_eq_some_iff.1 found
    obtain ⟨within, same⟩ := List.getElem?_eq_some_iff.1 there
    rw [renamed, ← same, List.getElem_range]
  · exact canonicalRenaming_of_not_mem declared

end Parameters

/- The text. -/

theorem spell_bareParams (names : List String) :
    (bareParams names).map Param.spell = names.map String.toList := by
  simp [bareParams, Param.spell, Param.spellBounds]

theorem toList_canonicalGenerics (count : Nat) :
    (CanonicalForm.canonicalGenerics count).toList =
      Signature.spellGenerics (bareParams (canonicalNames count)) := by
  cases count with
  | zero => rfl
  | succ count =>
    have spelled := spell_bareParams (canonicalNames (count + 1))
    have some : (CanonicalForm.canonicalGenerics (count + 1)).toList =
        ['<'] ++ Text.joined ", " ((canonicalNames (count + 1)).map String.toList) ++ ['>'] := by
      simp [CanonicalForm.canonicalGenerics, Text.joined]
    rw [some, ← spelled]
    cases listed : bareParams (canonicalNames (count + 1)) with
    | nil => simp [bareParams, canonicalNames, List.range_succ_eq_map] at listed
    | cons p ps => rfl

namespace CanonicalForm

variable {d : Signature} {f : CanonicalForm}

theorem render_bareSignature (formed : ofSignature d = .ok f) :
    (bareSignature (canonicalRenaming f.params)
      (canonicalNames (Param.typeNames f.params).length) d).render = f.canonicalText := by
  obtain ⟨params, _, rfl⟩ := ofSignature_eq_ok.1 formed
  refine String.toList_inj.1 ?_
  rw [Signature.render, String.toList_ofList, canonicalText]
  cases trait : d.traitRef with
  | none =>
    simp [bareSignature, Signature.spell, Group.headerOf, trait, toList_canonicalGenerics,
      Ty.render]
  | some p =>
    have sign : (if d.negated then "!" else "").toList = if d.negated then ['!'] else [] := by
      cases d.negated <;> rfl
    simp [bareSignature, Signature.spell, Group.headerOf, header, trait, toList_canonicalGenerics,
      Ty.render, TypePath.render, sign]

/-- Under their canonical names the parameters keep them. -/
theorem ofSignature_bareSignature (ρ : Renaming) (count : Nat) (d : Signature) :
    ofSignature (bareSignature ρ (canonicalNames count) d) = .ok {
      params := bareParams (canonicalNames count)
      negated := d.negated
      traitRef := d.traitRef.map (TypePath.rename ρ)
      selfTy := d.selfTy.rename ρ } := by
  have distinct : ((bareParams (canonicalNames count)).map Param.name).Nodup := by
    rw [names_bareParams]
    exact nodup_canonicalNames count
  obtain ⟨trait, type⟩ := header_rename_of_apply
    (canonicalRenaming_apply (typeNames_bareParams (canonicalNames count)))
    (d.traitRef.map (TypePath.rename ρ)) (d.selfTy.rename ρ)
  refine ofSignature_eq_ok.2 ⟨_, rfl, ?_⟩
  rw [bareSignature, Param.declareAll_of_nodup distinct, trait, type]

end CanonicalForm

/-- What is read from lexemes as they come out of a text is read from its canonical text. -/
theorem read_from_rendered {us : List Lexeme} {e : Signature} (formed : AllFormed us)
    (read : implementation (readTy .full) us = some (e, [])) :
    Signature.ofText e.render = .ok e := by
  obtain ⟨vs, same, alike⟩ := Grammar.respelled_signature (readTy .full)
    (Grammar.Reader.implementation_sound read) formed
  rw [← same] at read
  apply Grammar.signatureOfText_iff.2
  rw [Signature.render, String.toList_ofList]
  have related (k : Nat) := Grammar.Reader.related_implementation
    (Grammar.Reader.nested_readTy_self (L := .reprinted) k .full)
  exact Grammar.read_again related alike read

/-- The canonical header of a signature that is read from a text, written as an implementation for
as many parameters, is read and has the same canonical form but for the parameters. -/
theorem canonical_header_is_fixed_point {text : String} {d : Signature} {f : CanonicalForm}
    (parsed : Signature.ofText text = .ok d) (formed : CanonicalForm.ofSignature d = .ok f) :
    ∃ e g, Signature.ofText f.canonicalText = .ok e ∧ CanonicalForm.ofSignature e = .ok g ∧
      g.negated = f.negated ∧ g.traitRef = f.traitRef ∧ g.selfTy = f.selfTy := by
  let count := (Param.typeNames f.params).length
  have lexed : AllFormed (lexemes text.toList) := fun _ mem => Grammar.formed_of_mem_lexemes mem
  have names : ∀ name ∈ canonicalNames count, (Lexeme.word name).Formed :=
    fun _ mem => canonicalNames_formed mem
  obtain ⟨us, us_formed, read⟩ := Grammar.Reader.implementation_renamed
    (words_canonicalRenaming f.params) names lexed (Grammar.signatureOfText_iff.1 parsed)
  have reread := read_from_rendered us_formed read
  rw [CanonicalForm.render_bareSignature formed] at reread
  refine ⟨_, _, reread, CanonicalForm.ofSignature_bareSignature _ count d, ?_⟩
  obtain ⟨params, _, rfl⟩ := CanonicalForm.ofSignature_eq_ok.1 formed
  exact ⟨rfl, rfl, rfl⟩

/-- Parameters called like keywords, one of them in front of further segments and the other as the
type; a modifier that is no parameter stays a name. -/
theorem keyword_parameters_at_fixed_point :
    let text := "unsafe impl<'a, for, dyn> !A<dyn::B, unsafe, 'a> for for where dyn: C"
    ∃ d f, Signature.ofText text = .ok d ∧ CanonicalForm.ofSignature d = .ok f ∧
      f.canonicalText = "impl<T0, T1> !A<T1::B, unsafe, 'a> for T0" ∧
      ∃ e g, Signature.ofText f.canonicalText = .ok e ∧ CanonicalForm.ofSignature e = .ok g ∧
        g.negated = f.negated ∧ g.traitRef = f.traitRef ∧ g.selfTy = f.selfTy := by
  intro text
  let named (n : String) : Ty := .path (.plain n none)
  let bound : Bound := .trait (.mk false (.plain "C" none))
  let d : Signature :=
    { generics := [.lifetime "'a" [], .type "for" [] none, .type "dyn" [] none]
      isUnsafe := true
      negated := true
      traitRef := some (.plain "A" (some [.type (named "dyn::B"), .type (named "unsafe"),
        .lifetime "'a"]))
      selfTy := named "for"
      whereClause := some [.type "dyn" [bound] none] }
  have parsed : Signature.ofText text = .ok d := by decide +kernel
  have formed : CanonicalForm.ofSignature d = .ok _ := rfl
  exact ⟨d, _, parsed, formed, by decide +kernel, canonical_header_is_fixed_point parsed formed⟩

end ImplFamilies
