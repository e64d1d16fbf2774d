import ImplFamilies.Proofs.Grammar.Boundary
import ImplFamilies.Proofs.Grammar.RenamedSignatures

/-!
The two readers of texts, that of types and that of signatures. A text is a type exactly if it can
stand for the type of an implementation of a trait, and it is the same type there: what stands in
front of it is read without a look at it, and nothing of it is left for a where clause.
-/

namespace ImplFamilies

namespace Grammar.Reader

variable {full : Reader Ty} {ts rest : List Lexeme} {name : String} {d : Signature}

theorem typePath_named (unmodified : isModifier (.word name) = false) (next : String) :
    typePath full (.word name :: .word next :: ts) =
      some (.plain name none, .word next :: ts) := by
  have named : segments (.word name :: .word next :: ts) = some (name, .word next :: ts) :=
    segments_of_word name rfl
  have whole : (Lexeme.word name :: .word next :: ts).dropWhile isModifier =
      .word name :: .word next :: ts := by
    rw [List.dropWhile_cons, unmodified]
    rfl
  have uncalled : callPath full (.word name :: .word next :: ts) = none := by
    refine callPath_eq_none_of_uncalled fun text after spelled => ?_
    rw [whole, named] at spelled
    obtain ⟨_, rfl⟩ := Prod.mk.inj (Option.some.inj spelled)
    rfl
  refine orElse_next uncalled (map_eq_some.2 ⟨_, andThen_eq_some.2 ⟨_, named, ?_⟩, rfl⟩)
  exact optional_eq_some.2 (.inr ⟨rfl, rfl, rfl⟩)

/-- What is read of an implementation of a trait that is a word: the type behind the word `for`, and
perhaps a where clause behind that. -/
theorem implementation_named_iff (unmodified : isModifier (.word name) = false)
    (trait : d.traitRef ≠ none) :
    implementation full (.word "impl" :: .word name :: .word "for" :: ts) = some (d, rest) ↔
      ∃ t after clause, full ts = some (t, after) ∧
        optional (whereClause full) after = some (clause, rest) ∧
        d = {
          generics := []
          isUnsafe := false
          negated := false
          traitRef := some (.plain name none)
          selfTy := t
          whereClause := clause } := by
  have opening : ((optional (keyword "unsafe")).keepLeft (keyword "impl"))
      (.word "impl" :: .word name :: .word "for" :: ts) =
        some (none, .word name :: .word "for" :: ts) := rfl
  have bare : optional (generics full) (.word name :: .word "for" :: ts) =
      some (none, .word name :: .word "for" :: ts) := rfl
  have positive : optional (mark "!") (.word name :: .word "for" :: ts) =
      some (none, .word name :: .word "for" :: ts) := rfl
  have path : typePath full (.word name :: .word "for" :: ts) =
      some (.plain name none, .word "for" :: ts) := typePath_named unmodified "for"
  constructor
  · intro read
    rcases orElse_eq_some.1 read with read | ⟨_, read⟩
    · obtain ⟨_, _, params, typed, negation, named, p, self, t, after, clause, opening', listed,
        negated, path', type, «where», rfl⟩ := traitSignature_eq_some.1 read
      obtain ⟨rfl, rfl⟩ := Prod.mk.inj (Option.some.inj (opening.symm.trans opening'))
      obtain ⟨rfl, rfl⟩ := Prod.mk.inj (Option.some.inj (bare.symm.trans listed))
      obtain ⟨rfl, rfl⟩ := Prod.mk.inj (Option.some.inj (positive.symm.trans negated))
      obtain ⟨rfl, same⟩ := Prod.mk.inj (Option.some.inj (path.symm.trans path'))
      obtain ⟨-, rfl⟩ := List.cons.inj same
      exact ⟨t, after, clause, type, «where», rfl⟩
    · obtain ⟨_, _, _, _, _, _, _, _, _, _, rfl⟩ := inherentSignature_eq_some.1 read
      exact absurd rfl trait
  · rintro ⟨t, after, clause, type, «where», rfl⟩
    exact orElse_first (traitSignature_eq_some.2 ⟨none, _, none, _, none, _, _, ts, t, after,
      clause, opening, bare, positive, path, type, «where», rfl⟩)

end Grammar.Reader

open Grammar Grammar.Reader

/-- A text is read as a type exactly if it is read as the type of an implementation of `X`. -/
theorem type_read_iff_implemented (s : String) (t : Ty) :
    Ty.ofText s = .ok t ↔ Signature.ofText ("impl X for " ++ s) = .ok
      { generics := []
        isUnsafe := false
        negated := false
        traitRef := some (.plain "X" none)
        selfTy := t
        whereClause := none } := by
  have header : lexemes ("impl X for " ++ s).toList =
      .word "impl" :: .word "X" :: .word "for" :: lexemes s.toList := by
    have front : ("impl X for " ++ s).toList = "impl X for".toList ++ ' ' :: s.toList := by
      rw [String.toList_append]
      rfl
    rw [front, lexemes_append_blank (by decide)]
    rfl
  rw [typeOfText_iff, signatureOfText_iff, header,
    implementation_named_iff (by decide) (Option.some_ne_none _)]
  constructor
  · intro type
    exact ⟨t, [], none, type, rfl, rfl⟩
  · rintro ⟨t', after, clause, type, «where», same⟩
    obtain ⟨rfl, rfl⟩ : t = t' ∧ none = clause := by simpa using same
    rcases optional_eq_some.1 «where» with ⟨_, absent, _⟩ | ⟨_, _, rfl⟩
    · cases absent
    · exact type

end ImplFamilies
