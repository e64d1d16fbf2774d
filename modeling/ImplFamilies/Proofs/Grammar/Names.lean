import ImplFamilies.Proofs.Grammar.Lexeme
import ImplFamilies.Signature.Tree

/-!
The names of parameters and where items: those of types are identifiers, those of lifetimes begin
with an apostrophe.
-/

namespace ImplFamilies.Grammar

/-- A word, or three dots in its place. -/
def IsIdentifier (name : String) : Prop :=
  (Lexeme.word name).Formed ∨ name = "..."

abbrev IsLifetime (name : String) : Prop :=
  (Lexeme.lifetime name).Formed

def WellNamed : Param → Prop
  | .lifetime name _ => (Lexeme.lifetime name).Formed
  | .type name _ _ => IsIdentifier name

theorem isWordChar_apostrophe : isWordChar '\'' = false := rfl

theorem IsIdentifier.not_lifetime {name : String} (h : IsIdentifier name) :
    ¬ (Lexeme.lifetime name).Formed := by
  rintro ⟨rest, chars, _⟩
  rcases h with word | rfl
  · have first := word.2 '\'' (by rw [chars]; exact List.mem_cons_self)
    rw [isWordChar_apostrophe] at first
    cases first
  · exact absurd (List.cons.inj chars).1 (by decide)

theorem IsIdentifier.no_colon {name : String} (h : IsIdentifier name) : ':' ∉ name.toList := by
  rcases h with word | rfl
  · exact fun colon => absurd (word.2 ':' colon) (by decide)
  · decide

end ImplFamilies.Grammar
