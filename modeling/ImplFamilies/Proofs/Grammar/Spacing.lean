import ImplFamilies.Proofs.Grammar.Agreement
import ImplFamilies.Proofs.Grammar.Boundary

/-!
White space does not count. What is read from a text depends on its lexemes only, and these stay the
same when white space is put between them, taken away from between them, or written differently.
-/

namespace ImplFamilies.Grammar

open Text

/-- The second text is the first with white space put in, at places that are inside no lexeme. What
stood before the first text decides what is inside. -/
inductive Spaced : List Char → List Char → List Char → Prop
  | done {before : List Char} : Spaced before [] []
  | keep {before cs ds : List Char} {c : Char} (others : Spaced (before ++ [c]) cs ds) :
      Spaced before (c :: cs) (c :: ds)
  | put {before cs ds : List Char} {w : Char} (blank : isBlank w = true)
      (between : ¬ Inside before cs) (others : Spaced before cs ds) : Spaced before cs (w :: ds)

/-- Behind a part of what stood before, as much as a lexeme may have taken of it. -/
theorem Spaced.lexemes_behind {before cs ds part : List Char} (h : Spaced before cs ds)
    (behind : part <:+ before) : lexemes (part ++ cs) = lexemes (part ++ ds) := by
  induction h generalizing part with
  | done => rfl
  | @keep before cs ds c others ih =>
    have grown : part ++ [c] <:+ before ++ [c] := by
      obtain ⟨d, rfl⟩ := behind
      exact ⟨d, (List.append_assoc ..).symm⟩
    simpa using ih grown
  | @put before cs ds w blank between others ih =>
    have apart : ¬ Inside part cs := fun inside => between (inside.of_suffix behind)
    rw [lexemes_append_blank blank, lexemes_append apart]
    exact congrArg _ (ih List.nil_suffix)

theorem Spaced.lexemes_eq {cs ds : List Char} (h : Spaced [] cs ds) :
    lexemes cs = lexemes ds :=
  h.lexemes_behind (List.suffix_refl [])

/-- One or more characters of white space. -/
def Gap (w : String) : Prop :=
  w.toList ≠ [] ∧ ∀ c ∈ w.toList, isBlank c = true

instance (w : String) : Decidable (Gap w) :=
  @instDecidableAnd _ _ inferInstance (List.decidableBAll _ _)

theorem lexemes_append_gap {w : String} (gap : Gap w) (front back : List Char) :
    lexemes (front ++ w.toList ++ back) = lexemes front ++ lexemes back := by
  obtain ⟨some, blank⟩ := gap
  obtain ⟨c, ws, shape⟩ := List.exists_cons_of_ne_nil some
  rw [shape] at blank ⊢
  obtain ⟨first, others⟩ := List.forall_mem_cons.1 blank
  have rest : skipBlanks (ws ++ back) = skipBlanks back := List.dropWhile_append_of_pos others
  rw [List.append_assoc, List.cons_append, lexemes_append_blank first,
    ← lexemes_skipBlanks (ws ++ back), rest, lexemes_skipBlanks]

theorem read_of_lexemes {text text' : String} (same : lexemes text.toList = lexemes text'.toList) :
    (∀ d, Signature.ofText text = .ok d ↔ Signature.ofText text' = .ok d) ∧
      ∀ t, Ty.ofText text = .ok t ↔ Ty.ofText text' = .ok t :=
  ⟨fun _ => by rw [signatureOfText_iff, signatureOfText_iff, same],
    fun _ => by rw [typeOfText_iff, typeOfText_iff, same]⟩

/-- White space put between the lexemes of a text changes neither whether it is read nor the tree,
and no more does one gap in place of another, wherever it is. -/
theorem white_space_insignificant :
    (∀ text text' : String, Spaced [] text.toList text'.toList →
      (∀ d, Signature.ofText text = .ok d ↔ Signature.ofText text' = .ok d) ∧
        ∀ t, Ty.ofText text = .ok t ↔ Ty.ofText text' = .ok t) ∧
    ∀ front back gap gap' : String, Gap gap → Gap gap' →
      (∀ d, Signature.ofText (front ++ gap ++ back) = .ok d ↔
        Signature.ofText (front ++ gap' ++ back) = .ok d) ∧
      ∀ t, Ty.ofText (front ++ gap ++ back) = .ok t ↔ Ty.ofText (front ++ gap' ++ back) = .ok t := by
  refine ⟨fun text text' spaced => read_of_lexemes spaced.lexemes_eq, ?_⟩
  intro front back gap gap' first second
  refine read_of_lexemes ?_
  simp only [String.toList_append, lexemes_append_gap first, lexemes_append_gap second]

/-- White space around an ampersand, around a double colon and at the end; a line feed and a tab in
place of a space. -/
theorem spaced_reference_read :
    (∃ d, Spaced [] "impl A for&'a B::C".toList "impl A for & 'a B :: C\n".toList ∧
      Signature.ofText "impl A for&'a B::C" = .ok d ∧
      Signature.ofText "impl A for & 'a B :: C\n" = .ok d) ∧
    ∃ t, Gap " " ∧ Gap "\n\t" ∧
      Ty.ofText ("&'a" ++ " " ++ "mut B") = .ok t ∧ Ty.ofText ("&'a" ++ "\n\t" ++ "mut B") = .ok t := by
  constructor
  · have spaced : Spaced [] "impl A for&'a B::C".toList "impl A for & 'a B :: C\n".toList :=
      .keep <| .keep <| .keep <| .keep <| .keep <| .keep <| .keep <| .keep <| .keep <| .keep <|
      .put rfl (by decide) <| .keep <| .put rfl (by decide) <| .keep <| .keep <| .keep <| .keep <|
      .put rfl (by decide) <| .keep <| .keep <| .put rfl (by decide) <| .keep <|
      .put rfl (by decide) .done
    obtain ⟨d, read⟩ : ∃ d, Signature.ofText "impl A for&'a B::C" = .ok d := ⟨_, rfl⟩
    exact ⟨d, spaced, read, ((white_space_insignificant.1 _ _ spaced).1 d).1 read⟩
  · have space : Gap " " := by decide
    have feed : Gap "\n\t" := by decide
    obtain ⟨t, read⟩ : ∃ t, Ty.ofText ("&'a" ++ " " ++ "mut B") = .ok t := ⟨_, rfl⟩
    exact ⟨t, space, feed, read,
      ((white_space_insignificant.2 "&'a" "mut B" " " "\n\t" space feed).2 t).1 read⟩

end ImplFamilies.Grammar
