import ImplFamilies.Listing.Reprint
import ImplFamilies.Proofs.Canonical.FixedPoint
import ImplFamilies.Proofs.Grammar.Spacing
import ImplFamilies.Proofs.Grammar.WellFormed
import ImplFamilies.Proofs.Signature.Spelling
import ImplFamilies.Proofs.Text.Lines

/-!
Reprinted signatures are reprinted as they are. Written one a line, canonical texts come back as the
lines of a text, each of them is read with the tree it is the text of, and has itself as canonical
text again.
-/

namespace ImplFamilies

open Text

/-- The canonical text of what is read fills a line, unless comments open like signatures. -/
theorem fillsLine_of_parsed {mark text : String} {d : Signature}
    (parsed : Signature.ofText text = .ok d)
    (apart : ∀ c ∈ mark.toList.head?, c ≠ 'i' ∧ c ≠ 'u') : FillsLine mark d.render := by
  have spelled : d.render.toList = d.spell := String.toList_ofList
  refine ⟨?_, if d.isUnsafe then 'u' else 'i', ?_, ?_, ?_⟩
  · rw [spelled]
    exact (Grammar.wellFormed_of_parsed parsed).spellable.unbroken
  · rw [spelled, d.head?_spell]
  · cases d.isUnsafe <;> rfl
  · intro same
    obtain ⟨implMark, unsafeMark⟩ := apart _ same
    cases mark : d.isUnsafe
    · exact implMark (by rw [mark]; rfl)
    · exact unsafeMark (by rw [mark]; rfl)

/-- An empty where clause leaves a space at the end of a canonical text; it is read without it. -/
theorem read_from_trimmed {text : String} {d : Signature} (parsed : Signature.ofText text = .ok d) :
    Signature.ofText (String.ofList (trim d.render.toList)) = .ok d := by
  have reread : Signature.ofText d.render = .ok d :=
    read_from_rendered (Grammar.Reader.allFormed_lexemes _) (Grammar.signatureOfText_iff.1 parsed)
  have same : Grammar.lexemes (String.ofList (trim d.render.toList)).toList =
      Grammar.lexemes d.render.toList := by
    rw [String.toList_ofList, Grammar.lexemes_trim]
  exact ((Grammar.read_of_lexemes same).1 d).2 reread

namespace Reprint

def canonicalForms (source : String) (texts : List String) : List String :=
  (ofTexts source texts).filterMap canonical?

theorem ofText_eq_canonical {source text form : String} {place : Nat} :
    ofText source place text = .canonical form ↔
      ∃ d, Signature.ofText text = .ok d ∧ d.render = form := by
  unfold ofText
  cases Signature.ofText text <;> simp

theorem canonical?_eq_some {outcome : Reprint} {form : String} :
    outcome.canonical? = some form ↔ outcome = .canonical form := by
  cases outcome <;> simp [canonical?]

theorem parsed_of_mem_canonicalForms {source form : String} {texts : List String}
    (mem : form ∈ canonicalForms source texts) :
    ∃ text d, Signature.ofText text = .ok d ∧ d.render = form := by
  obtain ⟨outcome, among, canonical⟩ := List.mem_filterMap.1 mem
  obtain ⟨⟨text, place⟩, -, rfl⟩ := List.mem_map.1 among
  exact ⟨text, ofText_eq_canonical.1 (canonical?_eq_some.1 canonical)⟩

theorem ofTexts_map {source : String} {forms : List String} {written : String → String}
    (all : ∀ form ∈ forms, ∃ d, Signature.ofText (written form) = .ok d ∧ d.render = form) :
    ofTexts source (forms.map written) = forms.map .canonical := by
  have each : ∀ pair ∈ forms.zipIdx,
      ofText source pair.2 (written pair.1) = .canonical pair.1 :=
    fun pair mem => ofText_eq_canonical.2 (all pair.1 (List.fst_mem_of_mem_zipIdx mem))
  calc ofTexts source (forms.map written)
      = forms.zipIdx.map fun pair => ofText source pair.2 (written pair.1) := by
        rw [ofTexts, List.zipIdx_map, List.map_map]
        rfl
    _ = (forms.zipIdx.map Prod.fst).map .canonical := by
        rw [List.map_congr_left each, List.map_map]
        rfl
    _ = forms.map .canonical := by rw [List.zipIdx_map_fst]

/-- Written one a line, the canonical texts of a text's signatures are the signatures of a text that
is reprinted as it is, whatever the two are called and unless comments open like signatures. -/
theorem reprinted_forms_reprinted_alike (contents mark source source' : String)
    (apart : ∀ c ∈ mark.toList.head?, c ≠ 'i' ∧ c ≠ 'u') :
    let forms := canonicalForms source (signatureLines contents mark)
    ofTexts source' (signatureLines ("\n".intercalate forms) mark) = forms.map .canonical := by
  intro forms
  have fill : ∀ form ∈ forms, FillsLine mark form := by
    intro form mem
    obtain ⟨text, d, parsed, rfl⟩ := parsed_of_mem_canonicalForms mem
    exact fillsLine_of_parsed parsed apart
  rw [signatureLines_intercalate fill]
  refine ofTexts_map fun form mem => ?_
  obtain ⟨text, d, parsed, rfl⟩ := parsed_of_mem_canonicalForms mem
  exact ⟨d, read_from_trimmed parsed, rfl⟩

/-- A comment, blank lines and a line that is no signature are gone; the space behind an empty where
clause is cut off a line and written again. -/
theorem empty_where_clause_reprinted_alike :
    let contents :=
      "# two of them\n\tunsafe impl<A,B>C for(A,B)where\r\n\nimpl C\u00a0D\n impl !C for[u8;3]"
    let forms := ["unsafe impl<A, B> C for (A, B) where ", "impl !C for [u8; 3]"]
    (∀ c ∈ "#".toList.head?, c ≠ 'i' ∧ c ≠ 'u') ∧
      canonicalForms "first" (signatureLines contents "#") = forms ∧
      ofTexts "second" (signatureLines ("\n".intercalate forms) "#") = forms.map .canonical := by
  intro contents forms
  have apart : ∀ c ∈ "#".toList.head?, c ≠ 'i' ∧ c ≠ 'u' := by
    rintro _ ⟨⟩
    decide
  have same : canonicalForms "first" (signatureLines contents "#") = forms := by decide +kernel
  have alike := reprinted_forms_reprinted_alike contents "#" "first" "second" apart
  rw [same] at alike
  exact ⟨apart, same, alike⟩

end Reprint

end ImplFamilies
