import ImplFamilies.Proofs.Signature.WellFormed
import ImplFamilies.Signature.Printer

/-!
The characters that canonical texts are made of. A well-formed tree is written with word characters
and punctuation, and with spaces as the only white space; a signature in one line, then, that begins
with a letter.
-/

namespace ImplFamilies

open Grammar (IsIdentifier IsLifetime isWordChar joinedWords)
open Text (joined)

def isSpellable (c : Char) : Bool :=
  isWordChar c || " !\"&'()*+,-.:;<=>?[]".toList.contains c

/-- Made of the characters that canonical texts are made of. -/
def Spellable (cs : List Char) : Prop :=
  ∀ c ∈ cs, isSpellable c = true

instance (cs : List Char) : Decidable (Spellable cs) :=
  List.decidableBAll _ cs

section Characters

variable {cs ds : List Char}

theorem isSpellable_of_isWordChar {c : Char} (h : isWordChar c = true) : isSpellable c = true := by
  rw [isSpellable, h, Bool.true_or]

theorem spellable_nil : Spellable [] :=
  fun _ mem => nomatch mem

@[simp] theorem spellable_append : Spellable (cs ++ ds) ↔ Spellable cs ∧ Spellable ds :=
  List.forall_mem_append

theorem Spellable.joined {α : Type} {spell : α → List Char} {separator : String} {as : List α}
    (between : Spellable separator.toList) (each : ∀ a ∈ as, Spellable (spell a)) :
    Spellable (joined separator (as.map spell)) := by
  induction as with
  | nil => exact spellable_nil
  | cons x as ih =>
    obtain ⟨first, others⟩ := List.forall_mem_cons.1 each
    cases as with
    | nil => rwa [List.map_singleton, Text.joined_singleton]
    | cons y as =>
      rw [List.map_cons, List.map_cons, Text.joined_cons_cons, spellable_append, spellable_append]
      exact ⟨⟨first, between⟩, ih others⟩

theorem spellable_joinedWords {separator : String} {words : List String}
    (between : Spellable separator.toList) (each : ∀ word ∈ words, Spellable word.toList) :
    Spellable (joinedWords separator words).toList := by
  rw [joinedWords, String.toList_ofList]
  exact .joined between each

/-- No canonical text runs over more than a line. -/
theorem Spellable.unbroken (h : Spellable cs) : '\n' ∉ cs :=
  fun feed => absurd (h _ feed) (by decide)

end Characters

/- Names. -/

theorem spellable_identifier {name : String} (h : IsIdentifier name) : Spellable name.toList := by
  rcases h with ⟨-, chars⟩ | rfl
  · exact fun c mem => isSpellable_of_isWordChar (chars c mem)
  · decide

theorem spellable_lifetime {name : String} (h : IsLifetime name) : Spellable name.toList := by
  obtain ⟨rest, shape, -, chars⟩ := h
  rw [shape]
  exact List.forall_mem_cons.2 ⟨by decide, fun c mem => isSpellable_of_isWordChar (chars c mem)⟩

theorem Segmented.spellable {parts : List String} {text : String} (h : Segmented parts text) :
    Spellable text.toList := by
  rw [h.joined]
  exact spellable_joinedWords (by decide) fun part mem => spellable_identifier (h.each part mem)

theorem Modifying.spellable {text : String} (h : Modifying text) : Spellable text.toList := by
  obtain ⟨words, each, rfl⟩ := h
  have known : ∀ word ∈ ["unsafe", "extern", "\"C\""], Spellable word.toList := by decide
  exact spellable_joinedWords (by decide) fun word mem => known word (each word mem)

theorem spellable_digits (n : Nat) : Spellable (Nat.toDigits 10 n) := by
  intro c mem
  have digit : c.isDigit = true := Nat.isDigit_of_mem_toDigits (by decide) (by decide) mem
  exact isSpellable_of_isWordChar (by simp [isWordChar, Char.isAlphanum, digit])

theorem spellable_call {modifiers name : String} {inputs : List Ty}
    (words : Spellable modifiers.toList) (called : Spellable name.toList)
    (each : ∀ x ∈ inputs, Spellable x.spell) :
    Spellable (spellCall modifiers name (inputs.map Ty.spell)) := by
  have front : Spellable (if modifiers = "" then [] else modifiers.toList ++ [' ']) := by
    split
    · exact spellable_nil
    · exact spellable_append.2 ⟨words, by decide⟩
  simp only [spellCall, spellable_append]
  exact ⟨⟨⟨⟨front, called⟩, by decide⟩, .joined (by decide) each⟩, by decide⟩

theorem spellable_word (o : Opener) : Spellable o.word.toList := by
  cases o <;> decide

theorem spellable_pointerWord (mutable : Bool) : Spellable (pointerWord mutable).toList := by
  cases mutable <;> decide

/- Trees, by induction on their being well-formed. -/

mutual

theorem Ty.WellFormed.spellable : {x : Ty} → x.WellFormed → Spellable x.spell
  | _, .never => by decide
  | _, .path path => path.spellable
  | _, .tuple each => by
    have inner := fun x mem => (each x mem).spellable
    simp only [Ty.spell, Ty.spellEach_eq_map, spellable_append]
    exact ⟨⟨by decide, .joined (by decide) inner⟩, by split <;> decide⟩
  | _, .array element => by
    simp only [Ty.spell, spellable_append]
    exact ⟨⟨⟨⟨by decide, element.spellable⟩, by decide⟩, spellable_digits _⟩, by decide⟩
  | _, .slice element => by
    simp only [Ty.spell, spellable_append]
    exact ⟨⟨by decide, element.spellable⟩, by decide⟩
  | _, .pointer element _ => by
    simp only [Ty.spell, spellable_append]
    exact ⟨⟨⟨by decide, spellable_pointerWord _⟩, by decide⟩, element.spellable⟩
  | .reference lifetime mutable _, .reference named element _ => by
    have mark : Spellable (if mutable then "mut ".toList else []) := by
      cases mutable <;> decide
    simp only [Ty.spell, spellable_append]
    cases lifetime with
    | none => exact ⟨⟨⟨by decide, spellable_nil⟩, mark⟩, element.spellable⟩
    | some name =>
      have life := spellable_lifetime (named name rfl)
      exact ⟨⟨⟨by decide, spellable_append.2 ⟨life, by decide⟩⟩, mark⟩, element.spellable⟩
  | _, .single bound => by
    simp only [Ty.spell, spellable_append]
    exact ⟨⟨spellable_word _, by decide⟩, bound.spellable⟩
  | .bounded o _, .bounded _ _ each => by
    have inner := fun b mem => (each b mem).spellable
    simp only [Ty.spell, Bound.spellEach_eq_map, spellable_append]
    exact ⟨⟨spellable_word o, by decide⟩, .joined (by decide) inner⟩

theorem TypePath.WellFormed.spellable : {p : TypePath} → p.WellFormed → Spellable p.spell
  | .plain _ none, .plain segments _ => segments.spellable
  | .plain _ (some as), .plain segments each => by
    have inner := fun a mem => (each as rfl a mem).spellable
    simp only [TypePath.spell, Arg.spellEach_eq_map, spellable_append]
    exact ⟨⟨⟨segments.spellable, by decide⟩, .joined (by decide) inner⟩, by decide⟩
  | .fn _ _ _ none, .fn words segments _ each _ => by
    simp only [TypePath.spell, Ty.spellEach_eq_map]
    exact spellable_call words.spellable segments.spellable
      fun x mem => (each x mem).spellable
  | .fn _ _ _ (some output), .fn words segments _ each result => by
    have call := spellable_call words.spellable segments.spellable
      fun x mem => (each x mem).spellable
    simp only [TypePath.spell, Ty.spellEach_eq_map, spellable_append]
    exact ⟨⟨call, by decide⟩, (result output rfl).spellable⟩

theorem Arg.WellFormed.spellable : {a : Arg} → a.WellFormed → Spellable a.spell
  | _, .lifetime named => spellable_lifetime named
  | _, .type type => type.spellable

theorem Bound.WellFormed.spellable : {b : Bound} → b.WellFormed → Spellable b.spell
  | _, .lifetime named => spellable_lifetime named
  | _, .trait bound => bound.spellable

theorem TraitBound.WellFormed.spellable : {b : TraitBound} → b.WellFormed → Spellable b.spell
  | .mk optional _, .mk path => by
    have mark : Spellable (if optional then ['?'] else []) := by
      cases optional <;> decide
    simp only [TraitBound.spell, spellable_append]
    exact ⟨mark, path.spellable⟩

end

theorem spellable_bounds {α : Type} {spell : α → List Char} {bounds : List α}
    (each : ∀ bound ∈ bounds, Spellable (spell bound)) :
    Spellable (Param.spellBounds (bounds.map spell)) := by
  cases bounds with
  | nil => exact spellable_nil
  | cons bound bounds => exact spellable_append.2 ⟨by decide, .joined (by decide) each⟩

theorem Param.WellFormed.spellable {p : Param} (h : p.WellFormed) : Spellable p.spell := by
  cases h with
  | lifetime named each =>
    have bounds := spellable_bounds fun bound mem => spellable_lifetime (each bound mem)
    exact spellable_append.2 ⟨spellable_lifetime named, bounds⟩
  | @type name bounds default named each given =>
    have bounds := spellable_bounds fun bound mem => (each bound mem).spellable
    simp only [Param.spell, spellable_append]
    refine ⟨⟨spellable_identifier named, bounds⟩, ?_⟩
    cases default with
    | none => exact spellable_nil
    | some ty => exact spellable_append.2 ⟨by decide, (given ty rfl).spellable⟩

namespace Signature

theorem spellable_generics {ps : List Param} (each : ∀ p ∈ ps, p.WellFormed) :
    Spellable (spellGenerics ps) := by
  cases ps with
  | nil => exact spellable_nil
  | cons p ps =>
    have inner := fun p mem => (each p mem).spellable
    simp only [spellGenerics, spellable_append]
    exact ⟨⟨by decide, .joined (by decide) inner⟩, by decide⟩

theorem WellFormed.spellable {d : Signature} (h : d.WellFormed) : Spellable d.spell := by
  have mark : Spellable (if d.isUnsafe then "unsafe ".toList else []) := by
    cases d.isUnsafe <;> decide
  have sign : Spellable (if d.negated then ['!'] else []) := by
    cases d.negated <;> decide
  simp only [spell, spellable_append]
  refine ⟨⟨⟨⟨⟨⟨mark, by decide⟩, spellable_generics h.generics⟩, by decide⟩, ?_⟩,
    h.self.spellable⟩, ?_⟩
  · cases trait : d.traitRef with
    | none => exact spellable_nil
    | some path =>
      exact spellable_append.2
        ⟨spellable_append.2 ⟨sign, (h.trait path trait).spellable⟩, by decide⟩
  · cases clause : d.whereClause with
    | none => exact spellable_nil
    | some items =>
      have each := fun p mem => (h.items items clause p mem).1.spellable
      exact spellable_append.2 ⟨by decide, .joined (by decide) each⟩

theorem head?_spell (d : Signature) :
    d.spell.head? = some (if d.isUnsafe then 'u' else 'i') := by
  cases mark : d.isUnsafe <;> simp [spell, mark]

end Signature

end ImplFamilies
