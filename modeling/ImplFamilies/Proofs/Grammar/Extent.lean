import ImplFamilies.Proofs.Grammar.Derivation

/-!
How far a phrase goes: it takes at least one lexeme, and only words that are names, numbers, or
keywords of types.
-/

namespace ImplFamilies.Grammar

open Phrase

section

variable (names : String → Prop)

def typeKeywords : List String :=
  ["impl", "dyn", "mut", "const", "unsafe", "extern"]

inductive Passes : List Lexeme → List Lexeme → Prop
  | here {ts : List Lexeme} : Passes ts ts
  | past {l : Lexeme} {ts rest : List Lexeme}
      (typed : ∀ text, l = .word text →
        names text ∨ text ∈ typeKeywords ∨ text.toList.all Char.isDigit = true)
      (onward : Passes ts rest) : Passes (l :: ts) rest

def Spans (ts rest : List Lexeme) : Prop :=
  Passes names ts rest ∧ rest.length < ts.length

def SpansBelow {α : Type} (k : Nat) (d : Phrase α) : Prop :=
  ∀ ⦃ts a rest⦄, ts.length < k → d ts a rest → Spans names ts rest

end

variable {names : String → Prop} {ts mid rest : List Lexeme}

theorem Passes.trans (h₁ : Passes names ts mid) (h₂ : Passes names mid rest) :
    Passes names ts rest := by
  induction h₁ with
  | here => exact h₂
  | past typed onward ih => exact .past typed (ih h₂)

theorem Passes.suffix (h : Passes names ts rest) : rest <:+ ts := by
  induction h with
  | here => exact List.suffix_refl _
  | past typed onward ih => exact ih.trans (List.suffix_cons _ _)

theorem Passes.length_le (h : Passes names ts rest) : rest.length ≤ ts.length :=
  h.suffix.length_le

theorem Passes.mem_rest {text : String} (h : Passes names ts rest) (name : ¬ names text)
    (keyword : text ∉ typeKeywords) (number : text.toList.all Char.isDigit = false)
    (mem : .word text ∈ ts) : .word text ∈ rest := by
  induction h with
  | here => exact mem
  | past typed onward ih =>
    rcases List.mem_cons.1 mem with same | mem
    · rcases typed text same.symm with named | reserved | digits
      · exact absurd named name
      · exact absurd reserved keyword
      · exact nomatch number.symm.trans digits
    · exact ih mem

theorem Passes.over_mark {text : String} (h : Passes names ts rest) :
    Passes names (.mark text :: ts) rest :=
  .past (fun _ same => nomatch same) h

theorem Passes.over_word {text : String} (keyword : text ∈ typeKeywords)
    (h : Passes names ts rest) : Passes names (.word text :: ts) rest :=
  .past (fun _ same => .inr (.inl (Lexeme.word.inj same ▸ keyword))) h

theorem Spans.passes (h : Spans names ts rest) : Passes names ts rest := h.1

theorem Spans.length_lt (h : Spans names ts rest) : rest.length < ts.length := h.2

theorem Spans.trans (h₁ : Spans names ts mid) (h₂ : Passes names mid rest) :
    Spans names ts rest :=
  ⟨h₁.passes.trans h₂, Nat.lt_of_le_of_lt h₂.length_le h₁.length_lt⟩

theorem Passes.spans (h₁ : Passes names ts mid) (h₂ : Spans names mid rest) :
    Spans names ts rest :=
  ⟨h₁.trans h₂.passes, Nat.lt_of_lt_of_le h₂.length_lt h₁.length_le⟩

theorem Spans.mark {text : String} (h : Passes names ts rest) :
    Spans names (.mark text :: ts) rest :=
  ⟨h.over_mark, Nat.lt_succ_of_le h.length_le⟩

theorem Spans.word {text : String} (keyword : text ∈ typeKeywords) (h : Passes names ts rest) :
    Spans names (.word text :: ts) rest :=
  ⟨h.over_word keyword, Nat.lt_succ_of_le h.length_le⟩

theorem Passes.mark (text : String) (ts : List Lexeme) : Passes names (.mark text :: ts) ts :=
  Passes.here.over_mark

section Combinators

variable {α : Type} {k : Nat} {d : Phrase α}

theorem SpansBelow.optional (h : SpansBelow names k d) {o : Option α} (short : ts.length < k)
    (read : Optional d ts o rest) : Passes names ts rest := by
  cases read with
  | absent => exact .here
  | present read => exact (h short read).passes

theorem SpansBelow.after {text : String} (h : SpansBelow names k d) :
    SpansBelow names (k + 1) (After text d) := by
  intro ts a rest short read
  cases read with
  | read behind => exact .mark (h (Nat.lt_of_succ_lt_succ short) behind).passes

theorem SpansBelow.separated {separator : String} (h : SpansBelow names k d) :
    SpansBelow names k (Separated d separator) := by
  intro ts as rest short read
  induction read with
  | last only => exact h short only
  | more first others ih =>
    have front := h short first
    have shorter := front.length_lt
    rw [List.length_cons] at shorter
    exact (front.trans (.mark ..)).trans (ih (by omega)).passes

theorem SpansBelow.commaList₁ (h : SpansBelow names k d) : SpansBelow names k (CommaList₁ d) := by
  intro ts as rest short read
  cases read with
  | closed items => exact h.separated short items
  | trailing items => exact (h.separated short items).trans (.mark ..)

theorem SpansBelow.commaList (h : SpansBelow names k d) {as : List α} (short : ts.length < k)
    (read : CommaList d ts as rest) : Passes names ts rest := by
  cases read with
  | empty => exact .here
  | items some => exact (h.commaList₁ short some).passes

end Combinators

theorem passes_modifiers {words : List String} (h : Modifiers ts words rest) :
    Passes names ts rest := by
  induction h with
  | none => exact .here
  | more modifier others ih =>
    rcases modifier with rfl | rfl | rfl
    · exact ih.over_word (by decide)
    · exact ih.over_word (by decide)
    · exact ih.over_mark

theorem spans_lifetime {name : String} (h : Lifetime ts name rest) : Spans names ts rest := by
  cases h
  exact ⟨.past (fun _ same => nomatch same) .here, Nat.lt_succ_self _⟩

theorem spans_name {name : String} (h : DerivesName names ts name rest) : Spans names ts rest := by
  cases h with
  | word named =>
    exact ⟨.past (fun _ same => .inl (Lexeme.word.inj same ▸ named)) .here, Nat.lt_succ_self _⟩
  | dots => exact .mark .here

theorem spans_segments {name : String} (h : DerivesSegments names ts name rest) :
    Spans names ts rest := by
  cases h with
  | read parted =>
    have name : SpansBelow names (ts.length + 1) (DerivesName names) := fun _ _ _ _ => spans_name
    exact name.separated (Nat.lt_succ_self _) parted

theorem passes_optional {α : Type} {d : Phrase α} {o : Option α}
    (h : ∀ {a}, d ts a rest → Passes names ts rest) (read : Optional d ts o rest) :
    Passes names ts rest := by
  cases read with
  | absent => exact .here
  | present read => exact h read

theorem passes_mark {text : String} (h : Token (.mark text) ts () rest) : Passes names ts rest := by
  cases h
  exact .mark ..

theorem passes_mut (h : Token (.word "mut") ts () rest) : Passes names ts rest := by
  cases h
  exact Passes.here.over_word (by decide)

section Types

variable {k : Nat} (hk : ∀ spot, SpansBelow names k (DerivesTy names spot))
include hk

theorem spansBelow_arg : SpansBelow names k (DerivesArg names) := by
  intro ts a rest short h
  cases h with
  | lifetime read => exact spans_lifetime read
  | type read => exact hk .full short read

theorem spans_args {as : List Arg} (short : ts.length < k + 1) (h : DerivesArgs names ts as rest) :
    Spans names ts rest := by
  cases h with
  | empty => exact .mark (.mark ..)
  | items some =>
    have inner := (spansBelow_arg hk).commaList₁ (Nat.lt_of_succ_lt_succ short) some
    exact .mark (inner.passes.trans (.mark ..))

theorem spans_path {p : TypePath} (short : ts.length < k + 1) (h : DerivesPath names ts p rest) :
    Spans names ts rest := by
  cases h with
  | fn modifiers segments parameters result =>
    have named : Passes names ts _ := passes_modifiers modifiers
    have opened := spans_segments segments
    have named_le := named.length_le
    have opened_lt := opened.length_lt
    rw [List.length_cons] at opened_lt
    have closed := (hk .full).commaList (by omega) parameters
    have closed_le := closed.length_le
    rw [List.length_cons] at closed_le
    have result := SpansBelow.optional (hk .full).after (by omega) result
    exact named.spans ((opened.trans (.mark ..)).trans ((closed.trans (.mark ..)).trans result))
  | plain segments args =>
    have front := spans_segments segments
    have shorter := front.length_lt
    cases args with
    | absent => exact front
    | present read => exact front.trans (spans_args hk (by omega) read).passes

theorem spans_traitBound {b : TraitBound} (short : ts.length < k + 1)
    (h : DerivesTraitBound names ts b rest) : Spans names ts rest := by
  cases h with
  | read mark path =>
    have front : Passes names ts _ := passes_optional passes_mark mark
    have shorter := front.length_le
    exact front.spans (spans_path hk (by omega) path)

theorem spansBelow_bound : SpansBelow names (k + 1) (DerivesBound names) := by
  intro ts b rest short h
  cases h with
  | lifetime read => exact spans_lifetime read
  | trait read => exact spans_traitBound hk short read

theorem spansBelow_bounds : SpansBelow names (k + 1) (DerivesBounds names) :=
  (spansBelow_bound hk).separated

end Types

theorem opener_mem (opener : Opener) : opener.word ∈ typeKeywords := by
  cases opener <;> decide

theorem spansBelow_ty (k : Nat) (spot : Spot) : SpansBelow names k (DerivesTy names spot) := by
  induction k generalizing spot with
  | zero => exact fun _ _ _ short _ => absurd short (Nat.not_lt_zero _)
  | succ k ih =>
    have plain : SpansBelow names (k + 1) (DerivesTy names .plain) := by
      intro ts t rest short h
      have inner {u : List Lexeme} {l : Lexeme} (e : ts = l :: u) : u.length < k := by
        subst e
        exact Nat.lt_of_succ_lt_succ short
      cases h with
      | never => exact .mark .here
      | path read => exact spans_path ih short read
      | tuple elements => exact .mark (((ih .full).commaList (inner rfl) elements).trans (.mark ..))
      | array element length =>
        have front := ih .full (inner rfl) element
        cases length with
        | read number value =>
          refine .mark (front.passes.trans (.over_mark (.past ?_ (.mark ..))))
          exact fun text same => .inr (.inr (Lexeme.word.inj same ▸ number))
      | slice element => exact .mark ((ih .full (inner rfl) element).passes.trans (.mark ..))
      | mutPointer element =>
        have front := ih .plain (Nat.lt_of_succ_lt (inner rfl)) element
        exact .mark (front.passes.over_word (by decide))
      | constPointer element =>
        have front := ih .plain (Nat.lt_of_succ_lt (inner rfl)) element
        exact .mark (front.passes.over_word (by decide))
      | reference lifetime «mut» element =>
        have front : Passes names _ _ :=
          passes_optional (fun read => (spans_lifetime read).passes) lifetime
        have after := front.trans (passes_optional passes_mut «mut»)
        have shorter := after.length_le
        have element := ih .plain (Nat.lt_of_le_of_lt shorter (inner rfl)) element
        exact .mark (after.trans element.passes)
      | single bound =>
        have shorter := Nat.lt_of_succ_lt short
        exact .word (opener_mem _) (spans_traitBound ih shorter bound).passes
    cases spot with
    | plain => exact plain
    | full =>
      intro ts t rest short h
      cases h with
      | bounded bounds several =>
        have shorter := Nat.lt_of_succ_lt short
        exact .word (opener_mem _) (spansBelow_bounds ih shorter bounds).passes
      | unbounded h => exact plain short h

theorem spans_ty {spot : Spot} {t : Ty} (h : DerivesTy names spot ts t rest) :
    Spans names ts rest :=
  spansBelow_ty (ts.length + 1) spot (Nat.lt_succ_self _) h

theorem spans_bounds {bs : List Bound} (h : DerivesBounds names ts bs rest) :
    Spans names ts rest :=
  spansBelow_bounds (fun spot => spansBelow_ty ts.length spot) (Nat.lt_succ_self _) h

theorem spans_lifetimeBounds {bounds : List String} (h : DerivesLifetimeBounds ts bounds rest) :
    Spans names ts rest := by
  have item : SpansBelow names (ts.length + 1) Lifetime := fun _ _ _ _ => spans_lifetime
  exact item.separated (Nat.lt_succ_self _) h

theorem passes_after {α : Type} {d : Phrase α} {text : String} {a : α}
    (h : ∀ {ts}, d ts a rest → Spans names ts rest) (read : After text d ts a rest) :
    Passes names ts rest := by
  cases read with
  | read behind => exact (h behind).passes.over_mark

theorem spans_param {param : Param} (h : DerivesParam names ts param rest) :
    Spans names ts rest := by
  cases h with
  | lifetime read listed =>
    exact (spans_lifetime read).trans (passes_optional (passes_after spans_lifetimeBounds) listed)
  | type read listed given =>
    have bounded := (spans_name read).trans (passes_optional (passes_after spans_bounds) listed)
    exact bounded.trans (passes_optional (passes_after spans_ty) given)

theorem spans_whereItem {item : Param} (h : DerivesWhereItem names ts item rest) :
    Spans names ts rest := by
  cases h with
  | lifetime read listed =>
    exact (spans_lifetime read).trans (passes_after spans_lifetimeBounds listed)
  | type read listed => exact (spans_name read).trans (passes_after spans_bounds listed)

theorem passes_commaList {α : Type} {d : Phrase α} {as : List α}
    (h : ∀ {ts a rest}, d ts a rest → Spans names ts rest) (read : CommaList d ts as rest) :
    Passes names ts rest := by
  have items : SpansBelow names (ts.length + 1) d := fun _ _ _ _ => h
  exact items.commaList (Nat.lt_succ_self _) read

theorem passes_generics {params : List Param} (h : DerivesGenerics names ts params rest) :
    Passes names ts rest := by
  cases h with
  | read listed => exact .over_mark ((passes_commaList spans_param listed).trans (.mark ..))

end ImplFamilies.Grammar
