import ImplFamilies.Proofs.Grammar.Likeness

/-!
Texts that differ only in what a signature does not keep: a comma before a closing bracket or
before the end, and zeros in front of the length of an array. Every reader reads them alike.
-/

namespace ImplFamilies.Grammar

namespace Reader

mutual

inductive Alike : List Lexeme → List Lexeme → Prop
  | nil : Alike [] []
  /-- No item is complete behind one of these marks. -/
  | opening {text : String} {ts us : List Lexeme} (opens : text ∈ ["(", "<", ","])
      (onward : Alike ts us) : Alike (.mark text :: ts) (.mark text :: us)
  | length {text a b : String} {ts us : List Lexeme} (semicolon : text = ";")
      (number : a.toList.all Char.isDigit = true)
      (number' : b.toList.all Char.isDigit = true)
      (same : Rule.numeral a.toList = Rule.numeral b.toList) (onward : AlikeBehind ts us) :
      Alike (.mark text :: .word a :: ts) (.mark text :: .word b :: us)
  | item {l : Lexeme} {ts us : List Lexeme}
      (plain : ∀ text, l = .mark text → text ∉ ["(", "<", ",", ";"])
      (onward : AlikeBehind ts us) : Alike (l :: ts) (l :: us)

inductive AlikeBehind : List Lexeme → List Lexeme → Prop
  | same {ts us : List Lexeme} (alike : Alike ts us) : AlikeBehind ts us
  | left {ts us : List Lexeme} (alike : Alike ts us) (closes : Closes ts) :
      AlikeBehind (.mark "," :: ts) us
  | right {ts us : List Lexeme} (alike : Alike (.mark ")" :: ts) us) :
      AlikeBehind (.mark ")" :: ts) (.mark "," :: us)

end

variable {ts us : List Lexeme}

theorem Alike.closes (h : Alike ts us) (closes : Closes ts) : Closes us := by
  cases closes with
  | nil => cases h; exact .nil
  | round =>
    cases h with
    | opening opens _ => exact absurd opens (by decide)
    | length semicolon _ _ _ _ => exact absurd semicolon (by decide)
    | item plain _ => exact .round
  | angle =>
    cases h with
    | opening opens _ => exact absurd opens (by decide)
    | length semicolon _ _ _ _ => exact absurd semicolon (by decide)
    | item plain _ => exact .angle

theorem mark_of_closes {text : String} (h : Closes ts) (other : text ∉ [")", ">"]) :
    mark text ts = none := by
  cases read : mark text ts with
  | none => rfl
  | some found =>
    rw [mark_eq_some.1 read] at h
    cases h <;> exact absurd (by decide) other

theorem AlikeBehind.nil_left (h : AlikeBehind [] us) : us = [] := by
  cases h with
  | same alike => cases alike; rfl

theorem AlikeBehind.atComma (h : AlikeBehind ts us) : AtComma Alike ts us := by
  cases h with
  | left alike closes =>
    exact .left alike closes (mark_of_closes (alike.closes closes) (by decide))
  | right alike => exact .right alike (alike.closes .round) rfl
  | same alike =>
    cases alike with
    | nil => exact .neither .nil rfl rfl
    | opening opens onward =>
      rename_i text ts us
      by_cases comma : text = ","
      · subst comma
        exact .both onward
      · have other : ∀ inner, mark "," (.mark text :: inner) = none := by
          simp [mark, comma]
        exact .neither (.opening opens onward) (other ts) (other us)
    | length semicolon number number' same onward =>
      subst semicolon
      exact .neither (.length rfl number number' same onward) rfl rfl
    | item plain onward =>
      rename_i l ts us
      have other : ∀ inner, mark "," (l :: inner) = none := by
        intro inner
        cases read : mark "," (l :: inner) with
        | none => rfl
        | some found =>
          obtain ⟨same, _⟩ := List.cons.inj (mark_eq_some.1 read)
          exact absurd (by decide) (plain "," same)
      exact .neither (.item plain onward) (other ts) (other us)

/- Readers of a single lexeme. -/

def Heads {α : Type} (p : Reader α) (f : Lexeme → Option α) : Prop :=
  p [] = none ∧ ∀ l ts, p (l :: ts) = (f l).map fun a => (a, ts)

theorem heads_mark (text : String) :
    Heads (mark text) fun l => if l = .mark text then some () else none := by
  refine ⟨rfl, fun l ts => ?_⟩
  cases l with
  | mark t => by_cases same : t = text <;> simp [mark, same]
  | _ => rfl

theorem heads_keyword (text : String) :
    Heads (keyword text) fun l => if l = .word text then some () else none := by
  refine ⟨rfl, fun l ts => ?_⟩
  cases l with
  | word t => by_cases same : t = text <;> simp [keyword, same]
  | _ => rfl

theorem heads_lifetime :
    Heads lifetime fun l => match l with | .lifetime name => some name | _ => none := by
  refine ⟨rfl, fun l ts => ?_⟩
  cases l <;> rfl

theorem heads_identifier :
    Heads identifier fun l => match l with
      | .word text => some text.toList
      | .mark text => if text = "..." then some "...".toList else none
      | .lifetime _ => none := by
  refine ⟨rfl, fun l ts => ?_⟩
  cases l with
  | mark t => by_cases same : t = "..." <;> simp [identifier, same]
  | _ => rfl

theorem Heads.of_closes {α : Type} {p : Reader α} {f : Lexeme → Option α} (h : Heads p f)
    (other : ∀ text ∈ [")", ">"], f (.mark text) = none) (closes : Closes ts) : p ts = none := by
  cases closes with
  | nil => exact h.1
  | round => rw [h.2, other ")" (by decide)]; rfl
  | angle => rw [h.2, other ">" (by decide)]; rfl

theorem Heads.related {α : Type} {p : Reader α} {f : Lexeme → Option α} (h : Heads p f)
    (other : ∀ text ∈ ["(", ")", "<", ">", ",", ";"], f (.mark text) = none) (k : Nat) :
    RelatedBelow k AlikeBehind AlikeBehind p p := by
  intro ts us _ _ like
  have fails (text : String) (ts : List Lexeme)
      (known : text ∈ ["(", ")", "<", ">", ",", ";"]) : p (.mark text :: ts) = none := by
    rw [h.2, other text known]
    rfl
  have closing : [")", ">"] ⊆ ["(", ")", "<", ">", ",", ";"] := by decide
  have opening : ["(", "<", ","] ⊆ ["(", ")", "<", ">", ",", ";"] := by decide
  cases like with
  | left alike closes =>
    have ended := h.of_closes (fun text known => other text (closing known)) (alike.closes closes)
    rw [fails "," _ (by decide), ended]
    exact .fail
  | right alike =>
    rw [fails ")" _ (by decide), fails "," _ (by decide)]
    exact .fail
  | same alike =>
    cases alike with
    | nil => rw [h.1]; exact .fail
    | opening opens onward =>
      rw [fails _ _ (opening opens), fails _ _ (opening opens)]
      exact .fail
    | length semicolon number number' same onward =>
      rw [semicolon, fails ";" _ (by decide), fails ";" _ (by decide)]
      exact .fail
    | @item l _ _ plain onward =>
      rw [h.2, h.2]
      cases f l with
      | none => exact .fail
      | some a => exact .read onward

/- The marks around a list. -/

theorem mark_of_ne {l : Lexeme} {text : String} (h : l ≠ .mark text) (ts : List Lexeme) :
    mark text (l :: ts) = none := by
  rw [(heads_mark text).2]
  simp only [if_neg h, Option.map_none]

theorem related_opening (k : Nat) (text : String) (opens : text ∈ ["(", "<"]) :
    RelatedBelow k AlikeBehind Alike (mark text) (mark text) := by
  intro ts us _ _ like
  have closing : text ∉ [")", ">"] := by revert opens text; decide
  have fails (other : String) (known : other ∈ [")", ",", ";"]) (ts : List Lexeme) :
      mark text (.mark other :: ts) = none := by
    refine mark_of_ne (fun same => ?_) ts
    obtain rfl := Lexeme.mark.inj same
    revert opens other
    decide
  cases like with
  | left alike closes =>
    rw [fails "," (by decide), mark_of_closes (alike.closes closes) closing]
    exact .fail
  | right alike =>
    rw [fails ")" (by decide), fails "," (by decide)]
    exact .fail
  | same alike =>
    cases alike with
    | nil => exact .fail
    | @opening text' _ _ _ onward =>
      by_cases same : text' = text
      · subst same
        rw [mark_cons, mark_cons]
        exact .read onward
      · have differ : Lexeme.mark text' ≠ .mark text := fun e => same (Lexeme.mark.inj e)
        rw [mark_of_ne differ, mark_of_ne differ]
        exact .fail
    | length semicolon number number' same onward =>
      rw [semicolon, fails ";" (by decide), fails ";" (by decide)]
      exact .fail
    | @item l _ _ plain onward =>
      have opening : ["(", "<"] ⊆ ["(", "<", ",", ";"] := by decide
      have differ : l ≠ .mark text := fun same => plain text same (opening opens)
      rw [mark_of_ne differ, mark_of_ne differ]
      exact .fail

theorem related_closing (k : Nat) (text : String) (closes : text ∈ [")", ">"]) :
    RelatedBelow k Alike AlikeBehind (mark text) (mark text) := by
  intro ts us _ _ like
  have other : text ∉ ["(", "<", ",", ";"] := by revert closes text; decide
  have fails {found : String} (known : found ∈ ["(", "<", ",", ";"]) (ts : List Lexeme) :
      mark text (.mark found :: ts) = none :=
    mark_of_ne (fun same => other (by rwa [← Lexeme.mark.inj same])) ts
  cases like with
  | nil => exact .fail
  | opening opens onward =>
    have opening : ["(", "<", ","] ⊆ ["(", "<", ",", ";"] := by decide
    rw [fails (opening opens), fails (opening opens)]
    exact .fail
  | length semicolon number number' same onward =>
    rw [semicolon, fails (by decide), fails (by decide)]
    exact .fail
  | @item l _ _ plain onward =>
    by_cases same : l = .mark text
    · subst same
      rw [mark_cons, mark_cons]
      exact .read onward
    · rw [mark_of_ne same, mark_of_ne same]
      exact .fail

/- The readers of more than one lexeme. -/

theorem Closes.takeWhile_isModifier (closes : Closes ts) :
    ts.takeWhile isModifier = [] ∧ ts.dropWhile isModifier = ts := by
  cases closes <;> exact ⟨rfl, rfl⟩

theorem AlikeBehind.modifiers (h : AlikeBehind ts us) :
    ts.takeWhile isModifier = us.takeWhile isModifier ∧
      AlikeBehind (ts.dropWhile isModifier) (us.dropWhile isModifier) := by
  induction ts generalizing us with
  | nil =>
    rw [h.nil_left]
    exact ⟨rfl, .same .nil⟩
  | cons t ts ih =>
    cases h with
    | left alike closes =>
      obtain ⟨taken, dropped⟩ := (alike.closes closes).takeWhile_isModifier
      rw [taken, dropped]
      exact ⟨rfl, .left alike closes⟩
    | right alike => exact ⟨rfl, .right alike⟩
    | same alike =>
      cases alike with
      | @opening text _ us opens onward =>
        have other : isModifier (.mark text) = false := by revert opens text; decide
        simp only [List.takeWhile_cons, List.dropWhile_cons, other, Bool.false_eq_true, if_false]
        exact ⟨trivial, .same (.opening opens onward)⟩
      | length semicolon number number' same onward =>
        subst semicolon
        exact ⟨rfl, .same (.length rfl number number' same onward)⟩
      | item plain onward =>
        cases modifier : isModifier t with
        | false =>
          simp only [List.takeWhile_cons, List.dropWhile_cons, modifier, Bool.false_eq_true,
            if_false]
          exact ⟨trivial, .same (.item plain onward)⟩
        | true =>
          obtain ⟨taken, dropped⟩ := ih onward
          simp only [List.takeWhile_cons, List.dropWhile_cons, modifier, if_true, taken]
          exact ⟨trivial, dropped⟩

theorem related_modifiers (k : Nat) :
    RelatedBelow k AlikeBehind AlikeBehind modifiers modifiers := by
  intro ts us _ _ like
  obtain ⟨taken, dropped⟩ := like.modifiers
  unfold modifiers
  rw [taken]
  exact .read dropped

theorem arrayLength_word_eq {a b : String} (number : a.toList.all Char.isDigit = true)
    (number' : b.toList.all Char.isDigit = true)
    (same : Rule.numeral a.toList = Rule.numeral b.toList) :
    ∃ size : Option UInt64, ∀ ts us, arrayLength (.word a :: ts) = size.map (·, ts) ∧
      arrayLength (.word b :: us) = size.map (·, us) := by
  by_cases fits : Rule.numeral b.toList < UInt64.size
  · refine ⟨some (UInt64.ofNat (Rule.numeral b.toList)), fun ts us => ?_⟩
    simp [arrayLength, number, number', same, fits]
  · refine ⟨none, fun ts us => ?_⟩
    simp [arrayLength, number, number', same, fits]

theorem related_size (k : Nat) :
    RelatedBelow k AlikeBehind AlikeBehind (optional ((mark ";").keepRight arrayLength))
      (optional ((mark ";").keepRight arrayLength)) := by
  intro ts us _ _ like
  have onward {ts us : List Lexeme} (unsized : mark ";" ts = none) (unsized' : mark ";" us = none)
      (like : AlikeBehind ts us) : SameOutcome AlikeBehind
        (optional ((mark ";").keepRight arrayLength) ts)
        (optional ((mark ";").keepRight arrayLength) us) := by
    simp only [optional, keepRight_eq_none unsized, keepRight_eq_none unsized']
    exact .read like
  cases like with
  | left alike closes =>
    exact onward rfl (mark_of_closes (alike.closes closes) (by decide)) (.left alike closes)
  | right alike => exact onward rfl rfl (.right alike)
  | same alike =>
    cases alike with
    | nil => exact .read (.same .nil)
    | @opening text _ us opens inner =>
      have differ : Lexeme.mark text ≠ .mark ";" := by
        intro same
        rw [Lexeme.mark.inj same] at opens
        exact absurd opens (by decide)
      exact onward (mark_of_ne differ _) (mark_of_ne differ _) (.same (.opening opens inner))
    | @length _ a b ts us semicolon number number' same inner =>
      subst semicolon
      obtain ⟨size, read⟩ := arrayLength_word_eq number number' same
      obtain ⟨left, right⟩ := read ts us
      simp only [optional, keepRight_mark_cons, left, right]
      cases size with
      | none => exact .read (.same (.length rfl number number' same inner))
      | some size => exact .read inner
    | item plain inner =>
      have differ := fun same => plain ";" same (by decide)
      exact onward (mark_of_ne differ _) (mark_of_ne differ _) (.same (.item plain inner))

def Likeness.reprinted : Likeness where
  strict := Alike
  loose := AlikeBehind
  loosen := .same
  comma := AlikeBehind.atComma
  mark := fun k text other => (heads_mark text).related
    (fun _ known => if_neg fun same => other (by rwa [← Lexeme.mark.inj same])) k
  opening := related_opening
  closing := related_closing
  keyword := fun k text => (heads_keyword text).related (fun _ _ => rfl) k
  identifier := fun k => heads_identifier.related (by decide) k
  lifetime := fun k => heads_lifetime.related (fun _ _ => rfl) k
  modifiers := related_modifiers
  size := related_size

end Reader

end ImplFamilies.Grammar
