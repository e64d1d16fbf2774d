import ImplFamilies.Proofs.Grammar.FailurePlaces

/-!
Rules as they are put together. A scheme is a rule whose nested types are left open; whoever reads
them is filled in later. What a scheme always reads, and which types it may ask for before it has
read anything, is told by its form alone. The grammar is two schemes that ask for each other, so
both its recursion and its repetitions can be checked by looking at them.
-/

namespace ImplFamilies.Grammar

variable {α β : Type}

def Eats (p : Rule α) : Prop :=
  ∀ ⦃c : Cursor⦄ ⦃a : α⦄ ⦃c₁ : Cursor⦄, (p c).result? = some (a, c₁) →
    c₁.rest.length < c.rest.length

theorem Cursor.Onto.length_le {c c₁ : Cursor} (h : c.Onto c₁) : c₁.rest.length ≤ c.rest.length := by
  obtain ⟨read, h⟩ := h
  rw [h.rest, List.length_append]
  exact Nat.le_add_left ..

theorem Forward.length_le {p : Rule α} [Forward p] {c c₁ : Cursor} {a : α}
    (h : (p c).result? = some (a, c₁)) : c₁.rest.length ≤ c.rest.length :=
  (onto h).length_le

namespace Eats

open Rule

variable {p : Rule α} {q : Rule β}

theorem map (f : α → β) (h : Eats p) : Eats (p.map f) := by
  intro c b c₁ read
  rw [result?_map] at read
  obtain ⟨⟨a, c₂⟩, first, same⟩ := Option.map_eq_some_iff.1 read
  cases same
  exact h first

theorem andThen [Forward p] [Forward q] (h : Eats p ∨ Eats q) : Eats (p.andThen q) := by
  rintro c ⟨a, b⟩ c₂ read
  rw [result?_andThen] at read
  obtain ⟨⟨a, c₁⟩, first, read⟩ := Option.bind_eq_some_iff.1 read
  obtain ⟨⟨b, c₂⟩, second, same⟩ := Option.map_eq_some_iff.1 read
  cases same
  rcases h with h | h
  · exact Nat.lt_of_le_of_lt (Forward.length_le second) (h first)
  · exact Nat.lt_of_lt_of_le (h second) (Forward.length_le first)

theorem orElse {q : Rule α} (hp : Eats p) (hq : Eats q) : Eats (p.orElse q) := by
  intro c a c₁ read
  rw [result?_orElse, Option.or_eq_some_iff] at read
  rcases read with first | ⟨-, second⟩
  · exact hp first
  · exact hq second

theorem labelled (name : String) (h : Eats p) : Eats (labelled name p) := by
  intro c a c₁ read
  rw [result?_labelled] at read
  exact h read

theorem padded (h : Eats p) : Eats (padded p) := by
  intro c a c₁ read
  rw [result?_padded] at read
  obtain ⟨⟨b, c₂⟩, inner, same⟩ := Option.map_eq_some_iff.1 read
  cases same
  have before := (c.reads_skipWhile Text.isBlank).onto.length_le
  have behind := (c₂.reads_skipWhile Text.isBlank).onto.length_le
  exact Nat.lt_of_le_of_lt behind (Nat.lt_of_lt_of_le (h inner) before)

theorem refine (f : α → Except (Option String) β) (h : Eats p) : Eats (refine f p) := by
  intro c b c₁ read
  rw [result?_refine] at read
  obtain ⟨⟨a, c₂⟩, inner, read⟩ := Option.bind_eq_some_iff.1 read
  obtain ⟨b, -, same⟩ := Option.map_eq_some_iff.1 read
  cases same
  exact h inner

theorem of_readsWord (h : ReadsWord p) : Eats p := by
  intro c a c₁ read
  obtain ⟨word, reads, some, -⟩ := h read
  rw [reads.rest, List.length_append]
  exact Nat.lt_add_of_pos_left (List.length_pos_iff.2 some)

theorem literal {cs : List Char} (some : cs ≠ []) : Eats (literal cs) := by
  rintro ⟨offset, rest⟩ u c₁ read
  by_cases front : cs <+: rest
  · obtain ⟨behind, rfl⟩ := front
    rw [result?_literal_append] at read
    cases read
    simpa using List.length_pos_iff.2 some
  · rw [result?_literal_eq_none front] at read
    cases read

theorem token {text : String} (some : text.toList ≠ []) : Eats (token text) :=
  ((literal some).labelled text).padded

theorem keyword (text : String) : Eats (keyword text) :=
  (((of_readsWord readsWord_word).refine _).labelled text).padded

theorem identifier : Eats identifier :=
  (((of_readsWord (readsWord_run₁ fun _ word => word)).orElse
    ((literal (by decide)).map _)).labelled _).padded

theorem lifetime : Eats lifetime :=
  (((andThen (.inl (literal (by decide)))).map Prod.snd).map _ |>.labelled _).padded

theorem arrayLength : Eats arrayLength :=
  (((of_readsWord (readsWord_run₁ isWordChar_of_isDigit)).refine _).labelled _).padded

/- Lists read at least their first item. -/

variable {item : Rule α} {separator : Rule β} [Forward item] [Forward separator]

theorem onto_pairsUpTo (n : Nat) (c : Cursor) (hint : Option Failure) :
    c.Onto (pairsUpTo item separator n c hint).cursor := by
  induction n generalizing c hint with
  | zero => exact .refl c
  | succ n ih =>
    unfold pairsUpTo
    cases first : separator c with
    | fail e => exact .refl c
    | ok b c₁ hint₁ =>
      dsimp only
      cases second : item c₁ with
      | fail e => exact .refl c
      | ok a c₂ hint₂ =>
        have onto : c.Onto c₁ := Forward.onto (p := separator) (congrArg Outcome.result? first)
        have further : c₁.Onto c₂ := Forward.onto (p := item) (congrArg Outcome.result? second)
        exact (onto.trans further).trans (ih c₂ _)

theorem series (h : Eats item) {c : Cursor} (some : (series item separator c).items ≠ []) :
    (Rule.series item separator c).cursor.rest.length < c.rest.length := by
  unfold Rule.series at some ⊢
  cases first : item c with
  | fail e => rw [first] at some; exact absurd rfl some
  | ok a c₁ hint =>
    exact Nat.lt_of_le_of_lt (onto_pairsUpTo _ c₁ hint).length_le
      (h (congrArg Outcome.result? first))

theorem separated₁ (h : Eats item) : Eats (separated₁ item separator) := by
  intro c a c₁ read
  have shorter : (Rule.series item separator c).items ≠ [] → _ := h.series
  unfold Rule.separated₁ at read
  generalize Rule.series item separator c = s at read shorter
  obtain ⟨items, last, hint, ended⟩ := s
  cases items with
  | nil => cases read
  | cons a as => cases read; exact shorter (List.cons_ne_nil _ _)

theorem list₁ (h : Eats item) : Eats (list₁ item separator) := by
  intro c a c₁ read
  have shorter : (Rule.series item separator c).items ≠ [] → _ := h.series
  unfold Rule.list₁ at read
  generalize Rule.series item separator c = s at read shorter
  obtain ⟨items, last, hint, ended⟩ := s
  cases items with
  | nil => cases read
  | cons a as =>
    have least := shorter (List.cons_ne_nil _ _)
    unfold closeList at read
    cases trailing : separator last with
    | fail e => simp only [trailing] at read; cases read; exact least
    | ok b c₂ hint₂ =>
      simp only [trailing] at read
      cases read
      exact Nat.lt_of_le_of_lt
        (Forward.length_le (p := separator) (congrArg Outcome.result? trailing)) least

end Eats

/-- A rule as it is put together from smaller ones. Types are asked for by where they stand. -/
inductive Scheme : Type → Type 1
  | nested (spot : Spot) : Scheme Ty
  /-- Reads characters and no type. -/
  | word {α : Type} (p : Rule α) (tells : Forward p) (eats : Eats p) : Scheme α
  /-- Looks at what is there without having to read it. -/
  | glance {α : Type} (p : Rule α) (tells : Forward p) : Scheme α
  | map {α β : Type} (f : α → β) (p : Scheme α) : Scheme β
  | andThen {α β : Type} (p : Scheme α) (q : Scheme β) : Scheme (α × β)
  | orElse {α : Type} (p q : Scheme α) : Scheme α
  | optional {α : Type} (p : Scheme α) : Scheme (Option α)
  | padded {α : Type} (p : Scheme α) : Scheme α
  | many {α : Type} (p : Scheme α) : Scheme (List α)
  | separated₁ {α β : Type} (item : Scheme α) (separator : Scheme β) : Scheme (List α)
  | list {α β : Type} (item : Scheme α) (separator : Scheme β) : Scheme (List α)
  | list₁ {α β : Type} (item : Scheme α) (separator : Scheme β) : Scheme (List α)

namespace Scheme

def rule (nested : Spot → Rule Ty) : {α : Type} → Scheme α → Rule α
  | _, .nested spot => nested spot
  | _, .word p _ _ => p
  | _, .glance p _ => p
  | _, .map f p => (p.rule nested).map f
  | _, .andThen p q => (p.rule nested).andThen (q.rule nested)
  | _, .orElse p q => (p.rule nested).orElse (q.rule nested)
  | _, .optional p => (p.rule nested).optional
  | _, .padded p => Rule.padded (p.rule nested)
  | _, .many p => (p.rule nested).many
  | _, .separated₁ item separator => Rule.separated₁ (item.rule nested) (separator.rule nested)
  | _, .list item separator => Rule.list (item.rule nested) (separator.rule nested)
  | _, .list₁ item separator => Rule.list₁ (item.rule nested) (separator.rule nested)

def eats : {α : Type} → Scheme α → Bool
  | _, .nested _ | _, .word _ _ _ => true
  | _, .glance _ _ | _, .optional _ | _, .many _ | _, .list _ _ => false
  | _, .map _ p | _, .padded p => p.eats
  | _, .andThen p q => p.eats || q.eats
  | _, .orElse p q => p.eats && q.eats
  | _, .separated₁ item _ | _, .list₁ item _ => item.eats

def asksFirst (spot : Spot) : {α : Type} → Scheme α → Bool
  | _, .nested other => other == spot
  | _, .word _ _ _ | _, .glance _ _ => false
  | _, .map _ p | _, .optional p | _, .padded p | _, .many p => p.asksFirst spot
  | _, .andThen p q => p.asksFirst spot || !p.eats && q.asksFirst spot
  | _, .orElse p q => p.asksFirst spot || q.asksFirst spot
  | _, .separated₁ item separator | _, .list item separator | _, .list₁ item separator =>
    item.asksFirst spot || separator.asksFirst spot

def steady : {α : Type} → Scheme α → Bool
  | _, .nested _ | _, .word _ _ _ | _, .glance _ _ => true
  | _, .map _ p | _, .optional p | _, .padded p => p.steady
  | _, .andThen p q | _, .orElse p q => p.steady && q.steady
  | _, .many p => p.eats && p.steady
  | _, .separated₁ item separator | _, .list item separator | _, .list₁ item separator =>
    item.eats && item.steady && separator.steady

variable {nested nested' : Spot → Rule Ty}

theorem forward_rule (tells : ∀ spot, Forward (nested spot)) (p : Scheme α) :
    Forward (p.rule nested) := by
  induction p with
  | nested spot => exact tells spot
  | word p tells eats => exact tells
  | glance p tells => exact tells
  | map f p ih => exact Forward.map f
  | andThen p q hp hq => exact Forward.andThen
  | orElse p q hp hq => exact Forward.orElse
  | optional p ih => exact Forward.optional
  | padded p ih => exact Forward.padded
  | many p ih => exact Forward.many
  | separated₁ item separator hi hs => exact Forward.separated₁
  | list item separator hi hs => exact Forward.list
  | list₁ item separator hi hs => exact Forward.list₁

/-- The form does not promise too much. -/
theorem eats_rule (tells : ∀ spot, Forward (nested spot)) (shorter : ∀ spot, Eats (nested spot))
    (p : Scheme α) (h : p.eats = true) : Eats (p.rule nested) := by
  have forward {γ : Type} (p : Scheme γ) : Forward (p.rule nested) := forward_rule tells p
  induction p with
  | nested spot => exact shorter spot
  | word p tells eats => exact eats
  | glance p tells => cases h
  | map f p ih => exact (ih h).map f
  | andThen p q hp hq =>
    have := forward p
    have := forward q
    exact Eats.andThen ((Bool.or_eq_true_iff.1 h).imp hp hq)
  | orElse p q hp hq =>
    obtain ⟨first, second⟩ := (Bool.and_eq_true_iff).1 h
    exact (hp first).orElse (hq second)
  | optional p ih => cases h
  | padded p ih => exact (ih h).padded
  | many p ih => cases h
  | separated₁ item separator hi hs =>
    have := forward item
    have := forward separator
    exact (hi h).separated₁
  | list item separator hi hs => cases h
  | list₁ item separator hi hs =>
    have := forward item
    have := forward separator
    exact (hi h).list₁

end Scheme

/- Rules that agree on all that is left of a text repeat alike. -/

section Repeated

open Rule

theorem closeList_congr {q q' : Rule β} {last : Cursor} (same : q last = q' last)
    (items : List α) (hint : Option Failure) (ended : Failure) :
    closeList q items last hint ended = closeList q' items last hint ended := by
  rw [closeList, closeList, same]

variable {n : Nat} {c : Cursor} {p p' : Rule α} {q q' : Rule β} [Forward p] [Forward q]

theorem manyUpTo_congr (same : ∀ c : Cursor, c.rest.length ≤ n → p c = p' c) (k : Nat)
    (within : c.rest.length ≤ n) (hint : Option Failure) :
    manyUpTo p k c hint = manyUpTo p' k c hint := by
  induction k generalizing c hint with
  | zero => rfl
  | succ k ih =>
    rw [manyUpTo, manyUpTo, ← same c within]
    cases first : p c with
    | fail e => rfl
    | ok a c₁ hint₁ =>
      have behind := Forward.length_le (p := p) (congrArg Outcome.result? first)
      simp only [ih (Nat.le_trans behind within)]

theorem pairsUpTo_congr (same : ∀ c : Cursor, c.rest.length ≤ n → p c = p' c)
    (same' : ∀ c : Cursor, c.rest.length ≤ n → q c = q' c) (k : Nat)
    (within : c.rest.length ≤ n) (hint : Option Failure) :
    pairsUpTo p q k c hint = pairsUpTo p' q' k c hint := by
  induction k generalizing c hint with
  | zero => rfl
  | succ k ih =>
    rw [pairsUpTo, pairsUpTo, ← same' c within]
    cases first : q c with
    | fail e => rfl
    | ok b c₁ hint₁ =>
      have behind := Forward.length_le (p := q) (congrArg Outcome.result? first)
      dsimp only
      rw [← same c₁ (Nat.le_trans behind within)]
      cases second : p c₁ with
      | fail e => rfl
      | ok a c₂ hint₂ =>
        have further := Forward.length_le (p := p) (congrArg Outcome.result? second)
        simp only [ih (Nat.le_trans further (Nat.le_trans behind within))]

theorem series_congr (same : ∀ c : Cursor, c.rest.length ≤ n → p c = p' c)
    (same' : ∀ c : Cursor, c.rest.length ≤ n → q c = q' c) (within : c.rest.length ≤ n) :
    series p q c = series p' q' c := by
  rw [series, series, ← same c within]
  cases first : p c with
  | fail e => rfl
  | ok a c₁ hint =>
    have behind := Forward.length_le (p := p) (congrArg Outcome.result? first)
    simp only [pairsUpTo_congr same same' _ (Nat.le_trans behind within)]

theorem length_cursor_series_le (c : Cursor) :
    (series p q c).cursor.rest.length ≤ c.rest.length :=
  (Forward.series c).onto.length_le

theorem separated₁_congr (same : ∀ c : Cursor, c.rest.length ≤ n → p c = p' c)
    (same' : ∀ c : Cursor, c.rest.length ≤ n → q c = q' c) (within : c.rest.length ≤ n) :
    separated₁ p q c = separated₁ p' q' c := by
  rw [separated₁, separated₁, series_congr same same' within]

theorem list_congr (same : ∀ c : Cursor, c.rest.length ≤ n → p c = p' c)
    (same' : ∀ c : Cursor, c.rest.length ≤ n → q c = q' c) (within : c.rest.length ≤ n) :
    list p q c = list p' q' c := by
  have behind := Nat.le_trans (length_cursor_series_le (p := p) (q := q) c) within
  rw [list, list, ← series_congr same same' within]
  generalize series p q c = s at behind ⊢
  obtain ⟨items, last, hint, ended⟩ := s
  cases items with
  | nil => rfl
  | cons a as => exact closeList_congr (same' last behind) ..

theorem list₁_congr (same : ∀ c : Cursor, c.rest.length ≤ n → p c = p' c)
    (same' : ∀ c : Cursor, c.rest.length ≤ n → q c = q' c) (within : c.rest.length ≤ n) :
    list₁ p q c = list₁ p' q' c := by
  have behind := Nat.le_trans (length_cursor_series_le (p := p) (q := q) c) within
  rw [list₁, list₁, ← series_congr same same' within]
  generalize series p q c = s at behind ⊢
  obtain ⟨items, last, hint, ended⟩ := s
  cases items with
  | nil => rfl
  | cons a as => exact closeList_congr (same' last behind) ..

end Repeated

namespace Scheme

variable {nested nested' : Spot → Rule Ty} {first first' : Spot → Bool} {m n : Nat}

/-- Two ways of reading types agree behind the last `n` characters of a text, and right in front of
them for some spots. -/
def AgreeOn (nested nested' : Spot → Rule Ty) (n : Nat) (first : Spot → Bool) : Prop :=
  ∀ (spot : Spot) (c : Cursor), c.rest.length < n ∨ c.rest.length = n ∧ first spot = true →
    nested spot c = nested' spot c

theorem AgreeOn.mono (h : AgreeOn nested nested' n first)
    (fewer : ∀ spot, first' spot = true → first spot = true) : AgreeOn nested nested' n first' :=
  fun spot c place => h spot c (place.imp_right fun ⟨equal, asked⟩ => ⟨equal, fewer spot asked⟩)

theorem AgreeOn.behind (h : AgreeOn nested nested' n first) (less : m < n) :
    AgreeOn nested nested' m first' :=
  fun spot c place => h spot c (.inl (by omega))

/-- A rule is the same for two ways of reading types that agree wherever it may ask for a type: on
all that is left behind a character, and at its own place for the spots that it asks for first. -/
theorem rule_congr (tells : ∀ spot, Forward (nested spot)) (shorter : ∀ spot, Eats (nested spot))
    (p : Scheme α) {n : Nat} {c : Cursor} (within : c.rest.length ≤ n)
    (same : AgreeOn nested nested' n fun spot => p.asksFirst spot) :
    p.rule nested c = p.rule nested' c := by
  have forward {γ : Type} (p : Scheme γ) : Forward (p.rule nested) := forward_rule tells p
  induction p generalizing n c with
  | nested spot =>
    refine same spot c ((Nat.lt_or_eq_of_le within).imp_right fun equal => ⟨equal, ?_⟩)
    simp [asksFirst]
  | word p tells eats => rfl
  | glance p tells => rfl
  | map f p ih => rw [rule, rule, Rule.map, Rule.map, ih within same]
  | andThen p q hp hq =>
    have left : p.rule nested c = p.rule nested' c :=
      hp within (same.mono fun spot asks => by simp [asksFirst, asks])
    rw [rule, rule, Rule.andThen, Rule.andThen, ← left]
    cases outcome : p.rule nested c with
    | fail e => rfl
    | ok a c₁ hint =>
      have read : (p.rule nested c).result? = some (a, c₁) := congrArg Outcome.result? outcome
      have right : q.rule nested c₁ = q.rule nested' c₁ := by
        cases eats : p.eats with
        | true =>
          have less := eats_rule tells shorter p eats read
          exact hq (Nat.le_refl _) (same.behind (Nat.lt_of_lt_of_le less within))
        | false =>
          have := forward p
          exact hq (Nat.le_trans (Forward.length_le read) within)
            (same.mono fun spot asks => by simp [asksFirst, asks, eats])
      simp only [right]
  | orElse p q hp hq =>
    rw [rule, rule, Rule.orElse, Rule.orElse,
      hp within (same.mono fun spot asks => by simp [asksFirst, asks]),
      hq within (same.mono fun spot asks => by simp [asksFirst, asks])]
  | optional p ih => rw [rule, rule, Rule.optional, Rule.optional, ih within same]
  | padded p ih =>
    have skipped := (c.reads_skipWhile Text.isBlank).onto.length_le
    rw [rule, rule, Rule.padded, Rule.padded, ih (Nat.le_trans skipped within) same]
  | many p ih =>
    have := forward p
    rw [rule, rule, Rule.many, Rule.many,
      manyUpTo_congr (fun c within => ih within same) _ within]
  | separated₁ item separator hi hs | list item separator hi hs | list₁ item separator hi hs =>
    have := forward item
    have := forward separator
    have items (c : Cursor) (within : c.rest.length ≤ n) :
        item.rule nested c = item.rule nested' c :=
      hi within (same.mono fun spot asks => by simp [asksFirst, asks])
    have separators (c : Cursor) (within : c.rest.length ≤ n) :
        separator.rule nested c = separator.rule nested' c :=
      hs within (same.mono fun spot asks => by simp [asksFirst, asks])
    first
      | exact separated₁_congr items separators within
      | exact list_congr items separators within
      | exact list₁_congr items separators within

end Scheme

end ImplFamilies.Grammar
