import ImplFamilies.Proofs.Grammar.Lexeme

/-!
Readers: rules over lexemes. They keep no record of failures, so what they read can be told by
equations. A reader of nested types is used on less input than the reader it is part of, so two
readers are compared on inputs below a bound.
-/

namespace ImplFamilies.Grammar

abbrev Reader (α : Type) := List Lexeme → Option (α × List Lexeme)

namespace Reader

variable {α β : Type}

def map (f : α → β) (p : Reader α) : Reader β := fun ts =>
  match p ts with
  | some (a, rest) => some (f a, rest)
  | none => none

def andThen (p : Reader α) (q : Reader β) : Reader (α × β) := fun ts =>
  match p ts with
  | none => none
  | some (a, mid) =>
    match q mid with
    | some (b, rest) => some ((a, b), rest)
    | none => none

def keepLeft (p : Reader α) (q : Reader β) : Reader α :=
  (p.andThen q).map Prod.fst

def keepRight (p : Reader α) (q : Reader β) : Reader β :=
  (p.andThen q).map Prod.snd

def orElse (p q : Reader α) : Reader α := fun ts =>
  match p ts with
  | some found => some found
  | none => q ts

def optional (p : Reader α) : Reader (Option α) := fun ts =>
  match p ts with
  | some (a, rest) => some (some a, rest)
  | none => some (none, ts)

def peek (p : Reader α) : Reader α := fun ts =>
  match p ts with
  | some (a, _) => some (a, ts)
  | none => none

def mark (text : String) : Reader Unit
  | .mark t :: ts => if t = text then some ((), ts) else none
  | _ => none

def keyword (text : String) : Reader Unit
  | .word t :: ts => if t = text then some ((), ts) else none
  | _ => none

def between (opening closing : String) (p : Reader α) : Reader α :=
  ((mark opening).keepRight p).keepLeft (mark closing)

def pairsUpTo (item : Reader α) (separator : String) : Nat → List Lexeme → List α × List Lexeme
  | 0, ts => ([], ts)
  | n + 1, ts =>
    match (mark separator).keepRight item ts with
    | none => ([], ts)
    | some (a, mid) =>
      match pairsUpTo item separator n mid with
      | (as, last) => (a :: as, last)

def series (item : Reader α) (separator : String) (ts : List Lexeme) : List α × List Lexeme :=
  match item ts with
  | none => ([], ts)
  | some (a, mid) =>
    match pairsUpTo item separator (mid.length + 1) mid with
    | (as, last) => (a :: as, last)

def separated₁ (item : Reader α) (separator : String) : Reader (List α) := fun ts =>
  match series item separator ts with
  | ([], _) => none
  | (a :: as, last) => some (a :: as, last)

def skipMark (separator : String) (ts : List Lexeme) : List Lexeme :=
  match mark separator ts with
  | some (_, rest) => rest
  | none => ts

def list (item : Reader α) (separator : String) : Reader (List α) := fun ts =>
  match series item separator ts with
  | ([], last) => some ([], last)
  | (a :: as, last) => some (a :: as, skipMark separator last)

def list₁ (item : Reader α) (separator : String) : Reader (List α) := fun ts =>
  match series item separator ts with
  | ([], _) => none
  | (a :: as, last) => some (a :: as, skipMark separator last)

/- Inputs that come out of a text. -/

def AllFormed (ts : List Lexeme) : Prop :=
  ∀ l ∈ ts, l.Formed

section Formed

variable {ts us : List Lexeme}

theorem allFormed_lexemes (cs : List Char) : AllFormed (lexemes cs) :=
  fun _ mem => formed_of_mem_lexemes mem

theorem AllFormed.cons {l : Lexeme} (first : l.Formed) (others : AllFormed ts) :
    AllFormed (l :: ts) :=
  List.forall_mem_cons.2 ⟨first, others⟩

theorem AllFormed.mark (text : String) (others : AllFormed ts) : AllFormed (.mark text :: ts) :=
  others.cons trivial

theorem AllFormed.append (h : AllFormed ts) (others : AllFormed us) : AllFormed (ts ++ us) :=
  List.forall_mem_append.2 ⟨h, others⟩

theorem AllFormed.tail {l : Lexeme} (h : AllFormed (l :: ts)) : AllFormed ts :=
  (List.forall_mem_cons.1 h).2

theorem AllFormed.suffix (h : AllFormed ts) (behind : us <:+ ts) : AllFormed us :=
  fun l mem => h l (behind.subset mem)

end Formed

/- What a reader has read, when it has read something. -/

variable {p : Reader α} {q : Reader β} {ts rest : List Lexeme}

theorem map_eq_some {f : α → β} {b : β} :
    p.map f ts = some (b, rest) ↔ ∃ a, p ts = some (a, rest) ∧ f a = b := by
  unfold map
  cases p ts with
  | none => simp
  | some found =>
    obtain ⟨a, mid⟩ := found
    simp only [Option.some.injEq, Prod.mk.injEq]
    constructor
    · rintro ⟨rfl, rfl⟩
      exact ⟨a, ⟨rfl, rfl⟩, rfl⟩
    · rintro ⟨_, ⟨rfl, rfl⟩, rfl⟩
      exact ⟨rfl, rfl⟩

theorem map_eq_none {f : α → β} : p.map f ts = none ↔ p ts = none := by
  unfold map
  cases p ts <;> simp

theorem andThen_eq_some {a : α} {b : β} :
    p.andThen q ts = some ((a, b), rest) ↔
      ∃ mid, p ts = some (a, mid) ∧ q mid = some (b, rest) := by
  unfold andThen
  cases p ts with
  | none => simp
  | some found =>
    obtain ⟨c, mid⟩ := found
    constructor
    · intro e
      cases h : q mid with
      | none => simp [h] at e
      | some last =>
        simp only [h, Option.some.injEq, Prod.mk.injEq] at e
        obtain ⟨⟨rfl, rfl⟩, rfl⟩ := e
        exact ⟨mid, rfl, h⟩
    · rintro ⟨_, e, h⟩
      obtain ⟨rfl, rfl⟩ := Prod.mk.inj (Option.some.inj e)
      simp only [h]

theorem keepLeft_eq_some {a : α} :
    p.keepLeft q ts = some (a, rest) ↔
      ∃ mid b, p ts = some (a, mid) ∧ q mid = some (b, rest) := by
  rw [keepLeft, map_eq_some]
  constructor
  · rintro ⟨⟨a, b⟩, h, rfl⟩
    obtain ⟨mid, hp, hq⟩ := andThen_eq_some.1 h
    exact ⟨mid, b, hp, hq⟩
  · rintro ⟨mid, b, hp, hq⟩
    exact ⟨(a, b), andThen_eq_some.2 ⟨mid, hp, hq⟩, rfl⟩

theorem keepRight_eq_some {b : β} :
    p.keepRight q ts = some (b, rest) ↔
      ∃ mid a, p ts = some (a, mid) ∧ q mid = some (b, rest) := by
  rw [keepRight, map_eq_some]
  constructor
  · rintro ⟨⟨a, b⟩, h, rfl⟩
    obtain ⟨mid, hp, hq⟩ := andThen_eq_some.1 h
    exact ⟨mid, a, hp, hq⟩
  · rintro ⟨mid, a, hp, hq⟩
    exact ⟨(a, b), andThen_eq_some.2 ⟨mid, hp, hq⟩, rfl⟩

theorem keepRight_eq_none (h : p ts = none) : p.keepRight q ts = none := by
  simp only [keepRight, map, andThen, h]

theorem orElse_eq_some {p q : Reader α} {a : α} :
    p.orElse q ts = some (a, rest) ↔
      p ts = some (a, rest) ∨ (p ts = none ∧ q ts = some (a, rest)) := by
  unfold orElse
  cases p ts <;> simp

theorem orElse_of_none {p q : Reader α} (h : p ts = none) : p.orElse q ts = q ts := by
  simp only [orElse, h]

theorem optional_eq_some {o : Option α} :
    p.optional ts = some (o, rest) ↔
      (∃ a, o = some a ∧ p ts = some (a, rest)) ∨ (o = none ∧ p ts = none ∧ rest = ts) := by
  unfold optional
  cases p ts with
  | none => simp [eq_comm]
  | some found =>
    obtain ⟨a, mid⟩ := found
    simp only [Option.some.injEq, Prod.mk.injEq, reduceCtorEq, false_and, and_false, or_false]
    constructor
    · rintro ⟨rfl, rfl⟩
      exact ⟨a, rfl, rfl, rfl⟩
    · rintro ⟨_, rfl, rfl, rfl⟩
      exact ⟨rfl, rfl⟩

theorem peek_eq_some {a : α} :
    p.peek ts = some (a, rest) ↔ (∃ mid, p ts = some (a, mid)) ∧ rest = ts := by
  unfold peek
  cases p ts with
  | none => simp
  | some found =>
    obtain ⟨b, mid⟩ := found
    simp [eq_comm]

theorem mark_eq_some {text : String} {u : Unit} :
    mark text ts = some (u, rest) ↔ ts = .mark text :: rest := by
  match ts with
  | [] | .word _ :: _ | .lifetime _ :: _ => simp [mark]
  | .mark t :: ts =>
    by_cases h : t = text <;> simp [mark, h]

theorem mark_cons (text : String) (ts : List Lexeme) :
    mark text (.mark text :: ts) = some ((), ts) :=
  mark_eq_some.2 rfl

theorem keyword_eq_some {text : String} {u : Unit} :
    keyword text ts = some (u, rest) ↔ ts = .word text :: rest := by
  match ts with
  | [] | .mark _ :: _ | .lifetime _ :: _ => simp [keyword]
  | .word t :: ts =>
    by_cases h : t = text <;> simp [keyword, h]

theorem between_eq_some {opening closing : String} {a : α} :
    between opening closing p ts = some (a, rest) ↔
      ∃ inner, ts = .mark opening :: inner ∧ p inner = some (a, .mark closing :: rest) := by
  simp only [between, keepLeft_eq_some, keepRight_eq_some, mark_eq_some]
  constructor
  · rintro ⟨_, _, ⟨inner, _, h, hp⟩, rfl⟩
    exact ⟨inner, h, hp⟩
  · rintro ⟨inner, h, hp⟩
    exact ⟨_, (), ⟨inner, (), h, hp⟩, rfl⟩

/- Readers that never give back more than they were given. -/

def Shrinks (p : Reader α) : Prop :=
  ∀ ⦃ts a rest⦄, p ts = some (a, rest) → rest <:+ ts

def Consumes (p : Reader α) : Prop :=
  ∀ ⦃ts a rest⦄, p ts = some (a, rest) → rest <:+ ts ∧ rest.length < ts.length

theorem Consumes.shrinks (h : Consumes p) : Shrinks p :=
  fun _ _ _ e => (h e).1

theorem Shrinks.map {f : α → β} (h : Shrinks p) : Shrinks (p.map f) := by
  intro ts b rest e
  obtain ⟨a, ha, _⟩ := map_eq_some.1 e
  exact h ha

theorem Consumes.map {f : α → β} (h : Consumes p) : Consumes (p.map f) := by
  intro ts b rest e
  obtain ⟨a, ha, _⟩ := map_eq_some.1 e
  exact h ha

theorem Shrinks.andThen (hp : Shrinks p) (hq : Shrinks q) : Shrinks (p.andThen q) := by
  rintro ts ⟨a, b⟩ rest e
  obtain ⟨mid, ha, hb⟩ := andThen_eq_some.1 e
  exact (hq hb).trans (hp ha)

theorem Consumes.andThen (hp : Consumes p) (hq : Shrinks q) : Consumes (p.andThen q) := by
  rintro ts ⟨a, b⟩ rest e
  obtain ⟨mid, ha, hb⟩ := andThen_eq_some.1 e
  have shorter := (hq hb).length_le
  exact ⟨(hq hb).trans (hp ha).1, Nat.lt_of_le_of_lt shorter (hp ha).2⟩

theorem Shrinks.andThen_consumes (hp : Shrinks p) (hq : Consumes q) :
    Consumes (p.andThen q) := by
  rintro ts ⟨a, b⟩ rest e
  obtain ⟨mid, ha, hb⟩ := andThen_eq_some.1 e
  have shorter := (hp ha).length_le
  exact ⟨(hq hb).1.trans (hp ha), Nat.lt_of_lt_of_le (hq hb).2 shorter⟩

theorem Shrinks.orElse {p q : Reader α} (hp : Shrinks p) (hq : Shrinks q) :
    Shrinks (p.orElse q) := by
  intro ts a rest e
  rcases orElse_eq_some.1 e with h | ⟨_, h⟩
  · exact hp h
  · exact hq h

theorem Consumes.orElse {p q : Reader α} (hp : Consumes p) (hq : Consumes q) :
    Consumes (p.orElse q) := by
  intro ts a rest e
  rcases orElse_eq_some.1 e with h | ⟨_, h⟩
  · exact hp h
  · exact hq h

theorem Shrinks.optional (hp : Shrinks p) : Shrinks p.optional := by
  intro ts o rest e
  rcases optional_eq_some.1 e with ⟨a, _, h⟩ | ⟨_, _, rfl⟩
  · exact hp h
  · exact List.suffix_refl _

theorem Shrinks.peek : Shrinks p.peek := by
  intro ts a rest e
  obtain ⟨_, rfl⟩ := peek_eq_some.1 e
  exact List.suffix_refl _

theorem Consumes.mark (text : String) : Consumes (Reader.mark text) := by
  intro ts u rest e
  obtain rfl := mark_eq_some.1 e
  exact ⟨List.suffix_cons _ _, Nat.lt_succ_self _⟩

theorem Consumes.keyword (text : String) : Consumes (Reader.keyword text) := by
  intro ts u rest e
  obtain rfl := keyword_eq_some.1 e
  exact ⟨List.suffix_cons _ _, Nat.lt_succ_self _⟩

/- Lists with a separator between neighbours. -/

inductive Pairs (item : Reader α) (separator : String) :
    List Lexeme → List α → List Lexeme → Prop
  | stop {ts : List Lexeme} (ended : (Reader.mark separator).keepRight item ts = none) :
      Pairs item separator ts [] ts
  | next {ts mid last : List Lexeme} {a : α} {as : List α} (first : item ts = some (a, mid))
      (more : Pairs item separator mid as last) :
      Pairs item separator (.mark separator :: ts) (a :: as) last

variable {item : Reader α} {separator : String}

theorem keepRight_mark_eq_some {a : α} :
    (Reader.mark separator).keepRight item ts = some (a, rest) ↔
      ∃ mid, ts = .mark separator :: mid ∧ item mid = some (a, rest) := by
  simp [keepRight_eq_some, mark_eq_some]

theorem keepRight_mark_cons (ts : List Lexeme) :
    (Reader.mark separator).keepRight item (.mark separator :: ts) = item ts := by
  cases h : item ts with
  | none =>
    cases h' : (Reader.mark separator).keepRight item (.mark separator :: ts) with
    | none => rfl
    | some found =>
      obtain ⟨mid, e, h''⟩ := keepRight_mark_eq_some.1 h'
      obtain rfl := (List.cons.inj e).2
      exact nomatch h.symm.trans h''
  | some found => exact keepRight_mark_eq_some.2 ⟨ts, rfl, h⟩

theorem pairsUpTo_spec (shrinks : Shrinks item) {n : Nat} (h : ts.length < n) :
    Pairs item separator ts (pairsUpTo item separator n ts).1
      (pairsUpTo item separator n ts).2 := by
  induction n generalizing ts with
  | zero => exact absurd h (Nat.not_lt_zero _)
  | succ n ih =>
    unfold pairsUpTo
    cases e : (Reader.mark separator).keepRight item ts with
    | none => exact .stop e
    | some found =>
      obtain ⟨a, mid⟩ := found
      obtain ⟨inner, rfl, first⟩ := keepRight_mark_eq_some.1 e
      have shorter := (shrinks first).length_le
      rw [List.length_cons] at h
      exact .next first (ih (by omega))

theorem Pairs.unique {as bs : List α} {last end_ : List Lexeme}
    (h₁ : Pairs item separator ts as last) (h₂ : Pairs item separator ts bs end_) :
    as = bs ∧ last = end_ := by
  induction h₁ generalizing bs end_ with
  | stop ended =>
    cases h₂ with
    | stop _ => exact ⟨rfl, rfl⟩
    | next first more =>
      rw [keepRight_mark_cons] at ended
      exact nomatch ended.symm.trans first
  | next first more ih =>
    cases h₂ with
    | stop ended =>
      rw [keepRight_mark_cons] at ended
      exact nomatch ended.symm.trans first
    | next first' more' =>
      obtain ⟨rfl, rfl⟩ := Prod.mk.inj (Option.some.inj (first.symm.trans first'))
      obtain ⟨rfl, rfl⟩ := ih more'
      exact ⟨rfl, rfl⟩

theorem Pairs.suffix (shrinks : Shrinks item) {as : List α}
    (h : Pairs item separator ts as rest) : rest <:+ ts := by
  induction h with
  | stop ended => exact List.suffix_refl _
  | next first more ih => exact (ih.trans (shrinks first)).trans (List.suffix_cons _ _)

theorem Pairs.ended {as : List α} (h : Pairs item separator ts as rest) :
    (Reader.mark separator).keepRight item rest = none := by
  induction h with
  | stop ended => exact ended
  | next first more ih => exact ih

def Row (item : Reader α) (separator : String) (ts : List Lexeme) (as : List α)
    (last : List Lexeme) : Prop :=
  ∃ a bs mid, as = a :: bs ∧ item ts = some (a, mid) ∧ Pairs item separator mid bs last

theorem series_of_none (h : item ts = none) : series item separator ts = ([], ts) := by
  simp only [series, h]

theorem series_spec (shrinks : Shrinks item) {a : α} {mid : List Lexeme}
    (h : item ts = some (a, mid)) :
    ∃ bs last, series item separator ts = (a :: bs, last) ∧ Pairs item separator mid bs last := by
  simp only [series, h]
  exact ⟨_, _, rfl, pairsUpTo_spec shrinks (Nat.lt_succ_self _)⟩

theorem separated₁_eq_some (shrinks : Shrinks item) {as : List α} :
    separated₁ item separator ts = some (as, rest) ↔ Row item separator ts as rest := by
  unfold separated₁ Row
  cases h : item ts with
  | none => simp [series_of_none h]
  | some found =>
    obtain ⟨a, mid⟩ := found
    obtain ⟨bs, last, e, pairs⟩ := series_spec shrinks h
    rw [e]
    constructor
    · intro found
      obtain ⟨rfl, rfl⟩ := Prod.mk.inj (Option.some.inj found)
      exact ⟨a, bs, mid, rfl, rfl, pairs⟩
    · rintro ⟨_, cs, _, rfl, found, pairs'⟩
      obtain ⟨rfl, rfl⟩ := Prod.mk.inj (Option.some.inj found)
      obtain ⟨rfl, rfl⟩ := pairs.unique pairs'
      rfl

theorem separated₁_eq_none : separated₁ item separator ts = none ↔ item ts = none := by
  unfold separated₁ series
  cases item ts <;> simp

theorem list₁_eq_some (shrinks : Shrinks item) {as : List α} :
    list₁ item separator ts = some (as, rest) ↔
      ∃ last, Row item separator ts as last ∧ rest = skipMark separator last := by
  unfold list₁ Row
  cases h : item ts with
  | none => simp [series_of_none h]
  | some found =>
    obtain ⟨a, mid⟩ := found
    obtain ⟨bs, last, e, pairs⟩ := series_spec shrinks h
    rw [e]
    constructor
    · intro found
      obtain ⟨rfl, rfl⟩ := Prod.mk.inj (Option.some.inj found)
      exact ⟨last, ⟨a, bs, mid, rfl, rfl, pairs⟩, rfl⟩
    · rintro ⟨_, ⟨_, cs, _, rfl, found, pairs'⟩, rfl⟩
      obtain ⟨rfl, rfl⟩ := Prod.mk.inj (Option.some.inj found)
      obtain ⟨rfl, rfl⟩ := pairs.unique pairs'
      rfl

theorem list₁_eq_none : list₁ item separator ts = none ↔ item ts = none := by
  unfold list₁ series
  cases item ts <;> simp

theorem list_of_none (h : item ts = none) : list item separator ts = some ([], ts) := by
  simp only [list, series_of_none h]

theorem list_of_some {found : α × List Lexeme} (h : item ts = some found) :
    list item separator ts = list₁ item separator ts := by
  obtain ⟨a, mid⟩ := found
  unfold list list₁ series
  simp only [h]

theorem list_eq_some (shrinks : Shrinks item) {as : List α} :
    list item separator ts = some (as, rest) ↔
      (as = [] ∧ item ts = none ∧ rest = ts) ∨
        ∃ last, Row item separator ts as last ∧ rest = skipMark separator last := by
  cases h : item ts with
  | none => simp [list_of_none h, Row, h, eq_comm]
  | some found =>
    rw [list_of_some h, list₁_eq_some shrinks]
    simp

theorem Row.suffix (shrinks : Shrinks item) {as : List α}
    (h : Row item separator ts as rest) : rest <:+ ts := by
  obtain ⟨a, bs, mid, _, first, pairs⟩ := h
  exact (pairs.suffix shrinks).trans (shrinks first)

theorem skipMark_suffix (ts : List Lexeme) : skipMark separator ts <:+ ts := by
  unfold skipMark
  cases h : Reader.mark separator ts with
  | none => exact List.suffix_refl _
  | some found => exact (Consumes.mark separator h).1

theorem Consumes.separated₁ (consumes : Consumes item) :
    Consumes (Reader.separated₁ item separator) := by
  intro ts as rest h
  obtain ⟨a, bs, mid, _, first, pairs⟩ := (separated₁_eq_some consumes.shrinks).1 h
  have shorter := (pairs.suffix consumes.shrinks).length_le
  exact ⟨(pairs.suffix consumes.shrinks).trans (consumes first).1,
    Nat.lt_of_le_of_lt shorter (consumes first).2⟩

theorem Shrinks.list₁ (shrinks : Shrinks item) : Shrinks (list₁ item separator) := by
  intro ts as rest h
  obtain ⟨last, row, rfl⟩ := (list₁_eq_some shrinks).1 h
  exact (skipMark_suffix last).trans (row.suffix shrinks)

theorem Shrinks.list (shrinks : Shrinks item) : Shrinks (Reader.list item separator) := by
  intro ts as rest h
  rcases (list_eq_some shrinks).1 h with ⟨_, _, rfl⟩ | ⟨last, row, rfl⟩
  · exact List.suffix_refl _
  · exact (skipMark_suffix last).trans (row.suffix shrinks)

theorem Consumes.between {opening closing : String} (h : Shrinks p) :
    Consumes (Reader.between opening closing p) :=
  (((Consumes.mark opening).andThen h).map.andThen (Consumes.mark closing).shrinks).map

/- Readers that do the same on like inputs. -/

inductive SameOutcome (S : List Lexeme → List Lexeme → Prop) :
    Option (α × List Lexeme) → Option (α × List Lexeme) → Prop
  | fail : SameOutcome S none none
  | read {a : α} {ts us : List Lexeme} (left : S ts us) :
      SameOutcome S (some (a, ts)) (some (a, us))

/-- On short inputs of the first relation, with rests of the second. -/
def RelatedBelow (k : Nat) (R S : List Lexeme → List Lexeme → Prop) (p p' : Reader α) : Prop :=
  ∀ ⦃ts us⦄, ts.length < k → us.length < k → R ts us → SameOutcome S (p ts) (p' us)

variable {k : Nat} {R S T : List Lexeme → List Lexeme → Prop} {p' : Reader α} {q' : Reader β}

theorem sameOutcome_eq_iff {x y : Option (α × List Lexeme)} : SameOutcome Eq x y ↔ x = y := by
  constructor
  · rintro (_ | ⟨⟨⟩⟩) <;> rfl
  · rintro rfl
    cases x with
    | none => exact .fail
    | some found => exact .read rfl

theorem SameOutcome.elim {x y : Option (α × List Lexeme)} (h : SameOutcome S x y) :
    (x = none ∧ y = none) ∨ ∃ a ts us, x = some (a, ts) ∧ y = some (a, us) ∧ S ts us := by
  cases h with
  | fail => exact .inl ⟨rfl, rfl⟩
  | read left => exact .inr ⟨_, _, _, rfl, rfl, left⟩

theorem RelatedBelow.pred (h : RelatedBelow (k + 1) R S p p') : RelatedBelow k R S p p' :=
  fun _ _ short short' => h (Nat.lt_succ_of_lt short) (Nat.lt_succ_of_lt short')

theorem RelatedBelow.map {f : α → β} (h : RelatedBelow k R S p p') :
    RelatedBelow k R S (p.map f) (p'.map f) := by
  intro ts us short short' like
  rcases (h short short' like).elim with ⟨e, e'⟩ | ⟨a, r, r', e, e', left⟩
  · simp only [Reader.map, e, e']
    exact .fail
  · simp only [Reader.map, e, e']
    exact .read left

theorem RelatedBelow.andThen (shrinks : Shrinks p) (shrinks' : Shrinks p')
    (hp : RelatedBelow k R S p p') (hq : RelatedBelow k S T q q') :
    RelatedBelow k R T (p.andThen q) (p'.andThen q') := by
  intro ts us short short' like
  rcases (hp short short' like).elim with ⟨e, e'⟩ | ⟨a, r, r', e, e', left⟩
  · simp only [Reader.andThen, e, e']
    exact .fail
  have shorter := (shrinks e).length_le
  have shorter' := (shrinks' e').length_le
  rcases (hq (by omega) (by omega) left).elim with ⟨e₂, e₂'⟩ | ⟨b, s, s', e₂, e₂', left⟩
  · simp only [Reader.andThen, e, e', e₂, e₂']
    exact .fail
  · simp only [Reader.andThen, e, e', e₂, e₂']
    exact .read left

/-- What comes behind a lexeme is met on shorter inputs. -/
theorem RelatedBelow.andThen_consumes (consumes : Consumes p) (consumes' : Consumes p')
    (hp : RelatedBelow (k + 1) R S p p') (hq : RelatedBelow k S T q q') :
    RelatedBelow (k + 1) R T (p.andThen q) (p'.andThen q') := by
  intro ts us short short' like
  rcases (hp short short' like).elim with ⟨e, e'⟩ | ⟨a, r, r', e, e', left⟩
  · simp only [Reader.andThen, e, e']
    exact .fail
  have shorter := (consumes e).2
  have shorter' := (consumes' e').2
  rcases (hq (by omega) (by omega) left).elim with ⟨e₂, e₂'⟩ | ⟨b, s, s', e₂, e₂', left⟩
  · simp only [Reader.andThen, e, e', e₂, e₂']
    exact .fail
  · simp only [Reader.andThen, e, e', e₂, e₂']
    exact .read left

theorem RelatedBelow.orElse {q q' : Reader α} (hp : RelatedBelow k R S p p')
    (hq : RelatedBelow k R S q q') : RelatedBelow k R S (p.orElse q) (p'.orElse q') := by
  intro ts us short short' like
  rcases (hp short short' like).elim with ⟨e, e'⟩ | ⟨a, r, r', e, e', left⟩
  · simp only [Reader.orElse, e, e']
    exact hq short short' like
  · simp only [Reader.orElse, e, e']
    exact .read left

theorem RelatedBelow.optional (h : RelatedBelow k R R p p') :
    RelatedBelow k R R p.optional p'.optional := by
  intro ts us short short' like
  rcases (h short short' like).elim with ⟨e, e'⟩ | ⟨a, r, r', e, e', left⟩
  · simp only [Reader.optional, e, e']
    exact .read like
  · simp only [Reader.optional, e, e']
    exact .read left

theorem RelatedBelow.peek (h : RelatedBelow k R S p p') :
    RelatedBelow k R R p.peek p'.peek := by
  intro ts us short short' like
  rcases (h short short' like).elim with ⟨e, e'⟩ | ⟨a, r, r', e, e', left⟩
  · simp only [Reader.peek, e, e']
    exact .fail
  · simp only [Reader.peek, e, e']
    exact .read like

theorem Pairs.related {item item' : Reader α} (shrinks : Shrinks item) (shrinks' : Shrinks item')
    (h : RelatedBelow k R R ((Reader.mark separator).keepRight item)
      ((Reader.mark separator).keepRight item'))
    {us last : List Lexeme} {as : List α} (short : ts.length < k) (short' : us.length < k)
    (like : R ts us) (pairs : Pairs item separator ts as last) :
    ∃ last', Pairs item' separator us as last' ∧ R last last' := by
  induction pairs generalizing us with
  | stop ended =>
    rcases (h short short' like).elim with ⟨_, e⟩ | ⟨a, r, r', e, _, _⟩
    · exact ⟨us, .stop e, like⟩
    · exact nomatch ended.symm.trans e
  | next first more ih =>
    rcases (h short short' like).elim with ⟨e, _⟩ | ⟨a, r, r', e, e', left⟩
    · rw [keepRight_mark_cons] at e
      exact nomatch e.symm.trans first
    · rw [keepRight_mark_cons] at e
      obtain ⟨rfl, rfl⟩ := Prod.mk.inj (Option.some.inj (first.symm.trans e))
      obtain ⟨us, rfl, first'⟩ := keepRight_mark_eq_some.1 e'
      have shorter := (shrinks first).length_le
      have shorter' := (shrinks' first').length_le
      rw [List.length_cons] at short short'
      obtain ⟨last', pairs', left'⟩ := ih (by omega) (by omega) left
      exact ⟨last', .next first' pairs', left'⟩

theorem RelatedBelow.separated₁ {item item' : Reader α} (shrinks : Shrinks item)
    (shrinks' : Shrinks item') (hm : RelatedBelow k R R (mark separator) (mark separator))
    (h : RelatedBelow k R R item item') :
    RelatedBelow k R R (Reader.separated₁ item separator) (Reader.separated₁ item' separator) := by
  intro ts us short short' like
  have consumes := (Consumes.mark separator).shrinks
  have pair : RelatedBelow k R R ((mark separator).keepRight item)
      ((mark separator).keepRight item') := (hm.andThen consumes consumes h).map
  rcases (h short short' like).elim with ⟨e, e'⟩ | ⟨a, r, r', e, e', left⟩
  · rw [separated₁_eq_none.2 e, separated₁_eq_none.2 e']
    exact .fail
  · have shorter := (shrinks e).length_le
    have shorter' := (shrinks' e').length_le
    obtain ⟨bs, last, pairs⟩ : ∃ bs last, Pairs item separator r bs last :=
      ⟨_, _, pairsUpTo_spec shrinks (Nat.lt_succ_self r.length)⟩
    obtain ⟨last', pairs', left⟩ :=
      pairs.related shrinks shrinks' pair (by omega) (by omega) left
    rw [(separated₁_eq_some shrinks).2 ⟨a, bs, r, rfl, e, pairs⟩,
      (separated₁_eq_some shrinks').2 ⟨a, bs, r', rfl, e', pairs'⟩]
    exact .read left

end Reader

end ImplFamilies.Grammar
