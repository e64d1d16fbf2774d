import ImplFamilies.Proofs.Grammar.FurthestFailure

/-!
One rule on two texts with a common beginning. What is done before the beginning ends is done alike
on both: as long as nothing that a rule calls for has come to the end of the beginning on the first
text, the rule reads the same on the second, and is refused there where it is refused on the first.
The beginning ends in a mark, so that no white space runs on over its end.
-/

namespace ImplFamilies.Grammar

open Text Rule Relation

/-- Single marks behind which more of a signature must stand. -/
def openMarks : List Char :=
  ['(', '<', '[', ',', ';', '+', '&', '*', '?', '!', '=']

def EndsInMark (q : List Char) : Prop :=
  ∃ m ∈ openMarks, q.getLast? = some m

instance (q : List Char) : Decidable (EndsInMark q) :=
  decidable_of_iff (openMarks.any (fun m => q.getLast? == some m) = true) (by simp [EndsInMark])

namespace EndsInMark

variable {q q₁ : List Char}

theorem ne_nil (h : EndsInMark q) : q ≠ [] := by
  rintro rfl
  obtain ⟨m, -, none⟩ := h
  cases none

theorem suffix (h : EndsInMark q) (behind : q₁ <:+ q) (left : q₁ ≠ []) : EndsInMark q₁ := by
  obtain ⟨m, mem, last⟩ := h
  obtain ⟨d, rfl⟩ := behind
  refine ⟨m, mem, ?_⟩
  rw [List.getLast?_append] at last
  cases found : q₁.getLast? with
  | none => exact absurd (List.getLast?_eq_none_iff.1 found) left
  | some x => simpa [found] using last

theorem tail {x : Char} (h : EndsInMark (x :: q)) (other : x ∉ openMarks) : EndsInMark q := by
  refine h.suffix (List.suffix_cons x q) ?_
  rintro rfl
  obtain ⟨m, mem, last⟩ := h
  obtain rfl : x = m := by simpa using last
  exact other mem

theorem run (h : EndsInMark q) {f : Char → Bool} (others : ∀ m ∈ openMarks, f m = false)
    (t : List Char) :
    (q ++ t).takeWhile f = q.takeWhile f ∧ (q ++ t).dropWhile f = q.dropWhile f ++ t ∧
      EndsInMark (q.dropWhile f) := by
  induction q with
  | nil => exact absurd rfl h.ne_nil
  | cons x q ih =>
    cases hx : f x with
    | false => simp [hx, h]
    | true =>
      have other : x ∉ openMarks := fun mem => nomatch hx.symm.trans (others x mem)
      simpa [hx] using ih (h.tail other)

theorem skipWhile (h : EndsInMark q) {f : Char → Bool} (others : ∀ m ∈ openMarks, f m = false)
    (o : Nat) (t : List Char) :
    Cursor.skipWhile f ⟨o, q ++ t⟩ = ⟨o + (q.takeWhile f).length, q.dropWhile f ++ t⟩ := by
  obtain ⟨taken, dropped, -⟩ := h.run others t
  simp only [Cursor.skipWhile, taken, dropped]

end EndsInMark

theorem not_of_any {f : Char → Bool} (others : openMarks.any f = false) :
    ∀ m ∈ openMarks, f m = false := by
  simpa using others

theorem not_mem_of_any {cs : List Char} (others : openMarks.any cs.contains = false) :
    ∀ x ∈ cs, x ∉ openMarks := by
  intro x mem mark
  simpa [mem] using not_of_any others x mark

theorem openMarks_not_blank : ∀ m ∈ openMarks, isBlank m = false :=
  not_of_any (by decide)

theorem openMarks_not_wordChar : ∀ m ∈ openMarks, isWordChar m = false :=
  not_of_any (by decide)

theorem openMarks_not_wordStart : ∀ m ∈ openMarks, isWordStart m = false :=
  not_of_any (by decide)

theorem openMarks_not_digit : ∀ m ∈ openMarks, m.isDigit = false :=
  not_of_any (by decide)

theorem length_takeWhile_add_dropWhile {α : Type} (f : α → Bool) (xs : List α) :
    (xs.takeWhile f).length + (xs.dropWhile f).length = xs.length := by
  rw [← List.length_append, List.takeWhile_append_dropWhile]

theorem EndsInMark.skipped {q : List Char} {o bar : Nat} (h : EndsInMark q)
    (place : o + q.length = bar) :
    EndsInMark (skipBlanks q) ∧ o + (q.takeWhile isBlank).length + (skipBlanks q).length = bar := by
  obtain ⟨-, -, left⟩ := h.run openMarks_not_blank []
  have whole := length_takeWhile_add_dropWhile isBlank q
  exact ⟨left, by unfold skipBlanks; omega⟩

/-- What is read on two texts that go on with `t` and with `t'` behind a common beginning, which
ends at `bar`: nothing, or the same up to a place in front of its end. -/
inductive ReadAlike {α : Type} (t t' : List Char) (bar : Nat) :
    Option (α × Cursor) → Option (α × Cursor) → Prop
  | refused : ReadAlike t t' bar none none
  | read {a : α} {o : Nat} {q : List Char} (ends : EndsInMark q) (place : o + q.length = bar) :
      ReadAlike t t' bar (some (a, ⟨o, q ++ t⟩)) (some (a, ⟨o, q ++ t'⟩))

namespace ReadAlike

variable {α β : Type} {t t' : List Char} {bar o : Nat} {q : List Char}
variable {x y : Option (α × Cursor)}

theorem map (h : ReadAlike t t' bar x y) (f : α → β) :
    ReadAlike t t' bar (x.map fun (a, rest) => (f a, rest))
      (y.map fun (a, rest) => (f a, rest)) := by
  cases h with
  | refused => exact .refused
  | read ends place => exact .read ends place

theorem bind {f g : α × Cursor → Option (β × Cursor)} (h : ReadAlike t t' bar x y)
    (further : ∀ a o q, x = some (a, ⟨o, q ++ t⟩) → EndsInMark q → o + q.length = bar →
      ReadAlike t t' bar (f (a, ⟨o, q ++ t⟩)) (g (a, ⟨o, q ++ t'⟩))) :
    ReadAlike t t' bar (x.bind f) (y.bind g) := by
  cases h with
  | refused => exact .refused
  | read ends place => exact further _ _ _ rfl ends place

theorem or {x' y' : Option (α × Cursor)} (h : ReadAlike t t' bar x y)
    (other : x = none → ReadAlike t t' bar x' y') : ReadAlike t t' bar (x.or x') (y.or y') := by
  cases h with
  | refused => exact other rfl
  | read ends place => exact .read ends place

variable {p : Rule α}

theorem optional (ends : EndsInMark q) (place : o + q.length = bar)
    (h : ReadAlike t t' bar (p ⟨o, q ++ t⟩).result? (p ⟨o, q ++ t'⟩).result?) :
    ReadAlike t t' bar (p.optional ⟨o, q ++ t⟩).result? (p.optional ⟨o, q ++ t'⟩).result? := by
  rw [result?_optional, result?_optional]
  exact (h.map _).or fun _ => .read ends place

theorem padded (ends : EndsInMark q)
    (inner : ReadAlike t t' bar (p ⟨o + (q.takeWhile isBlank).length, skipBlanks q ++ t⟩).result?
      (p ⟨o + (q.takeWhile isBlank).length, skipBlanks q ++ t'⟩).result?) :
    ReadAlike t t' bar (padded p ⟨o, q ++ t⟩).result? (padded p ⟨o, q ++ t'⟩).result? := by
  rw [result?_padded, result?_padded, ends.skipWhile openMarks_not_blank,
    ends.skipWhile openMarks_not_blank]
  unfold skipBlanks at inner
  generalize (p _).result? = x at inner ⊢
  generalize (p _).result? = y at inner ⊢
  cases inner with
  | refused => exact .refused
  | read ends place =>
    obtain ⟨left, place⟩ := ends.skipped place
    simp only [Option.map_some, ends.skipWhile openMarks_not_blank]
    exact .read left place

end ReadAlike

/-- The rule is done before the beginning ends. -/
structure StaysWithin {α : Type} (p : Rule α) : Prop where
  alike {t t' : List Char} {bar o : Nat} {q : List Char} (ends : EndsInMark q)
    (place : o + q.length = bar) :
    ReadAlike t t' bar (p ⟨o, q ++ t⟩).result? (p ⟨o, q ++ t'⟩).result?

namespace StaysWithin

variable {α β : Type} {p : Rule α} {r : Rule β}

theorem map (h : StaysWithin p) (f : α → β) : StaysWithin (p.map f) where
  alike {t t' bar o q} ends place := by
    rw [result?_map, result?_map]
    exact (h.alike ends place).map f

theorem andThen (hp : StaysWithin p) (hr : StaysWithin r) : StaysWithin (p.andThen r) where
  alike {t t' bar o q} ends place := by
    rw [result?_andThen, result?_andThen]
    exact (hp.alike ends place).bind fun a o q _ ends place => (hr.alike ends place).map _

theorem orElse {r : Rule α} (hp : StaysWithin p) (hr : StaysWithin r) :
    StaysWithin (p.orElse r) where
  alike {t t' bar o q} ends place := by
    rw [result?_orElse, result?_orElse]
    exact (hp.alike ends place).or fun _ => hr.alike ends place

theorem labelled (h : StaysWithin p) (name : String) : StaysWithin (labelled name p) where
  alike {t t' bar o q} ends place := by
    rw [result?_labelled, result?_labelled]
    exact h.alike ends place

theorem refine (h : StaysWithin p) (f : α → Except (Option String) β) :
    StaysWithin (refine f p) where
  alike {t t' bar o q} ends place := by
    rw [result?_refine, result?_refine]
    refine (h.alike ends place).bind fun a o q _ ends place => ?_
    dsimp only
    cases f a with
    | ok b => exact .read ends place
    | error remark => exact .refused

theorem padded (h : StaysWithin p) : StaysWithin (padded p) where
  alike {t t' bar o q} ends place := by
    obtain ⟨left, place⟩ := ends.skipped place
    exact .padded ends (h.alike left place)

theorem satisfy {f : Char → Bool} (others : ∀ m ∈ openMarks, f m = false) :
    StaysWithin (satisfy f) where
  alike {t t' bar o q} ends place := by
    cases q with
    | nil => exact absurd rfl ends.ne_nil
    | cons x q =>
      simp only [List.cons_append, result?_satisfy]
      rw [List.length_cons] at place
      cases hx : f x with
      | false => exact .refused
      | true => exact .read (ends.tail fun mem => nomatch hx.symm.trans (others x mem)) (by omega)

theorem run {f : Char → Bool} (others : ∀ m ∈ openMarks, f m = false) : StaysWithin (run f) where
  alike {t t' bar o q} ends place := by
    obtain ⟨taken, -, left⟩ := ends.run others t
    have whole := length_takeWhile_add_dropWhile f q
    rw [result?_run, result?_run, taken, (ends.run others t').1, ends.skipWhile others,
      ends.skipWhile others]
    exact .read left (by omega)

theorem run₁ {f : Char → Bool} (others : ∀ m ∈ openMarks, f m = false) :
    StaysWithin (run₁ f) where
  alike {t t' bar o q} ends place := by
    have whole : ReadAlike t t' bar (Rule.run f ⟨o, q ++ t⟩).result?
        (Rule.run f ⟨o, q ++ t'⟩).result? := (StaysWithin.run others).alike ends place
    rw [result?_run, result?_run] at whole
    rw [result?_run₁, result?_run₁, (ends.run others t).1, (ends.run others t').1] at *
    split
    · exact .refused
    · exact whole

theorem literal {cs : List Char} (others : ∀ x ∈ cs, x ∉ openMarks) :
    StaysWithin (literal cs) where
  alike {t t' bar o q} ends place := by
    induction cs generalizing o q with
    | nil => exact .read ends place
    | cons x cs ih =>
      cases q with
      | nil => exact absurd rfl ends.ne_nil
      | cons y q =>
        rw [List.length_cons] at place
        simp only [List.cons_append, Rule.literal]
        by_cases same : x = y
        · subst same
          simp only [if_true]
          exact ih (fun y mem => others y (List.mem_cons_of_mem x mem))
            (ends.tail (others x List.mem_cons_self)) (by omega)
        · simp only [if_neg same]
          exact .refused

end StaysWithin

/-- What has not come to the end of the beginning is done before it. -/
structure Local {α : Type} (p : Rule α) : Prop where
  alike {t t' : List Char} {bar o : Nat} {q : List Char} (ends : EndsInMark q)
    (place : o + q.length = bar) (short : ¬ Reaches bar (p ⟨o, q ++ t⟩)) :
    ReadAlike t t' bar (p ⟨o, q ++ t⟩).result? (p ⟨o, q ++ t'⟩).result?

theorem StaysWithin.local {α : Type} {p : Rule α} (h : StaysWithin p) : Local p :=
  ⟨fun ends place _ => h.alike ends place⟩

/- Tokens. -/

theorem local_literal (cs : List Char) : Local (literal cs) where
  alike {t t' bar o q} ends place short := by
    induction cs generalizing o q with
    | nil => exact .read ends place
    | cons x cs ih =>
      cases q with
      | nil => exact absurd rfl ends.ne_nil
      | cons y q =>
        rw [List.length_cons] at place
        simp only [List.cons_append, Rule.literal] at short ⊢
        by_cases same : x = y
        · simp only [if_pos same] at short ⊢
          have left : q ≠ [] := by
            rintro rfl
            exact short (reaches_of_le_offset (Nat.le_of_eq place.symm))
          exact ih (ends.suffix (List.suffix_cons y q) left) (by omega) short
        · simp only [if_neg same]
          exact .refused

theorem local_token (text : String) : Local (token text) where
  alike {t t' bar o q} ends place short := by
    obtain ⟨left, place⟩ := ends.skipped place
    refine .padded ends ?_
    rw [result?_labelled, result?_labelled]
    refine (local_literal text.toList).alike left place fun far => short (Reaches.padded ?_)
    rw [ends.skipWhile openMarks_not_blank]
    exact far.labelled text

theorem within_keyword (text : String) : StaysWithin (keyword text) :=
  have word : StaysWithin word :=
    ((StaysWithin.satisfy openMarks_not_wordStart).andThen (.run openMarks_not_wordChar)).map _
  ((word.refine _).labelled text).padded

theorem within_identifier : StaysWithin identifier :=
  have dots : StaysWithin (literal "...".toList) := .literal (not_mem_of_any (by decide))
  (((StaysWithin.run₁ openMarks_not_wordChar).orElse (dots.map _)).labelled _).padded

theorem within_lifetime : StaysWithin lifetime :=
  have apostrophe : StaysWithin (literal ['\'']) := .literal (not_mem_of_any (by decide))
  have named := (apostrophe.andThen (.run₁ openMarks_not_wordChar)).map Prod.snd
  ((named.map _).labelled _).padded

theorem within_arrayLength : StaysWithin arrayLength :=
  (((StaysWithin.run₁ openMarks_not_digit).refine _).labelled _).padded

theorem within_endOfInput : StaysWithin endOfInput where
  alike {t t' bar o q} ends place := by
    obtain ⟨x, q, rfl⟩ := List.exists_cons_of_ne_nil ends.ne_nil
    exact .refused

/-- Whether a mark comes next is decided by the first character behind the white space. -/
theorem within_peek {text : String} {x : Char} (single : text.toList = [x]) :
    StaysWithin (token text).peek where
  alike {t t' bar o q} ends place := by
    obtain ⟨left, -⟩ := ends.skipped place
    have skipped (t : List Char) : skipBlanks (q ++ t) = skipBlanks q ++ t :=
      (ends.run openMarks_not_blank t).2.1
    rw [result?_peek, result?_peek, result?_token, result?_token, single, skipped, skipped]
    obtain ⟨y, w, split⟩ := List.exists_cons_of_ne_nil left.ne_nil
    simp only [split, List.cons_append, Rule.literal]
    by_cases same : x = y
    · simp only [if_pos same]
      exact .read ends place
    · simp only [if_neg same]
      exact .refused

/- What repetitions and lists read, by their rounds. -/

section Repeated

variable {α β : Type} {p item : Rule α} {separator : Rule β} {c : Cursor}

theorem manyUpTo_hint (n : Nat) (hint hint' : Option Failure) :
    (manyUpTo p n c hint).1 = (manyUpTo p n c hint').1 ∧
      (manyUpTo p n c hint).2.1 = (manyUpTo p n c hint').2.1 := by
  induction n generalizing c hint hint' with
  | zero => exact ⟨rfl, rfl⟩
  | succ n ih =>
    unfold manyUpTo
    cases p c with
    | fail e => exact ⟨rfl, rfl⟩
    | ok a c₁ hint₁ =>
      obtain ⟨items, last⟩ := ih (c := c₁) (Failure.laterHint hint hint₁)
        (Failure.laterHint hint' hint₁)
      exact ⟨congrArg (a :: ·) items, last⟩

theorem result?_many (eats : Eats p) :
    (many p c).result? = ((p c).result?.bind fun (a, c₁) =>
      (many p c₁).result?.map fun (as, last) => (a :: as, last)).or (some ([], c)) := by
  cases first : p c with
  | fail e => simp only [many, manyUpTo, first, Outcome.result?, Option.bind_none, Option.none_or]
  | ok a c₁ hint =>
    have less := eats (congrArg Outcome.result? first)
    have same := manyUpTo_eq_manyUpTo eats less (Nat.lt_succ_self _) none
    obtain ⟨items, last⟩ := manyUpTo_hint (p := p) (c := c₁) c.rest.length
      (Failure.laterHint none hint) none
    rw [same] at items last
    simp only [many, manyUpTo, first, Outcome.result?, Option.bind_some, Option.map_some,
      Option.some_or, items, last]

theorem pairsUpTo_rounds (n : Nat) (hint hint' : Option Failure) :
    (pairsUpTo item separator n c hint).items =
        (manyUpTo (separator.andThen item) n c hint').1.map Prod.snd ∧
      (pairsUpTo item separator n c hint).cursor =
        (manyUpTo (separator.andThen item) n c hint').2.1 := by
  induction n generalizing c hint hint' with
  | zero => exact ⟨rfl, rfl⟩
  | succ n ih =>
    unfold manyUpTo pairsUpTo Rule.andThen
    cases separator c with
    | fail e => exact ⟨rfl, rfl⟩
    | ok b c₁ hint₁ =>
      dsimp only
      cases item c₁ with
      | fail e => cases hint₁ <;> exact ⟨rfl, rfl⟩
      | ok a c₂ hint₂ =>
        obtain ⟨items, last⟩ := ih (c := c₂)
          (Failure.laterHint (Failure.laterHint hint hint₁) hint₂)
          (Failure.laterHint hint' (Failure.laterHint hint₁ hint₂))
        exact ⟨congrArg (a :: ·) items, last⟩

theorem result?_separated₁ :
    (separated₁ item separator c).result? = (item c).result?.bind fun (a, c₁) =>
      (many (separator.andThen item) c₁).result?.map fun (bs, last) =>
        (a :: bs.map Prod.snd, last) := by
  cases first : item c with
  | fail e => simp only [separated₁, series, first, Outcome.result?, Option.bind_none]
  | ok a c₁ hint =>
    obtain ⟨items, last⟩ :
        (pairsUpTo item separator (c₁.rest.length + 1) c₁ hint).items = _ ∧
          (pairsUpTo item separator (c₁.rest.length + 1) c₁ hint).cursor = _ :=
      pairsUpTo_rounds _ hint none
    simp only [separated₁, series, first, many, Outcome.result?, Option.bind_some, Option.map_some,
      items, last]

theorem series_of_separated₁ {as : List α} {last : Cursor}
    (read : (separated₁ item separator c).result? = some (as, last)) :
    ∃ s, series item separator c = s ∧ s.items ≠ [] ∧ s.cursor = last := by
  unfold separated₁ at read
  generalize series item separator c = s at read ⊢
  obtain ⟨items, cursor, hint, ended⟩ := s
  cases items with
  | nil => cases read
  | cons a as =>
    cases read
    exact ⟨_, rfl, List.cons_ne_nil a as, rfl⟩

theorem result?_list₁ :
    (list₁ item separator c).result? =
      ((separated₁ item separator).keepLeft separator.optional c).result? := by
  unfold list₁ keepLeft
  rw [result?_map, result?_andThen]
  unfold separated₁
  obtain ⟨items, last, hint, ended⟩ := series item separator c
  cases items with
  | nil => rfl
  | cons a as =>
    unfold closeList Rule.optional
    simp only [Outcome.result?, Option.bind_some]
    cases separator last <;> rfl

theorem result?_list :
    (list item separator c).result? =
      ((list₁ item separator).optional c).result?.map fun (found, last) =>
        (found.getD [], last) := by
  rw [result?_optional]
  unfold list list₁
  cases first : item c with
  | fail e => simp only [series, first, Outcome.result?]; rfl
  | ok a c₁ hint =>
    simp only [series, first]
    unfold closeList
    cases separator _ <;> rfl

end Repeated

namespace Scheme

def AllLocal : {α : Type} → Scheme α → Prop
  | _, .nested _ => True
  | _, .word p _ _ | _, .glance p _ => Local p
  | _, .map _ p | _, .optional p | _, .padded p | _, .many p => p.AllLocal
  | _, .andThen p q | _, .orElse p q => p.AllLocal ∧ q.AllLocal
  | _, .separated₁ item separator | _, .list item separator | _, .list₁ item separator =>
    item.AllLocal ∧ separator.AllLocal

theorem allLocal_token (text : String) (some : text.toList ≠ []) : (token text some).AllLocal :=
  local_token text

theorem allLocal_keyword (text : String) : (keyword text).AllLocal :=
  (within_keyword text).local

theorem allLocal_identifier : identifier.AllLocal :=
  within_identifier.local

theorem allLocal_lifetime : lifetime.AllLocal :=
  within_lifetime.local

theorem allLocal_arrayLength : arrayLength.AllLocal :=
  within_arrayLength.local

theorem allLocal_opening : (lookahead (Rule.token "(").peek).AllLocal :=
  (within_peek rfl).local

theorem allLocal_endOfInput : endOfInput.AllLocal :=
  within_endOfInput.local

theorem allLocal_body (spot : Spot) : (body spot).AllLocal := by
  cases spot <;>
    simp [body, fullType, full, plain, boundedType, singleType, plainType, unitType, tupleType,
      arrayOrSlice, pointerType, referenceType, bounds, bound, traitBound, typePath, callPath,
      plainPath, args, arg, segments, modifiers, modifier, inParentheses, inBrackets, inAngles,
      keepLeft, keepRight, AllLocal, allLocal_token, allLocal_keyword, allLocal_identifier,
      allLocal_lifetime, allLocal_arrayLength, allLocal_opening]

theorem allLocal_loneType : loneType.AllLocal := by
  simp [loneType, full, keepLeft, AllLocal, allLocal_endOfInput]

theorem allLocal_signature : signature.AllLocal := by
  simp [signature, traitSignature, inherentSignature, whereClause, typeItem, lifetimeItem, generics,
    typeParam, lifetimeParam, lifetimeBounds, full, bounds, bound, traitBound, typePath, callPath,
    plainPath, args, arg, segments, modifiers, modifier, inParentheses, inAngles, keepLeft,
    keepRight, AllLocal, allLocal_token, allLocal_keyword, allLocal_identifier, allLocal_lifetime,
    allLocal_opening, allLocal_endOfInput]

end Scheme

open Scheme

theorem Calls.allLocal {x y : Call} (h : Calls x y) (own : x.scheme.AllLocal) :
    y.scheme.AllLocal := by
  cases h with
  | nested spot c => exact allLocal_body spot
  | map f p c | optional p c | padded p c | round p c | again read => exact own
  | first p q c | choice p q c => exact own.1
  | second q read | other q failed => exact own.2
  | item lists c => cases lists <;> exact own.1
  | rounds lists read => cases lists <;> exact own.symm
  | closing lists series some => cases lists <;> exact own.2

/-- What is called for inside the beginning of the first text is read alike on the second. -/
structure ReadsAlike (t t' : List Char) (bar : Nat) (x : Call) : Prop where
  alike {o : Nat} {q : List Char} (same : x.place = ⟨o, q ++ t⟩) (ends : EndsInMark q)
    (place : o + q.length = bar) :
    ReadAlike t t' bar x.outcome.result? (x.scheme.rule typeRule ⟨o, q ++ t'⟩).result?

section ReadsAlike

variable {t t' : List Char} {bar : Nat}

theorem readAlike_separated₁ {α β : Type} {item : Scheme α} {separator : Scheme β}
    {p : Scheme (List α)} {closed : Bool} (lists : Lists item separator p closed) {o : Nat}
    {q : List Char} (calls : ∀ y, Calls ⟨p, ⟨o, q ++ t⟩⟩ y → ReadsAlike t t' bar y)
    (ends : EndsInMark q) (place : o + q.length = bar) :
    ReadAlike t t' bar
      (separated₁ (item.rule typeRule) (separator.rule typeRule) ⟨o, q ++ t⟩).result?
      (separated₁ (item.rule typeRule) (separator.rule typeRule) ⟨o, q ++ t'⟩).result? := by
  have first := (calls _ (.item lists _)).alike rfl ends place
  rw [result?_separated₁, result?_separated₁]
  exact first.bind fun a o q read ends place =>
    ((calls _ (.rounds lists read)).alike rfl ends place).map fun bs => a :: bs.map Prod.snd

theorem readAlike_list₁ {α β : Type} {item : Scheme α} {separator : Scheme β}
    {p : Scheme (List α)} (lists : Lists item separator p true) {o : Nat}
    {q : List Char} (calls : ∀ y, Calls ⟨p, ⟨o, q ++ t⟩⟩ y → ReadsAlike t t' bar y)
    (ends : EndsInMark q) (place : o + q.length = bar) :
    ReadAlike t t' bar
      (list₁ (item.rule typeRule) (separator.rule typeRule) ⟨o, q ++ t⟩).result?
      (list₁ (item.rule typeRule) (separator.rule typeRule) ⟨o, q ++ t'⟩).result? := by
  have row := readAlike_separated₁ lists calls ends place
  rw [result?_list₁, result?_list₁]
  unfold Rule.keepLeft
  rw [result?_map, result?_map, result?_andThen, result?_andThen]
  refine (row.bind fun as o₁ q₁ read ends place => ReadAlike.map ?_ fun b => (as, b)).map Prod.fst
  obtain ⟨s, series, some, last⟩ := series_of_separated₁ read
  have closing : Calls ⟨p, ⟨o, q ++ t⟩⟩ ⟨separator, ⟨o₁, q₁ ++ t⟩⟩ :=
    last ▸ .closing lists series some
  exact .optional ends place ((calls _ closing).alike rfl ends place)

/-- What a rule calls for is carried over, so the rule is. -/
theorem ReadsAlike.step {x : Call} (ok : x.scheme.steady = true) (own : x.scheme.AllLocal)
    (short : ¬ Reaches bar x.outcome) (calls : ∀ y, Calls x y → ReadsAlike t t' bar y) :
    ReadsAlike t t' bar x := by
  have eats {γ : Type} (p : Scheme γ) (h : p.eats = true) : Eats (p.rule typeRule) :=
    eats_rule (fun _ => inferInstance) eats_typeRule p h
  refine ⟨fun {o q} same ends place => ?_⟩
  obtain ⟨p, c⟩ := x
  obtain rfl : c = ⟨o, q ++ t⟩ := same
  unfold Call.outcome at short ⊢
  cases p with
  | nested spot =>
    have inner := (calls _ (.nested spot _)).alike rfl ends place
    change ReadAlike t t' bar (typeRule spot _).result? (typeRule spot _).result?
    rwa [typeRule_eq]
  | word p tells eats => exact own.alike ends place short
  | glance p tells => exact own.alike ends place short
  | map f p =>
    simp only [rule, result?_map]
    exact ((calls _ (.map f p _)).alike rfl ends place).map f
  | andThen p q =>
    simp only [rule, result?_andThen]
    exact ((calls _ (.first p q _)).alike rfl ends place).bind fun a o q' read ends place =>
      ((calls _ (.second q read)).alike rfl ends place).map _
  | orElse p q =>
    simp only [rule, result?_orElse]
    exact ((calls _ (.choice p q _)).alike rfl ends place).or fun failed =>
      (calls _ (.other q failed)).alike rfl ends place
  | optional p => exact .optional ends place ((calls _ (.optional p _)).alike rfl ends place)
  | padded p =>
    obtain ⟨left, place⟩ := ends.skipped place
    have skipped := ends.skipWhile openMarks_not_blank o t
    have inner := (calls _ (.padded p _)).alike skipped left place
    rw [Call.outcome, skipped] at inner
    exact .padded ends inner
  | many p =>
    have round := eats p ((Bool.and_eq_true_iff).1 ok).1
    rw [rule, result?_many round, result?_many round]
    refine ReadAlike.or ?_ fun _ => .read ends place
    exact ((calls _ (.round p _)).alike rfl ends place).bind fun a o q read ends place =>
      ((calls _ (.again read)).alike rfl ends place).map (a :: ·)
  | separated₁ item separator => exact readAlike_separated₁ .separated₁ calls ends place
  | list₁ item separator => exact readAlike_list₁ .list₁ calls ends place
  | list item separator =>
    simp only [rule, result?_list]
    exact (ReadAlike.optional ends place (readAlike_list₁ .list calls ends place)).map (·.getD [])

/-- As long as no call has come to the end of the beginning, all that is read is carried over. -/
theorem readsAlike_of_short {x : Call} (ok : x.scheme.steady = true) (own : x.scheme.AllLocal)
    (short : ∀ y, ReflTransGen Calls x y → ¬ Reaches bar y.outcome) : ReadsAlike t t' bar x := by
  have acc := Calls.acc ok
  induction acc with
  | intro x _ ih =>
    exact .step ok own (short x .refl) fun y call =>
      ih y call (call.steady ok) (call.allLocal own) fun z calls => short z (.head call calls)

end ReadsAlike

end ImplFamilies.Grammar
