import ImplFamilies.Proofs.Grammar.Likeness

/-!
The rules over characters read what the readers read over lexemes. White space is passed over at
each token and a token takes the longest lexeme there is, so a rule and its reader agree at every
place of every text. Two places need care: a colon is also read off the front of a double colon,
and an array length off the front of a longer word; no rule goes on from there.
-/

namespace ImplFamilies.Grammar

open Text Lexeme

namespace Rule

variable {α β : Type}

/- Outcomes without their hints. -/

@[simp] theorem result?_map (f : α → β) (p : Rule α) (c : Cursor) :
    (p.map f c).result? = (p c).result?.map fun (a, rest) => (f a, rest) := by
  unfold map
  cases p c <;> rfl

@[simp] theorem result?_andThen (p : Rule α) (q : Rule β) (c : Cursor) :
    (p.andThen q c).result? = (p c).result?.bind fun (a, mid) =>
      (q mid).result?.map fun (b, rest) => ((a, b), rest) := by
  unfold andThen
  cases p c with
  | fail e => rfl
  | ok a mid hint =>
    simp only [Outcome.result?, Option.bind_some]
    cases q mid with
    | ok b rest hint₂ => rfl
    | fail e => cases hint <;> rfl

@[simp] theorem result?_orElse (p q : Rule α) (c : Cursor) :
    (p.orElse q c).result? = (p c).result?.or (q c).result? := by
  unfold orElse
  cases p c with
  | ok a rest hint => rfl
  | fail e =>
    simp only [Outcome.result?, Option.none_or]
    cases q c <;> rfl

@[simp] theorem result?_optional (p : Rule α) (c : Cursor) :
    (p.optional c).result? = ((p c).result?.map fun (a, rest) => (some a, rest)).or
      (some (none, c)) := by
  unfold optional
  cases p c <;> rfl

@[simp] theorem result?_peek (p : Rule α) (c : Cursor) :
    (p.peek c).result? = (p c).result?.map fun (a, _) => (a, c) := by
  unfold peek
  cases p c <;> rfl

@[simp] theorem result?_labelled (name : String) (p : Rule α) (c : Cursor) :
    (labelled name p c).result? = (p c).result? := by
  unfold labelled
  cases p c <;> rfl

@[simp] theorem result?_padded (p : Rule α) (c : Cursor) :
    (padded p c).result? = (p (c.skipWhile isBlank)).result?.map fun (a, rest) =>
      (a, rest.skipWhile isBlank) := by
  unfold padded
  cases p (c.skipWhile isBlank) <;> rfl

@[simp] theorem result?_refine (f : α → Except (Option String) β) (p : Rule α) (c : Cursor) :
    (refine f p c).result? = (p c).result?.bind fun (a, rest) =>
      (f a).toOption.map fun b => (b, rest) := by
  unfold refine
  cases p c with
  | fail e => rfl
  | ok a rest hint =>
    simp only [Outcome.result?, Option.bind_some]
    cases f a <;> rfl

theorem result?_satisfy (p : Char → Bool) (offset : Nat) (cs : List Char) :
    (satisfy p ⟨offset, cs⟩).result? =
      match cs with
      | x :: rest => if p x = true then some (x, ⟨offset + 1, rest⟩) else none
      | [] => none := by
  cases cs with
  | nil => rfl
  | cons x rest =>
    simp only [satisfy]
    split <;> rfl

theorem result?_run (p : Char → Bool) (c : Cursor) :
    (run p c).result? = some (c.rest.takeWhile p, c.skipWhile p) := rfl

theorem result?_run₁ (p : Char → Bool) (c : Cursor) :
    (run₁ p c).result? =
      if c.rest.takeWhile p = [] then none else some (c.rest.takeWhile p, c.skipWhile p) := by
  unfold run₁
  split
  · rename_i empty
    simp [empty, Outcome.result?]
  · rename_i nonempty
    rw [if_neg nonempty, result?_run]

theorem result?_literal_append (cs rest : List Char) (offset : Nat) :
    (literal cs ⟨offset, cs ++ rest⟩).result? = some ((), ⟨offset + cs.length, rest⟩) := by
  induction cs generalizing offset with
  | nil => rfl
  | cons x xs ih =>
    simp only [literal, List.cons_append, if_true, ih, List.length_cons]
    rw [Nat.add_assoc, Nat.add_comm 1]

theorem result?_literal_eq_none {cs : List Char} {c : Cursor} (h : ¬ cs <+: c.rest) :
    (literal cs c).result? = none := by
  induction cs generalizing c with
  | nil => exact absurd (List.nil_prefix ..) h
  | cons x xs ih =>
    obtain ⟨offset, rest⟩ := c
    cases rest with
    | nil => rfl
    | cons y rest =>
      simp only [literal]
      split
      · rename_i e
        subst e
        exact ih fun prefixed => h (List.prefix_cons_inj x |>.2 prefixed)
      · rfl

def Mirrors (p : Rule α) (r : Reader α) : Prop :=
  ∀ c, ((p c).result?.map fun (a, rest) => (a, lexemes rest.rest)) = r (lexemes c.rest)

theorem Mirrors.of_some {p : Rule α} {r : Reader α} (h : Mirrors p r) {c rest : Cursor} {a : α}
    (e : (p c).result? = some (a, rest)) : r (lexemes c.rest) = some (a, lexemes rest.rest) := by
  rw [← h c, e]
  rfl

theorem Mirrors.of_none {p : Rule α} {r : Reader α} (h : Mirrors p r) {c : Cursor}
    (e : (p c).result? = none) : r (lexemes c.rest) = none := by
  rw [← h c, e]
  rfl

variable {p : Rule α} {r : Reader α} {q : Rule β} {s : Reader β}

theorem Mirrors.map (f : α → β) (h : Mirrors p r) : Mirrors (p.map f) (r.map f) := by
  intro c
  rw [result?_map]
  cases e : (p c).result? with
  | none => simp only [Reader.map, h.of_none e, Option.map_none]
  | some found =>
    obtain ⟨a, rest⟩ := found
    simp only [Reader.map, h.of_some e, Option.map_some]

/-- The first rule may read what its reader does not, where the second then gets stuck. -/
theorem Mirrors.andThen_of_stuck (hq : Mirrors q s)
    (h : ∀ c, ((p c).result?.map fun (a, rest) => (a, lexemes rest.rest)) = r (lexemes c.rest) ∨
      (∀ a mid, (p c).result? = some (a, mid) → (q mid).result? = none) ∧
        r.andThen s (lexemes c.rest) = none) :
    Mirrors (p.andThen q) (r.andThen s) := by
  intro c
  rw [result?_andThen]
  rcases h c with same | ⟨stuck, refused⟩
  · rw [Reader.andThen, ← same]
    cases (p c).result? with
    | none => rfl
    | some found =>
      simp only [Option.bind_some, Option.map_some, ← hq found.2]
      cases (q found.2).result? <;> rfl
  · rw [refused]
    cases e : (p c).result? with
    | none => rfl
    | some found => simp only [Option.bind_some, stuck found.1 found.2 e, Option.map_none]

theorem Mirrors.andThen (hp : Mirrors p r) (hq : Mirrors q s) :
    Mirrors (p.andThen q) (r.andThen s) :=
  .andThen_of_stuck hq fun c => .inl (hp c)

theorem Mirrors.keepLeft (hp : Mirrors p r) (hq : Mirrors q s) :
    Mirrors (p.keepLeft q) (r.keepLeft s) :=
  (hp.andThen hq).map _

theorem Mirrors.keepRight (hp : Mirrors p r) (hq : Mirrors q s) :
    Mirrors (p.keepRight q) (r.keepRight s) :=
  (hp.andThen hq).map _

theorem Mirrors.orElse {q : Rule α} {s : Reader α} (hp : Mirrors p r) (hq : Mirrors q s) :
    Mirrors (p.orElse q) (r.orElse s) := by
  intro c
  rw [result?_orElse]
  cases e : (p c).result? with
  | none => simp only [Reader.orElse, hp.of_none e, Option.none_or, hq c]
  | some found =>
    obtain ⟨a, rest⟩ := found
    simp only [Reader.orElse, hp.of_some e, Option.some_or, Option.map_some]

theorem Mirrors.optional (h : Mirrors p r) : Mirrors p.optional r.optional := by
  intro c
  rw [result?_optional]
  cases e : (p c).result? with
  | none =>
    simp only [Reader.optional, h.of_none e, Option.map_none, Option.none_or, Option.map_some]
  | some found =>
    obtain ⟨a, rest⟩ := found
    simp only [Reader.optional, h.of_some e, Option.map_some, Option.some_or]

theorem Mirrors.peek (h : Mirrors p r) : Mirrors p.peek r.peek := by
  intro c
  rw [result?_peek]
  cases e : (p c).result? with
  | none => simp only [Reader.peek, h.of_none e, Option.map_none]
  | some found =>
    obtain ⟨a, rest⟩ := found
    simp only [Reader.peek, h.of_some e, Option.map_some]

theorem Mirrors.padded (name : String)
    (h : ∀ offset cs, skipBlanks cs = cs →
      ((p ⟨offset, cs⟩).result?.map fun (a, rest) => (a, lexemes rest.rest)) = r (lexemes cs)) :
    Mirrors (Rule.padded (labelled name p)) r := by
  intro c
  rw [result?_padded, result?_labelled, Option.map_map]
  have skipped := h (c.skipWhile isBlank).offset (skipBlanks c.rest) (skipBlanks_skipBlanks c.rest)
  rw [lexemes_skipBlanks] at skipped
  rw [← skipped]
  change Option.map _ (p (c.skipWhile isBlank)).result? =
    Option.map _ (p (c.skipWhile isBlank)).result?
  congr 1
  funext found
  exact congrArg (Prod.mk found.1) (lexemes_skipBlanks found.2.rest)

end Rule

end ImplFamilies.Grammar
