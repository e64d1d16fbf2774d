import ImplFamilies.Proofs.Grammar.Nesting

/-!
How far an outcome comes in the text, by what it reads or by a failure that it tells. What a rule
calls for hands on how far it has come to the rule itself: sequences, options, repetitions and
lists keep the failures on their way as hints. Only a choice may drop one, when its first
alternative fails and the second is taken.
-/

namespace ImplFamilies.Grammar

open Rule Relation

def HintReaches (bar : Nat) (hint : Option Failure) : Prop :=
  ∃ e ∈ hint, bar ≤ e.reach

section HintReaches

variable {bar : Nat} {a b : Option Failure} {e : Failure}

@[simp] theorem hintReaches_none : ¬ HintReaches bar none := by
  rintro ⟨_, mem, _⟩
  cases mem

@[simp] theorem hintReaches_some : HintReaches bar (some e) ↔ bar ≤ e.reach := by
  simp [HintReaches]

@[simp] theorem hintReaches_laterHint :
    HintReaches bar (Failure.laterHint a b) ↔ HintReaches bar a ∨ HintReaches bar b := by
  cases a <;> cases b <;> simp [Failure.laterHint, Failure.reach_furthest]
  omega

theorem hintReaches_laterHint_left {before : Prop} (far : before ∨ HintReaches bar a)
    (b : Option Failure) : before ∨ HintReaches bar (Failure.laterHint a b) :=
  far.imp_right fun far => hintReaches_laterHint.2 (.inl far)

end HintReaches

/-- The outcome tells of a place at or behind the given one. -/
def Reaches {α : Type} (bar : Nat) : Outcome α → Prop
  | .ok _ c hint => bar ≤ c.offset ∨ HintReaches bar hint
  | .fail e => bar ≤ e.reach

section Reaches

variable {α β : Type} {bar : Nat} {p : Rule α} {r : Rule β} {c c₁ : Cursor} {a : α}

@[simp] theorem reaches_ok {hint : Option Failure} :
    Reaches bar (.ok a c hint) ↔ bar ≤ c.offset ∨ HintReaches bar hint := .rfl

@[simp] theorem reaches_fail {e : Failure} :
    Reaches bar (.fail e : Outcome α) ↔ bar ≤ e.reach := .rfl

theorem reaches_of_le_offset [Forward p] (start : bar ≤ c.offset) : Reaches bar (p c) := by
  have advances := Forward.advances (p := p) c
  generalize p c = x at advances ⊢
  cases advances with
  | ok onto told => exact .inl (Nat.le_trans start onto.offset_le)
  | fail told => exact Nat.le_trans start told.offset_le_reach

namespace Reaches

theorem map (h : Reaches bar (p c)) (f : α → β) : Reaches bar (p.map f c) := by
  unfold Rule.map
  generalize p c = x at h ⊢
  cases x <;> exact h

theorem labelled (h : Reaches bar (p c)) (name : String) : Reaches bar (labelled name p c) := by
  unfold Rule.labelled
  generalize p c = x at h ⊢
  cases x with
  | fail e => exact h
  | ok a c₁ hint => cases hint <;> simpa [Failure.withLabel] using h

theorem padded (h : Reaches bar (p (c.skipWhile Text.isBlank))) : Reaches bar (padded p c) := by
  unfold Rule.padded
  generalize p (c.skipWhile Text.isBlank) = x at h ⊢
  cases x with
  | fail e => exact h
  | ok a c₁ hint =>
    have onto := (c₁.reads_skipWhile Text.isBlank).onto
    exact h.imp_left fun offset => Nat.le_trans offset onto.offset_le

theorem optional (h : Reaches bar (p c)) : Reaches bar (p.optional c) := by
  unfold Rule.optional
  generalize p c = x at h ⊢
  cases x with
  | ok a c₁ hint => exact h
  | fail e => exact .inr (hintReaches_some.2 h)

theorem andThen [Forward r] (h : Reaches bar (p c)) : Reaches bar (p.andThen r c) := by
  unfold Rule.andThen
  generalize p c = x at h ⊢
  cases x with
  | fail e => exact h
  | ok a c₁ hint =>
    have last := Forward.advances (p := r) c₁
    dsimp only
    generalize r c₁ = y at last ⊢
    cases last with
    | ok onto told =>
      rw [reaches_ok, hintReaches_laterHint]
      exact h.imp (Nat.le_trans · onto.offset_le) .inl
    | fail told =>
      have reach := told.offset_le_reach
      cases hint with
      | none => exact Nat.le_trans (h.resolve_right hintReaches_none) reach
      | some e₁ =>
        rw [reaches_ok, hintReaches_some] at h
        rw [reaches_fail, Failure.reach_furthest]
        omega

theorem andThen_second (read : (p c).result? = some (a, c₁)) (h : Reaches bar (r c₁)) :
    Reaches bar (p.andThen r c) := by
  unfold Rule.andThen
  generalize p c = x at read ⊢
  cases x with
  | fail e => cases read
  | ok a c₁ hint =>
    cases read
    dsimp only
    generalize r c₁ = y at h ⊢
    cases y with
    | ok b c₂ hint₂ =>
      rw [reaches_ok, hintReaches_laterHint]
      exact h.imp_right .inr
    | fail e =>
      cases hint with
      | none => exact h
      | some e₁ =>
        rw [reaches_fail] at h
        rw [reaches_fail, Failure.reach_furthest]
        omega

theorem orElse_second {r : Rule α} (failed : (p c).result? = none) (h : Reaches bar (r c)) :
    Reaches bar (p.orElse r c) := by
  unfold Rule.orElse
  generalize p c = x at failed ⊢
  cases x with
  | ok a c₁ hint => cases failed
  | fail e =>
    dsimp only
    generalize r c = y at h ⊢
    cases y with
    | ok a c₁ hint => exact h
    | fail e₂ =>
      rw [reaches_fail] at h
      rw [reaches_fail, Failure.reach_furthest]
      omega

end Reaches

/-- The first alternative fails at or behind the place, and the second is taken and has not come
there. -/
structure Dropped (bar : Nat) (first second : Outcome α) : Prop where
  failed : first.result? = none
  far : Reaches bar first
  taken : second.result? ≠ none
  short : ¬ Reaches bar second

theorem Reaches.orElse {p r : Rule α} (h : Reaches bar (p c)) :
    Reaches bar (p.orElse r c) ∨ Dropped bar (p c) (r c) := by
  unfold Rule.orElse
  generalize p c = x at h ⊢
  cases x with
  | ok a c₁ hint => exact .inl h
  | fail e =>
    dsimp only
    generalize r c = y
    cases y with
    | fail e₂ =>
      rw [reaches_fail] at h
      rw [reaches_fail, Failure.reach_furthest]
      omega
    | ok a c₁ hint =>
      by_cases far : Reaches bar (.ok a c₁ hint)
      · exact .inl far
      · exact .inr ⟨rfl, h, nofun, far⟩

end Reaches

/- Repetitions and lists. -/

section Repeated

variable {α β : Type} {bar : Nat} {p item : Rule α} {separator : Rule β} {c c₁ : Cursor} {a : α}

def RoundsReach (bar : Nat) (s : List α × Cursor × Option Failure) : Prop :=
  bar ≤ s.2.1.offset ∨ HintReaches bar s.2.2

def SeriesReaches (bar : Nat) (s : Series α) : Prop :=
  bar ≤ s.cursor.offset ∨ HintReaches bar s.hint ∨ bar ≤ s.ended.reach

theorem reaches_many :
    Reaches bar (many p c) ↔ RoundsReach bar (manyUpTo p (c.rest.length + 1) c none) := .rfl

theorem RoundsReach.of_start [Forward p] {hint : Option Failure}
    (far : bar ≤ c.offset ∨ HintReaches bar hint) (n : Nat) :
    RoundsReach bar (manyUpTo p n c hint) := by
  induction n generalizing c hint with
  | zero => exact far
  | succ n ih =>
    have first := Forward.advances (p := p) c
    unfold Rule.manyUpTo
    generalize p c = x at first ⊢
    cases first with
    | fail told => exact hintReaches_laterHint_left far _
    | ok onto told =>
      exact ih ((hintReaches_laterHint_left far _).imp_left (Nat.le_trans · onto.offset_le))

theorem RoundsReach.mono {hint hint' : Option Failure} {n : Nat}
    (h : RoundsReach bar (manyUpTo p n c hint))
    (more : HintReaches bar hint → HintReaches bar hint') :
    RoundsReach bar (manyUpTo p n c hint') := by
  have kept {b : Option Failure} {hint hint' : Option Failure}
      (more : HintReaches bar hint → HintReaches bar hint')
      (far : HintReaches bar (Failure.laterHint hint b)) :
      HintReaches bar (Failure.laterHint hint' b) :=
    hintReaches_laterHint.2 ((hintReaches_laterHint.1 far).imp_left more)
  induction n generalizing c hint hint' with
  | zero => exact h.imp_right more
  | succ n ih =>
    unfold Rule.manyUpTo at h ⊢
    cases first : p c with
    | fail e =>
      rw [first] at h
      exact h.imp_right (kept more)
    | ok a c₁ hint₁ =>
      rw [first] at h
      exact ih h (kept more)

theorem Reaches.many_round [Forward p] (h : Reaches bar (p c)) : Reaches bar (many p c) := by
  rw [reaches_many]
  unfold Rule.manyUpTo
  generalize p c = x at h ⊢
  cases x with
  | fail e =>
    have far : HintReaches bar (Failure.laterHint none (some e)) := hintReaches_some.2 h
    exact .inr far
  | ok a c₁ hint =>
    have far : bar ≤ c₁.offset ∨ HintReaches bar (Failure.laterHint none hint) := h
    exact .of_start far _

theorem Reaches.many_again [Forward p] (eats : Eats p) (read : (p c).result? = some (a, c₁))
    (h : Reaches bar (many p c₁)) : Reaches bar (many p c) := by
  have less := eats read
  rw [reaches_many, ← manyUpTo_eq_manyUpTo eats less (Nat.lt_succ_self _)] at h
  rw [reaches_many]
  unfold Rule.manyUpTo
  generalize p c = x at read
  cases x with
  | fail e => cases read
  | ok a c₁ hint =>
    cases read
    exact h.mono fun far => absurd far hintReaches_none

theorem SeriesReaches.of_start [Forward item] [Forward separator] {hint : Option Failure}
    (far : bar ≤ c.offset ∨ HintReaches bar hint) (n : Nat) :
    SeriesReaches bar (pairsUpTo item separator n c hint) := by
  induction n generalizing c hint with
  | zero => exact far.imp_right .inl
  | succ n ih =>
    have first := Forward.advances (p := separator) c
    unfold Rule.pairsUpTo
    generalize separator c = x at first ⊢
    cases first with
    | fail told => exact far.imp_right .inl
    | ok onto told =>
      rename_i b c₁ hint₁
      have second := Forward.advances (p := item) c₁
      have far := hintReaches_laterHint_left far hint₁
      dsimp only
      generalize item c₁ = y at second ⊢
      cases second with
      | fail told => exact far.imp_right .inl
      | ok further told =>
        have onto := onto.trans further
        exact ih ((hintReaches_laterHint_left far _).imp_left (Nat.le_trans · onto.offset_le))

theorem SeriesReaches.of_rounds {hint hint' : Option Failure} {n : Nat}
    (h : RoundsReach bar (manyUpTo (separator.andThen item) n c hint))
    (more : HintReaches bar hint → HintReaches bar hint') :
    SeriesReaches bar (pairsUpTo item separator n c hint') := by
  induction n generalizing c hint hint' with
  | zero => exact h.imp_right fun far => .inl (more far)
  | succ n ih =>
    unfold Rule.manyUpTo at h
    unfold Rule.pairsUpTo
    unfold Rule.andThen at h
    cases first : separator c with
    | fail e =>
      simp only [first, RoundsReach, hintReaches_laterHint, hintReaches_some] at h
      exact h.imp_right (Or.imp_left more)
    | ok b c₁ hint₁ =>
      cases second : item c₁ with
      | fail e =>
        simp only [first, second] at h ⊢
        simp only [SeriesReaches, hintReaches_laterHint]
        cases hint₁ with
        | none =>
          simp only [RoundsReach, hintReaches_laterHint, hintReaches_some] at h
          exact h.imp_right (Or.imp_left (.inl ∘ more))
        | some e₁ =>
          simp only [RoundsReach, hintReaches_laterHint, hintReaches_some,
            Failure.reach_furthest] at h
          rw [hintReaches_some]
          rcases h with start | before | far
          · exact .inl start
          · exact .inr (.inl (.inl (more before)))
          · omega
      | ok a c₂ hint₂ =>
        simp only [first, second] at h ⊢
        refine ih h ?_
        simp only [hintReaches_laterHint]
        rintro (before | first | second)
        · exact .inl (.inl (more before))
        · exact .inl (.inr first)
        · exact .inr second

inductive ListReaches (bar : Nat) (item : Rule α) (separator : Rule β) (c : Cursor) : Prop
  | stuck {e : Failure} (first : item c = .fail e) (far : bar ≤ e.reach)
  | behind {a : α} {c₁ : Cursor} {hint : Option Failure} (first : item c = .ok a c₁ hint)
      (far : SeriesReaches bar (pairsUpTo item separator (c₁.rest.length + 1) c₁ hint))

theorem ListReaches.of_item [Forward item] [Forward separator] (h : Reaches bar (item c)) :
    ListReaches bar item separator c := by
  cases first : item c with
  | fail e =>
    rw [first] at h
    exact .stuck first h
  | ok a c₁ hint =>
    rw [first] at h
    exact .behind first (.of_start h _)

theorem ListReaches.of_rounds (read : (item c).result? = some (a, c₁))
    (h : Reaches bar (many (separator.andThen item) c₁)) : ListReaches bar item separator c := by
  cases first : item c with
  | fail e => rw [first] at read; cases read
  | ok a c₁ hint =>
    rw [first] at read
    cases read
    exact .behind first (.of_rounds (reaches_many.1 h) fun far => absurd far hintReaches_none)

theorem reaches_closeList [Forward separator] {s : Series α}
    (h : SeriesReaches bar s ∨ Reaches bar (separator s.cursor)) (items : List α) :
    Reaches bar (closeList separator items s.cursor s.hint s.ended) := by
  have last := Forward.advances (p := separator) s.cursor
  unfold Rule.closeList
  generalize separator s.cursor = x at h last ⊢
  cases last with
  | ok onto told =>
    simp only [reaches_ok, SeriesReaches, hintReaches_laterHint, hintReaches_some] at h ⊢
    rcases h with (start | far | ended) | start | far
    · exact .inl (Nat.le_trans start onto.offset_le)
    · exact .inr (.inl (.inl far))
    · exact .inr (.inr ended)
    · exact .inl start
    · exact .inr (.inl (.inr far))
  | fail told =>
    simp only [reaches_ok, reaches_fail, SeriesReaches, hintReaches_laterHint,
      hintReaches_some] at h ⊢
    rcases h with (start | far | ended) | far
    · exact .inl start
    · exact .inr (.inl (.inl far))
    · exact .inr (.inr ended)
    · exact .inr (.inl (.inr far))

namespace ListReaches

theorem separated₁ (h : ListReaches bar item separator c) :
    Reaches bar (separated₁ item separator c) := by
  unfold Rule.separated₁ Rule.series
  cases h with
  | stuck first far => simpa [first] using far
  | behind first far =>
    simp only [first, reaches_ok, hintReaches_laterHint, hintReaches_some]
    exact far

theorem list [Forward separator] (h : ListReaches bar item separator c) :
    Reaches bar (list item separator c) := by
  unfold Rule.list Rule.series
  cases h with
  | stuck first far => simpa [first] using Or.inr far
  | behind first far =>
    simp only [first]
    exact reaches_closeList (.inl far) _

theorem list₁ [Forward separator] (h : ListReaches bar item separator c) :
    Reaches bar (list₁ item separator c) := by
  unfold Rule.list₁ Rule.series
  cases h with
  | stuck first far => simpa [first] using far
  | behind first far =>
    simp only [first]
    exact reaches_closeList (.inl far) _

end ListReaches

end Repeated

def Call.outcome (x : Call) : Outcome x.α :=
  x.scheme.rule typeRule x.place

/-- The call is a choice that drops a failure at or behind the place. -/
inductive Call.Drops (bar : Nat) : Call → Prop
  | choice {α : Type} {p q : Scheme α} {c : Cursor}
      (dropped : Dropped bar (p.rule typeRule c) (q.rule typeRule c)) : Drops bar ⟨p.orElse q, c⟩

namespace Calls

open Scheme

variable {x y : Call} {bar : Nat}

/-- A rule comes as far as each rule that it calls for, unless it is a choice that drops a
failure. -/
theorem reaches (call : Calls x y) (ok : x.scheme.steady = true) (h : Reaches bar y.outcome) :
    Reaches bar x.outcome ∨ x.Drops bar := by
  have forward {γ : Type} (p : Scheme γ) : Forward (p.rule typeRule) :=
    forward_rule (fun _ => inferInstance) p
  have eats {γ : Type} (p : Scheme γ) (h : p.eats = true) : Eats (p.rule typeRule) :=
    eats_rule (fun _ => inferInstance) eats_typeRule p h
  unfold Call.outcome at h ⊢
  cases call with
  | nested spot c =>
    left
    change Reaches bar (typeRule spot c)
    rwa [typeRule_eq]
  | map f p c => exact .inl (h.map f)
  | first p q c =>
    have := forward q
    exact .inl h.andThen
  | second q read => exact .inl (.andThen_second read h)
  | choice p q c => exact h.orElse.imp_right .choice
  | other q failed => exact .inl (.orElse_second failed h)
  | optional p c => exact .inl h.optional
  | padded p c => exact .inl h.padded
  | round p c =>
    have := forward p
    exact .inl h.many_round
  | @again _ p c c₁ a read =>
    have := forward p
    exact .inl (.many_again (eats p ((Bool.and_eq_true_iff).1 ok).1) read h)
  | @item _ _ item separator p closed lists c =>
    have := forward item
    have := forward separator
    have row : ListReaches bar (item.rule typeRule) (separator.rule typeRule) c := .of_item h
    cases lists with
    | separated₁ => exact .inl row.separated₁
    | list => exact .inl row.list
    | list₁ => exact .inl row.list₁
  | @rounds _ _ item separator p closed lists c c₁ a read =>
    have := forward separator
    have row := ListReaches.of_rounds read h
    cases lists with
    | separated₁ => exact .inl row.separated₁
    | list => exact .inl row.list
    | list₁ => exact .inl row.list₁
  | @closing _ _ item separator p lists c s series some =>
    have := forward separator
    obtain ⟨items, last, hint, ended⟩ := s
    obtain ⟨a, as, rfl⟩ := List.exists_cons_of_ne_nil some
    have closed : Reaches bar (closeList (separator.rule typeRule) (a :: as) last hint ended) :=
      reaches_closeList (s := ⟨a :: as, last, hint, ended⟩) (.inr h) _
    left
    cases lists with
    | list => rwa [rule, Rule.list, series]
    | list₁ => rwa [rule, Rule.list₁, series]

/-- The furthest failure is told, or a choice on the way drops it. -/
theorem reaches_or_drops (calls : ReflTransGen Calls x y) (ok : x.scheme.steady = true)
    (h : Reaches bar y.outcome) :
    Reaches bar x.outcome ∨ ∃ z, ReflTransGen Calls x z ∧ z.Drops bar := by
  induction calls with
  | refl => exact .inl h
  | tail front call ih =>
    rcases call.reaches (steady_all front ok) h with reached | drops
    · exact ih reached
    · exact .inr ⟨_, front, drops⟩

end Calls

end ImplFamilies.Grammar
