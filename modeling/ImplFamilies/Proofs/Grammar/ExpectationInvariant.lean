import ImplFamilies.Proofs.Grammar.DeadEnds
import ImplFamilies.Proofs.Grammar.Scheme

/-!
Rules whose failures inform of what was expected. A word that is refused, or that has just been
read, leaves a failure with a name only, and two names together leave none: such failures are
silent. What stands behind the word makes up for them: a rule that reads on informs by a character
of what it expected at the word's end or further on. So it is enough to know how far the silent
failures of a rule reach, and that what follows reaches as far.
-/

namespace ImplFamilies.Grammar

open Text Rule

variable {α β γ : Type}

/-- How far a rule that stands at a place has looked: up to there, or to the end of the word that
begins there. -/
inductive Edge
  | here
  | word

def Edge.offset : Edge → Cursor → Nat
  | .here, c => c.offset
  | .word, c => (c.skipWhile isWordChar).offset

theorem Edge.offset_le (x : Edge) (c : Cursor) : c.offset ≤ x.offset c := by
  cases x with
  | here => exact Nat.le_refl _
  | word => exact Nat.le_add_right ..

theorem Edge.offset_le_word (x : Edge) (c : Cursor) : x.offset c ≤ Edge.word.offset c := by
  cases x with
  | here => exact Edge.word.offset_le c
  | word => exact Nat.le_refl _

theorem Edge.word_offset_of_bare {c : Cursor} (bare : c.rest.takeWhile isWordChar = []) :
    Edge.word.offset c = c.offset := by
  simp only [Edge.offset, Cursor.skipWhile, bare, List.length_nil, Nat.add_zero]

theorem Cursor.Onto.word_le {c c₁ : Cursor} (h : c.Onto c₁) :
    Edge.word.offset c ≤ Edge.word.offset c₁ := by
  obtain ⟨read, rest, offset⟩ := h
  simp only [Edge.offset, Cursor.skipWhile, rest, offset]
  rw [List.takeWhile_append]
  split
  · rw [List.length_append]
    omega
  · have part := (List.takeWhile_prefix (p := isWordChar) (l := read)).length_le
    omega

def Outcome.All (good : Cursor → Option Failure → Prop) (bad : Failure → Prop) : Outcome α → Prop
  | .ok _ c hint => good c hint
  | .fail e => bad e

namespace Outcome.All

variable {good mid : Cursor → Option Failure → Prop} {bad bad₁ bad₂ : Failure → Prop} {p : Rule α}
  {c : Cursor}

theorem mono {good' : Cursor → Option Failure → Prop} {bad' : Failure → Prop} {x : Outcome α}
    (h : x.All good bad) (hg : ∀ {c hint}, good c hint → good' c hint)
    (hb : ∀ {e}, bad e → bad' e) : x.All good' bad' := by
  cases x with
  | ok a c hint => exact hg h
  | fail e => exact hb h

theorem map (h : (p c).All good bad) (f : α → β) : (p.map f c).All good bad := by
  unfold Rule.map
  generalize p c = x at h ⊢
  cases x <;> exact h

theorem andThen {q : Rule β} (hp : (p c).All mid bad)
    (hq : ∀ {c₁ hint}, mid c₁ hint →
      (q c₁).All (fun c₂ hint₂ => good c₂ (Failure.laterHint hint hint₂))
        fun e => bad (hint.elim e (Failure.furthest e))) :
    (p.andThen q c).All good bad := by
  unfold Rule.andThen
  generalize p c = x at hp ⊢
  cases x with
  | fail e => exact hp
  | ok a c₁ hint =>
    have second := hq hp
    dsimp only
    generalize q c₁ = y at second ⊢
    cases y with
    | ok b c₂ hint₂ => exact second
    | fail e => cases hint <;> exact second

theorem orElse {q : Rule α} (hp : (p c).All good bad₁) (hq : (q c).All good bad₂)
    (join : ∀ {e f}, bad₁ e → bad₂ f → bad (Failure.furthest f e)) :
    (p.orElse q c).All good bad := by
  unfold Rule.orElse
  generalize p c = x at hp ⊢
  cases x with
  | ok a c₁ hint => exact hp
  | fail e =>
    generalize q c = y at hq ⊢
    cases y with
    | ok b c₂ hint₂ => exact hq
    | fail e₂ => exact join hp hq

theorem optional (h : (p c).All good bad) (skip : ∀ {e}, bad e → good c (some e)) :
    (optional p c).All good bad₁ := by
  unfold Rule.optional
  generalize p c = x at h ⊢
  cases x with
  | ok a c₁ hint => exact h
  | fail e => exact skip h

end Outcome.All

namespace Stretch

variable {S : Stretch} {c c₁ : Cursor} {e f : Failure} {a b : Option Failure} {r r' bar : Nat}
  {up up' low : Edge}

theorem Within.edge_le_stop (h : S.Within c) (x : Edge) : x.offset c ≤ S.stop :=
  Nat.le_trans (x.offset_le_word c) (h.skipWhile fun _ => free_of_isWordChar).offset_le_stop

/-- A failure that is silent does not reach so far. -/
def SilentBelow (S : Stretch) (r : Nat) (e : Failure) : Prop :=
  e.reach < r ∨ S.Informs e

theorem SilentBelow.mono (h : S.SilentBelow r e) (le : r ≤ r') : S.SilentBelow r' e :=
  h.imp_left fun less => Nat.lt_of_lt_of_le less le

theorem SilentBelow.furthest (he : S.SilentBelow r e) (hf : S.SilentBelow r f) :
    S.SilentBelow r (Failure.furthest e f) := by
  rcases Nat.lt_trichotomy e.reach f.reach with less | same | more
  · rwa [Failure.furthest_eq_right less]
  · rcases he with near | he
    · left
      rw [Failure.reach_furthest]
      omega
    · rcases hf with near | hf
      · left
        rw [Failure.reach_furthest]
        omega
      · exact .inr (he.furthest hf)
  · rwa [Failure.furthest_eq_left more]

theorem silentBelow_laterHint (ha : ∀ e ∈ a, S.SilentBelow r e) (hb : ∀ e ∈ b, S.SilentBelow r e) :
    ∀ e ∈ Failure.laterHint a b, S.SilentBelow r e := by
  intro e mem
  rcases Failure.mem_laterHint mem with first | second | ⟨f, hf, g, hg, rfl⟩
  · exact ha e first
  · exact hb e second
  · exact (hb g hg).furthest (ha f hf)

/-- After a failure that says what it expected, the silent ones that do not reach further are
forgotten. -/
theorem informs_laterHint (hf : S.Informs f) (ha : ∀ e ∈ a, S.SilentBelow (r + 1) e)
    (near : r ≤ f.reach) (top : r ≤ S.stop) :
    ∃ e, Failure.laterHint a (some f) = some e ∧ S.Informs e ∧ f.reach ≤ e.reach := by
  cases a with
  | none => exact ⟨f, rfl, hf, Nat.le_refl _⟩
  | some e =>
    refine ⟨_, rfl, ?_, Failure.le_reach_furthest_left f e⟩
    rcases ha e rfl with silent | informs
    · exact hf.furthest_of_le (by omega) (.inr (by omega))
    · exact hf.furthest informs

/-- A rule has come as far as the bar, and its silent failures reach no further than an edge. -/
structure HintSilentTo (S : Stretch) (up : Edge) (bar : Nat) (c : Cursor) (hint : Option Failure) :
    Prop where
  holds : S.Holds c
  bar_le : bar ≤ up.offset c
  hints : ∀ e ∈ hint, S.SilentBelow (up.offset c + 1) e

/-- A rule has come as far as the bar, and all its silent failures are behind it; if it has come no
further than the bar then it says what it expected there. -/
structure HintInforms (S : Stretch) (bar : Nat) (c : Cursor) (hint : Option Failure) : Prop where
  holds : S.Holds c
  hints : ∀ e ∈ hint, S.SilentBelow c.offset e
  covered : bar < c.offset ∨ bar ≤ c.offset ∧ ∃ e ∈ hint, c.offset ≤ e.reach

structure FailureInforms (S : Stretch) (bar : Nat) (e : Failure) : Prop where
  informs : S.Informs e
  bar_le : bar ≤ e.reach

/-- A rule that failed says what it expected, or it failed over the word at its place. -/
def FailureInformsOrWord (S : Stretch) (c : Cursor) (e : Failure) : Prop :=
  S.Informs e ∨ e.reach ≤ Edge.word.offset c ∧ S.start ≤ e.start

theorem HintInforms.bar_le (h : S.HintInforms bar c a) : bar ≤ c.offset :=
  h.covered.elim Nat.le_of_lt And.left

theorem HintInforms.hintSilentTo (h : S.HintInforms bar c a) : S.HintSilentTo .here bar c a where
  holds := h.holds
  bar_le := h.bar_le
  hints e mem := (h.hints e mem).mono (Nat.le_succ _)

theorem HintInforms.mono (h : S.HintInforms bar c a) (le : r ≤ bar) : S.HintInforms r c a where
  holds := h.holds
  hints := h.hints
  covered := h.covered.imp (Nat.lt_of_le_of_lt le) (And.imp_left (Nat.le_trans le))

theorem HintSilentTo.widen (h : S.HintSilentTo .here bar c a) (le : r ≤ bar) :
    S.HintSilentTo up r c a where
  holds := h.holds
  bar_le := Nat.le_trans le (Nat.le_trans h.bar_le (up.offset_le c))
  hints e mem := (h.hints e mem).mono (Nat.succ_le_succ (up.offset_le c))

theorem FailureInforms.mono (h : S.FailureInforms bar e) (le : r ≤ bar) : S.FailureInforms r e :=
  ⟨h.informs, Nat.le_trans le h.bar_le⟩

theorem FailureInforms.furthest (he : S.FailureInforms bar e) (hf : S.Informs f) :
    S.FailureInforms bar (Failure.furthest e f) :=
  ⟨he.informs.furthest hf, Nat.le_trans he.bar_le (Failure.le_reach_furthest_left e f)⟩

theorem hintInforms_of_informs (holds : S.Holds c) (hf : S.Informs f) (reach : c.offset ≤ f.reach)
    (ha : ∀ e ∈ a, S.SilentBelow (r + 1) e) (near : r ≤ f.reach) (top : r ≤ S.stop)
    (le : bar ≤ c.offset) : S.HintInforms bar c (Failure.laterHint a (some f)) := by
  obtain ⟨e, hint, informs, further⟩ := informs_laterHint hf ha near top
  rw [hint]
  refine ⟨holds, fun g mem => ?_, .inr ⟨le, e, rfl, Nat.le_trans reach further⟩⟩
  exact Option.some.inj mem ▸ .inr informs

/-- What follows makes up for the silent failures before it. -/
theorem HintInforms.laterHint (hb : S.HintInforms r c b) (ha : ∀ e ∈ a, S.SilentBelow (r + 1) e)
    (top : r ≤ S.stop) (le : bar ≤ r) : S.HintInforms bar c (Failure.laterHint a b) := by
  rcases hb.covered with further | ⟨near, f, rfl, reach⟩
  · exact ⟨hb.holds, silentBelow_laterHint (fun e mem => (ha e mem).mono further) hb.hints,
      .inl (Nat.lt_of_le_of_lt le further)⟩
  · have informs : S.Informs f := (hb.hints f rfl).resolve_left (Nat.not_lt_of_le reach)
    exact hintInforms_of_informs hb.holds informs reach ha (Nat.le_trans near reach) top
      (Nat.le_trans le near)

theorem FailureInforms.after (he : S.FailureInforms r e) (hf : S.SilentBelow (r + 1) f)
    (top : r ≤ S.stop) (le : bar ≤ r) :
    S.FailureInforms bar (Failure.furthest e f) where
  informs := hf.elim
    (fun silent => he.informs.furthest_of_le (by have := he.bar_le; omega) (.inr (by omega)))
    he.informs.furthest
  bar_le := Nat.le_trans le (Nat.le_trans he.bar_le (Failure.le_reach_furthest_left e f))

theorem FailureInformsOrWord.furthest (he : S.FailureInformsOrWord c e)
    (hf : S.FailureInformsOrWord c f) (within : S.Within c) :
    S.FailureInformsOrWord c (Failure.furthest e f) := by
  have top := within.edge_le_stop .word
  rcases he with he | ⟨near, start⟩
  · rcases hf with hf | ⟨near, start⟩
    · exact .inl (he.furthest hf)
    · rcases Nat.lt_or_ge e.reach f.reach with less | le
      · rw [Failure.furthest_eq_right less]
        exact .inr ⟨near, start⟩
      · exact .inl (he.furthest_of_le le (.inr (Nat.le_trans near top)))
  · rcases hf with hf | ⟨near', start'⟩
    · rcases Nat.lt_or_ge f.reach e.reach with less | le
      · rw [Failure.furthest_eq_left less]
        exact .inr ⟨near, start⟩
      · exact .inl (hf.furthest_of_ge le ⟨Nat.le_trans near top, start⟩)
    · refine .inr ⟨by rw [Failure.reach_furthest]; omega, ?_⟩
      unfold Failure.furthest
      split
      · exact start
      split
      · exact start'
      · exact start

theorem FailureInforms.furthest_orWord (he : S.FailureInforms (Edge.word.offset c) e)
    (hf : S.FailureInformsOrWord c f) (within : S.Within c) :
    S.FailureInforms (Edge.word.offset c) (Failure.furthest e f) := by
  refine ⟨?_, Nat.le_trans he.bar_le (Failure.le_reach_furthest_left e f)⟩
  rcases hf with informs | ⟨near, -⟩
  · exact he.informs.furthest informs
  · exact he.informs.furthest_of_le (Nat.le_trans near he.bar_le)
      (.inr (Nat.le_trans near (within.edge_le_stop .word)))

/-- What a rule leaves silent reaches up to an edge only; it comes as far as another edge. -/
def SilentTo (S : Stretch) (up low : Edge) (p : Rule α) : Prop :=
  ∀ ⦃c⦄, S.Holds c → (p c).All (S.HintSilentTo up (low.offset c)) (S.FailureInforms (low.offset c))

/-- A rule leaves nothing silent, and makes up for what is silent up to an edge. -/
def Informing (S : Stretch) (low : Edge) (p : Rule α) : Prop :=
  ∀ ⦃c⦄, S.Holds c → (p c).All (S.HintInforms (low.offset c)) (S.FailureInforms (low.offset c))

/-- As a rule that makes up for a word, but it may fail over the word. -/
def InformingUnlessWord (S : Stretch) (p : Rule α) : Prop :=
  ∀ ⦃c⦄, S.Holds c → (p c).All (S.HintInforms (Edge.word.offset c)) (S.FailureInformsOrWord c)

def NoWordFirst (p : Rule α) : Prop :=
  ∀ ⦃c a c₁⦄, skipBlanks c.rest = c.rest → (p c).result? = some (a, c₁) →
    c.rest.takeWhile isWordChar = []

variable {p : Rule α} {q : Rule β}

theorem SilentTo.map (h : S.SilentTo up low p) (f : α → β) : S.SilentTo up low (p.map f) :=
  fun _ holds => (h holds).map f

theorem Informing.map (h : S.Informing low p) (f : α → β) : S.Informing low (p.map f) :=
  fun _ holds => (h holds).map f

theorem InformingUnlessWord.map (h : S.InformingUnlessWord p) (f : α → β) :
    S.InformingUnlessWord (p.map f) :=
  fun _ holds => (h holds).map f

theorem Informing.silentTo (h : S.Informing low p) : S.SilentTo .here low p :=
  fun _ holds => (h holds).mono HintInforms.hintSilentTo id

theorem SilentTo.here (h : S.SilentTo .here low p) : S.SilentTo .here .here p :=
  fun c holds => (h holds).mono (·.widen (low.offset_le c)) (·.mono (low.offset_le c))

theorem Informing.here (h : S.Informing low p) : S.Informing .here p :=
  fun c holds => (h holds).mono (·.mono (low.offset_le c)) (·.mono (low.offset_le c))

theorem Informing.unlessWord_of_noWordFirst (h : S.Informing .here p)
    (noWordFirst : NoWordFirst p) : S.InformingUnlessWord p := by
  intro c holds
  have outcome := h holds
  have bare := @noWordFirst c
  generalize p c = x at outcome bare ⊢
  cases x with
  | ok a c₁ hint =>
    rw [Edge.word_offset_of_bare (bare holds.skipped rfl)]
    exact outcome
  | fail e => exact .inl outcome.informs

theorem NoWordFirst.map (h : NoWordFirst p) (f : α → β) : NoWordFirst (p.map f) := by
  intro c b c₁ skipped read
  rw [result?_map] at read
  obtain ⟨⟨a, c₂⟩, first, -⟩ := Option.map_eq_some_iff.1 read
  exact h skipped first

theorem NoWordFirst.andThen (h : NoWordFirst p) : NoWordFirst (p.andThen q) := by
  intro c b c₁ skipped read
  rw [result?_andThen] at read
  cases first : (p c).result? with
  | none => rw [first] at read; cases read
  | some r => exact h skipped first

/- One rule after another. -/

theorem FailureInforms.andThen (he : S.FailureInforms r e) (ha : ∀ f ∈ a, S.SilentBelow (r + 1) f)
    (top : r ≤ S.stop) (le : bar ≤ r) : S.FailureInforms bar (a.elim e (Failure.furthest e)) := by
  cases a with
  | none => exact he.mono le
  | some f => exact he.after (ha f rfl) top le

theorem andThen_informing {bad : Failure → Prop} (hp : (p c).All (S.HintSilentTo up bar) bad)
    (weaken : ∀ {e}, S.FailureInforms bar e → bad e) (hq : S.Informing up q) :
    (p.andThen q c).All (S.HintInforms bar) bad :=
  hp.andThen fun first =>
    have top := first.holds.edge_le_stop up
    (hq first.holds).mono (·.laterHint first.hints top first.bar_le)
      fun failed => weaken (failed.andThen first.hints top first.bar_le)

theorem SilentTo.andThen_informing (hp : S.SilentTo up low p) (hq : S.Informing up q) :
    S.Informing low (p.andThen q) :=
  fun _ holds => Stretch.andThen_informing (hp holds) id hq

theorem SilentTo.andThen (hp : S.SilentTo up low p) (hq : S.SilentTo up' up q) :
    S.SilentTo up' low (p.andThen q) := by
  refine fun _ holds => (hp holds).andThen fun first => (hq first.holds).mono ?_
    (·.andThen first.hints (first.holds.edge_le_stop up) first.bar_le)
  refine fun second => ⟨second.holds, Nat.le_trans first.bar_le second.bar_le, ?_⟩
  refine silentBelow_laterHint (fun e mem => ?_) second.hints
  exact (first.hints e mem).mono (Nat.succ_le_succ second.bar_le)

theorem Informing.andThen (hp : S.Informing low p) (hq : S.Informing .here q) :
    S.Informing low (p.andThen q) :=
  hp.silentTo.andThen_informing hq

/- One rule or another. -/

theorem SilentTo.orElse {q : Rule α} (hp : S.SilentTo up low p) (hq : S.SilentTo up low q) :
    S.SilentTo up low (p.orElse q) :=
  fun _ holds => (hp holds).orElse (hq holds) fun first second => second.furthest first.informs

theorem Informing.orElse {q : Rule α} (hp : S.Informing low p) (hq : S.Informing low q) :
    S.Informing low (p.orElse q) :=
  fun _ holds => (hp holds).orElse (hq holds) fun first second => second.furthest first.informs

theorem InformingUnlessWord.orElse {q : Rule α} (hp : S.InformingUnlessWord p)
    (hq : S.Informing .word q) : S.Informing .word (p.orElse q) :=
  fun _ holds => (hp holds).orElse (hq holds) fun first second =>
    second.furthest_orWord first holds.toWithin

/- Rules that need not succeed. -/

theorem Informing.optional (h : S.Informing .here p) : S.Informing .here (optional p) := by
  refine fun c holds => (h holds).optional fun {e} bad => ?_
  exact ⟨holds, fun f mem => Option.some.inj mem ▸ .inr bad.informs,
    .inr ⟨Nat.le_refl _, e, rfl, bad.bar_le⟩⟩

theorem SilentTo.optional (h : S.SilentTo .here .here p) : S.SilentTo .here .here (optional p) := by
  refine fun c holds => (h holds).optional fun {e} bad => ?_
  exact ⟨holds, Nat.le_refl _, fun f mem => Option.some.inj mem ▸ .inr bad.informs⟩

/-- Where nothing has to be read, a word is still there to be read. -/
theorem SilentTo.optional_word [Forward p] (h : S.SilentTo .here .here p) :
    S.SilentTo .word .word (Rule.optional p) := by
  intro c holds
  have outcome := h holds
  have onto := Forward.advances (p := p) c
  unfold Rule.optional
  generalize p c = x at outcome onto ⊢
  cases x with
  | ok a c₁ hint =>
    cases onto with
    | ok onto told =>
      refine ⟨outcome.holds, onto.word_le, fun e mem => (outcome.hints e mem).mono ?_⟩
      exact Nat.succ_le_succ (Edge.word.offset_le c₁)
  | fail e =>
    exact ⟨holds, Nat.le_refl _, fun f mem => Option.some.inj mem ▸ .inr outcome.informs⟩

/- Lists. -/

/-- Where a list has come to, and why it went no further: the failure that ended it makes up for
all that was silent before. -/
structure Listed (S : Stretch) (separator : Rule β) (s : Series α) : Prop where
  holds : S.Holds s.cursor
  ended : S.FailureInforms s.cursor.offset s.ended
  hints : ∀ e ∈ s.hint, S.SilentBelow (min s.ended.reach S.stop + 1) e
  /-- If a separator stands there, it was an item that failed behind it. -/
  behind : ∀ {b c₁ hint}, separator s.cursor = .ok b c₁ hint → c₁.offset ≤ s.ended.reach

theorem Within.length_le (h : S.Within c) (h₁ : S.Within c₁) (le : c.offset ≤ c₁.offset) :
    c₁.rest.length ≤ c.rest.length := by
  have level := h.level
  have level₁ := h₁.level
  omega

variable {item : Rule α} {separator : Rule β}

theorem listed_pairsUpTo (items : S.SilentTo .here .here item) (eats : Eats item)
    (separators : S.SilentTo .here .here separator) {n : Nat} {hint : Option Failure}
    (enough : c.rest.length < n) (holds : S.Holds c)
    (hints : ∀ e ∈ hint, S.SilentBelow (c.offset + 1) e) :
    S.Listed separator (pairsUpTo item separator n c hint) ∧
      c.offset ≤ (pairsUpTo item separator n c hint).cursor.offset := by
  induction n generalizing c hint with
  | zero => exact absurd enough (Nat.not_lt_zero _)
  | succ n ih =>
    have first := separators holds
    rw [pairsUpTo]
    cases read : separator c with
    | fail e =>
      rw [read] at first
      refine ⟨⟨holds, first, fun f mem => (hints f mem).mono ?_, fun again => ?_⟩, Nat.le_refl _⟩
      · exact Nat.succ_le_succ (Nat.le_min.2 ⟨first.bar_le, holds.offset_le_stop⟩)
      · cases read.symm.trans again
    | ok b c₁ hint₁ =>
      rw [read] at first
      have further : c.offset ≤ c₁.offset := first.bar_le
      have late : ∀ e ∈ Failure.laterHint hint hint₁, S.SilentBelow (c₁.offset + 1) e :=
        silentBelow_laterHint (fun e mem => (hints e mem).mono (Nat.succ_le_succ further))
          first.hints
      have second := items first.holds
      dsimp only
      cases read₂ : item c₁ with
      | fail e =>
        rw [read₂] at second
        refine ⟨⟨holds, FailureInforms.mono second further, fun f mem => (late f mem).mono ?_,
          fun again => ?_⟩, Nat.le_refl _⟩
        · exact Nat.succ_le_succ (Nat.le_min.2 ⟨second.bar_le, first.holds.offset_le_stop⟩)
        · obtain ⟨-, rfl, -⟩ := Outcome.ok.inj (read.symm.trans again)
          exact second.bar_le
      | ok a c₂ hint₂ =>
        rw [read₂] at second
        have on : c₁.offset ≤ c₂.offset := second.bar_le
        have left := holds.length_le first.holds.toWithin further
        have less : c₂.rest.length < c₁.rest.length := eats (congrArg Outcome.result? read₂)
        obtain ⟨listed, le⟩ := ih (by omega) second.holds
          (silentBelow_laterHint (fun e mem => (late e mem).mono (Nat.succ_le_succ on))
            second.hints)
        exact ⟨⟨listed.holds, listed.ended, listed.hints, listed.behind⟩,
          Nat.le_trans further (Nat.le_trans on le)⟩

theorem listed_series (first : S.SilentTo .here low item) (items : S.SilentTo .here .here item)
    (eats : Eats item) (separators : S.SilentTo .here .here separator) (holds : S.Holds c) :
    (∃ e, series item separator c = ⟨[], c, none, e⟩ ∧ S.FailureInforms (low.offset c) e) ∨
      (series item separator c).items ≠ [] ∧ S.Listed separator (series item separator c) ∧
        low.offset c ≤ (series item separator c).cursor.offset := by
  have outcome := first holds
  unfold series
  generalize item c = x at outcome ⊢
  cases x with
  | fail e => exact .inl ⟨e, rfl, outcome⟩
  | ok a c₁ hint =>
    obtain ⟨listed, le⟩ := listed_pairsUpTo items eats separators (Nat.lt_succ_self _)
      outcome.holds outcome.hints
    exact .inr ⟨List.cons_ne_nil _ _, ⟨listed.holds, listed.ended, listed.hints, listed.behind⟩,
      Nat.le_trans outcome.bar_le le⟩

theorem Listed.hintInforms {s : Series α} (h : S.Listed separator s) (holds : S.Holds c₁)
    (reach : c₁.offset ≤ s.ended.reach) (le : bar ≤ c₁.offset)
    (ha : ∀ e ∈ a, S.SilentBelow (c₁.offset + 1) e) :
    S.HintInforms bar c₁ (Failure.laterHint (Failure.laterHint s.hint a) (some s.ended)) := by
  have top : c₁.offset ≤ min s.ended.reach S.stop := Nat.le_min.2 ⟨reach, holds.offset_le_stop⟩
  refine hintInforms_of_informs holds h.ended.informs reach
    (silentBelow_laterHint h.hints fun e mem => ?_)
    (Nat.min_le_left ..) (Nat.min_le_right ..) le
  exact (ha e mem).mono (Nat.succ_le_succ top)

theorem Listed.closeList {s : Series α} (h : S.Listed separator s)
    (separators : S.SilentTo .here .here separator) (le : bar ≤ s.cursor.offset) (items : List α) :
    (closeList separator items s.cursor s.hint s.ended).All (S.HintInforms bar)
      (S.FailureInforms bar) := by
  have trailing := separators h.holds
  have behind := @h.behind
  unfold Rule.closeList
  generalize separator s.cursor = x at trailing behind ⊢
  cases x with
  | ok b c₁ hint =>
    exact h.hintInforms trailing.holds (behind rfl) (Nat.le_trans le trailing.bar_le) trailing.hints
  | fail e =>
    refine h.hintInforms h.holds h.ended.bar_le le fun f mem => ?_
    exact Option.some.inj mem ▸ .inr trailing.informs

theorem SilentTo.separated₁ (first : S.SilentTo .here low item)
    (items : S.SilentTo .here .here item) (eats : Eats item)
    (separators : S.SilentTo .here .here separator) :
    S.Informing low (separated₁ item separator) := by
  intro c holds
  unfold Rule.separated₁
  rcases listed_series first items eats separators holds with ⟨e, failed, bad⟩ | ⟨some, listed, le⟩
  · rw [failed]
    exact bad
  · generalize series item separator c = s at some listed le ⊢
    obtain ⟨_ | ⟨a, as⟩, last, hint, ended⟩ := s
    · exact absurd rfl some
    · have hintInforms := listed.hintInforms (a := none) listed.holds listed.ended.bar_le le
        fun e mem => absurd mem (Option.not_mem_none e)
      cases hint <;> exact hintInforms

theorem SilentTo.list₁ (items : S.SilentTo .here .here item) (eats : Eats item)
    (separators : S.SilentTo .here .here separator) : S.Informing .here (list₁ item separator) := by
  intro c holds
  unfold Rule.list₁
  rcases listed_series items items eats separators holds with ⟨e, failed, bad⟩ | ⟨some, listed, le⟩
  · rw [failed]
    exact bad
  · generalize series item separator c = s at some listed le ⊢
    obtain ⟨_ | ⟨a, as⟩, last, hint, ended⟩ := s
    · exact absurd rfl some
    · exact listed.closeList separators le (a :: as)

theorem SilentTo.list (items : S.SilentTo .here .here item) (eats : Eats item)
    (separators : S.SilentTo .here .here separator) : S.Informing .here (list item separator) := by
  intro c holds
  rw [list_eq_optional]
  exact ((items.list₁ eats separators).optional.map _) holds

theorem InformingUnlessWord.many [Forward p]
    (h : ∀ ⦃c⦄, S.Holds c → (p c).All (S.HintSilentTo .here c.offset) (S.FailureInformsOrWord c)) :
    S.SilentTo .word .word (many p) := by
  have repeated {n : Nat} {c : Cursor} {hint : Option Failure} (holds : S.Holds c)
      (hints : ∀ e ∈ hint, S.SilentBelow (c.offset + 1) e) :
      S.HintSilentTo .word (Edge.word.offset c) (manyUpTo p n c hint).2.1
        (manyUpTo p n c hint).2.2 := by
    induction n generalizing c hint with
    | zero =>
      refine ⟨holds, Nat.le_refl _, fun e mem => (hints e mem).mono ?_⟩
      exact Nat.succ_le_succ (Edge.word.offset_le c)
    | succ n ih =>
      have outcome := h holds
      have onto := Forward.advances (p := p) c
      rw [manyUpTo]
      generalize p c = x at outcome onto ⊢
      cases x with
      | fail e =>
        refine ⟨holds, Nat.le_refl _, silentBelow_laterHint (fun f mem => (hints f mem).mono ?_) ?_⟩
        · exact Nat.succ_le_succ (Edge.word.offset_le c)
        · intro f mem
          exact Option.some.inj mem ▸ outcome.symm.imp_left fun near => Nat.lt_succ_of_le near.1
      | ok a c₁ hint₁ =>
        cases onto with
        | ok onto told =>
          have late := silentBelow_laterHint
            (fun e mem => (hints e mem).mono (Nat.succ_le_succ outcome.bar_le)) outcome.hints
          have rest := ih outcome.holds late
          exact ⟨rest.holds, Nat.le_trans onto.word_le rest.bar_le, rest.hints⟩
  intro c holds
  have none : ∀ e ∈ (none : Option Failure), S.SilentBelow (c.offset + 1) e :=
    fun e mem => absurd mem (Option.not_mem_none e)
  exact repeated (n := c.rest.length + 1) holds none

end Stretch

end ImplFamilies.Grammar
