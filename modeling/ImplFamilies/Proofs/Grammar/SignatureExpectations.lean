import ImplFamilies.Proofs.Grammar.TypeExpectations

/-!
What is expected where whole signatures fail. Behind `impl` every failure informs of it, by a
character or by the name of the one word that was expected: `for`, or `where`. At the opening two
words are, and then no name is left of them.
-/

namespace ImplFamilies.Grammar

open Text Rule

theorem StandsFrom.start_le_reach {c : Cursor} {e : Failure} (h : StandsFrom c e) :
    e.start ≤ e.reach := by
  cases h with
  | unexpected c₁ onto place =>
    have reach : e.reach = c₁.offset := congrArg Prod.fst place
    have start : e.start = c₁.offset := congrArg (·.2.1) place
    omega
  | refused c₁ c₂ word onto reads wordChars place =>
    have reach : e.reach = c₂.offset := congrArg Prod.fst place
    have start : e.start = c₁.offset := congrArg (·.2.1) place
    have on := reads.onto.offset_le
    omega

namespace Stretch

variable {α β : Type} {S : Stretch} {c : Cursor} {e f : Failure} {p : Rule α} {bar : Nat}
  {nested : Spot → Rule Ty}

structure Named (S : Stretch) (e : Failure) : Prop where
  start_le : S.start ≤ e.start
  near : e.reach ≤ S.stop
  label : ∃ name, e.label = .named name

def InformsOrNames (S : Stretch) (e : Failure) : Prop :=
  S.Informs e ∨ S.Named e

theorem InformsOrNames.start_le (h : S.InformsOrNames e) : S.start ≤ e.start :=
  h.elim Informs.start_le Named.start_le

theorem Holds.named_refusal (h : S.Holds c) (text : String) : S.Named (c.refusal text) where
  start_le := (c.start_refusal text).symm ▸ h.start_le
  near := Nat.le_trans (c.reach_refusal_le text) (h.edge_le_stop .word)
  label := ⟨text, c.label_refusal text⟩

theorem Named.furthest {r : Nat} (he : S.Named e) (hf : S.SilentBelow r f) (le : r ≤ e.reach) :
    S.InformsOrNames (Failure.furthest e f) := by
  rcases hf with silent | informs
  · rw [Failure.furthest_eq_left (Nat.lt_of_lt_of_le silent le)]
    exact .inr he
  · rcases Nat.lt_or_ge f.reach e.reach with less | ge
    · rw [Failure.furthest_eq_left less]
      exact .inr he
    · exact .inl (informs.furthest_of_ge ge ⟨he.near, he.start_le⟩)

theorem Informs.furthest_informsOrNames (he : S.Informs e)
    (hf : f.reach < e.reach ∨ S.InformsOrNames f) :
    S.InformsOrNames (Failure.furthest e f) := by
  rcases hf with less | informs | named
  · rw [Failure.furthest_eq_left less]
    exact .inl he
  · exact .inl (he.furthest informs)
  · rcases Nat.lt_or_ge e.reach f.reach with less | ge
    · rw [Failure.furthest_eq_right less]
      exact .inr named
    · exact .inl (he.furthest_of_le ge (.inr named.near))

structure HintInformsOrNames (S : Stretch) (c : Cursor) (hint : Option Failure) : Prop where
  holds : S.Holds c
  hints : ∀ e ∈ hint, e.reach < c.offset ∨ S.InformsOrNames e

theorem HintInforms.ended {a : Option Failure} (h : S.HintInforms bar c a) :
    S.HintInformsOrNames c a where
  holds := h.holds
  hints e mem := (h.hints e mem).imp_right .inl

/- Lists of parameters. -/

theorem informing_lifetimeParam : S.Informing .here lifetimeParam :=
  (silentTo_lifetime.andThen_informing
    (((informing_token (by decide) (by decide)).andThen
      informing_lifetimeBounds).map _).optional).map _

theorem informing_typeParam (types : S.InformingTypes nested) :
    S.Informing .here (typeParam (nested .full)) := by
  have bounds : S.Informing .here (optional ((token ":").keepRight (bounds (nested .full)))) :=
    (((informing_token (by decide) (by decide)).andThen (informing_bounds types)).map _).optional
  have default : S.Informing .here (optional ((token "=").keepRight (nested .full))) :=
    (((informing_token (by decide) (by decide)).andThen
      (types.informing .full).here).map _).optional
  exact ((silentTo_identifier.here.andThen_informing bounds).andThen default).map _

theorem informing_generics (types : S.InformingTypes nested) :
    S.Informing .here (generics (nested .full)) := by
  have item : S.SilentTo .here .here (lifetimeParam.orElse (typeParam (nested .full))) :=
    (informing_lifetimeParam.orElse (informing_typeParam types)).silentTo
  have shorter : Eats (lifetimeParam.orElse (typeParam (nested .full))) :=
    Scheme.eats_rule types.tells types.eats (Scheme.lifetimeParam.orElse Scheme.typeParam) rfl
  exact informing_between (by decide) (by decide) (by decide) (by decide)
    (item.list shorter (informing_token (by decide) (by decide)).silentTo).silentTo

theorem informing_whereItems (types : S.InformingTypes nested) :
    S.Informing .here (list (lifetimeItem.orElse (typeItem (nested .full))) (token ",")) := by
  have lifetimes : S.Informing .here lifetimeItem :=
    (((silentTo_lifetime.andThen_informing (informing_token (by decide) (by decide))).map _).andThen
      informing_lifetimeBounds).map _
  have named : S.Informing .here (typeItem (nested .full)) :=
    (((silentTo_identifier.here.andThen_informing
      (informing_token (by decide) (by decide))).map _).andThen (informing_bounds types)).map _
  exact (lifetimes.orElse named).silentTo.list
    (Scheme.eats_rule types.tells types.eats (Scheme.lifetimeItem.orElse Scheme.typeItem) rfl)
    (informing_token (by decide) (by decide)).silentTo

/- Signatures, from a place behind `impl`. -/

theorem whereClause_outcome (types : S.InformingTypes nested) {bad : Failure → Prop}
    (hp : (p c).All (S.HintInforms bar) bad) :
    (p.andThen (optional (whereClause (nested .full))) c).All S.HintInformsOrNames bad := by
  refine hp.andThen fun {c₁ hint} first => ?_
  have start : "where".toList.head?.any isWordStart = true := by decide
  have clause := keyword_keepRight start (informing_whereItems types) first.holds
  have tried : (optional (whereClause (nested .full)) c₁).All
      (fun c₂ hint₂ => S.HintInformsOrNames c₂ (Failure.laterHint hint hint₂)) fun _ => False := by
    refine (clause.mono (fun {c₂ hint₂} hintInforms => ?_) id).optional fun {e} failed => ?_
    · have behind : S.HintInforms c₁.offset c₂ hint₂ := hintInforms.mono (Edge.word.offset_le c₁)
      exact (behind.laterHint first.hintSilentTo.hints first.holds.offset_le_stop
        (Nat.le_refl _)).ended
    -- Without a clause the name of the missing word is left over.
    · refine ⟨first.holds, fun g mem => ?_⟩
      rcases failed with informs | rfl
      · have late : ∀ f ∈ some e, S.SilentBelow c₁.offset f := fun f mem =>
          Option.some.inj mem ▸ .inr informs
        exact (silentBelow_laterHint first.hints late g mem).imp_right .inl
      · have named := first.holds.named_refusal "where"
        right
        cases hint with
        | none => exact Option.some.inj mem ▸ .inr named
        | some f =>
          exact Option.some.inj mem ▸
            named.furthest (first.hints f rfl) (c₁.le_reach_refusal "where")
  exact tried.mono id False.elim

/-- A word that must follow is told by its name if it is missing. -/
theorem keepLeft_keyword {text : String} (start : text.toList.head?.any isWordStart = true)
    (hp : (p c).All (S.HintInforms bar) S.InformsOrNames) :
    (p.keepLeft (keyword text) c).All (S.HintSilentTo .here bar) S.InformsOrNames := by
  refine .map (hp.andThen fun {c₁ hint} first => ?_) Prod.fst
  refine (keyword_outcome start first.holds).mono (fun {c₂ hint₂} second => ?_) ?_
  · have on : c₁.offset ≤ c₂.offset := Nat.le_trans (Edge.word.offset_le c₁) second.bar_le
    refine ⟨second.holds, Nat.le_trans first.bar_le on, silentBelow_laterHint ?_ second.hints⟩
    exact fun e mem => (first.hints e mem).mono (Nat.le_succ_of_le on)
  · rintro e rfl
    have named := first.holds.named_refusal text
    cases hint with
    | none => exact .inr named
    | some f => exact named.furthest (first.hints f rfl) (c₁.le_reach_refusal text)

theorem trait_outcome (types : S.InformingTypes nested)
    (first : ((optional (keyword "unsafe")).keepLeft (keyword "impl") c).All
      (S.HintSilentTo .here bar) S.InformsOrNames) :
    (traitSignature (nested .full) c).All S.HintInformsOrNames S.InformsOrNames := by
  have informs {e : Failure} (bad : S.FailureInforms bar e) : S.InformsOrNames e := .inl bad.informs
  have generics := andThen_informing first informs (informing_generics types).optional
  have negation := andThen_informing (q := optional (token "!"))
    (generics.mono HintInforms.hintSilentTo id) informs
    (informing_token (by decide) (by decide)).optional
  have path := andThen_informing (negation.mono HintInforms.hintSilentTo id) informs
    (informing_typePath types).here
  have start : "for".toList.head?.any isWordStart = true := by decide
  have word := keepLeft_keyword start path
  have self := andThen_informing word informs (types.informing .full).here
  exact (whereClause_outcome types self).map _

theorem inherent_outcome (types : S.InformingTypes nested)
    (first : (keyword "impl" c).All (S.HintSilentTo .here bar) S.Informs) :
    (inherentSignature (nested .full) c).All S.HintInformsOrNames S.Informs := by
  have informs {e : Failure} (bad : S.FailureInforms bar e) : S.Informs e := bad.informs
  have generics :=
    (andThen_informing first informs (informing_generics types).optional).map Prod.snd
  have self := andThen_informing (generics.mono HintInforms.hintSilentTo id) informs
    (types.informing .full).here
  exact (whereClause_outcome types self).map _

theorem hintSilentTo_stretch {c : Cursor} (skipped : skipBlanks c.rest = c.rest)
    {hint : Option Failure}
    (near : ∀ e ∈ hint, e.reach ≤ c.offset) : c.stretch.HintSilentTo .here c.offset c hint :=
  ⟨⟨within_stretch c, skipped⟩, Nat.le_refl _, fun e mem => .inl (Nat.lt_succ_of_le (near e mem))⟩

end Stretch

/- The opening of a signature. -/

def Cursor.pastWord (c : Cursor) : Cursor :=
  (c.skipWhile isWordChar).skipWhile isBlank

theorem Cursor.word_le_pastWord (c : Cursor) : Edge.word.offset c ≤ c.pastWord.offset :=
  Nat.le_add_right ..

theorem Cursor.lt_pastWord (c : Cursor) (some : c.rest.takeWhile isWordChar ≠ []) :
    c.offset < c.pastWord.offset := by
  have letters := List.length_pos_iff.2 some
  refine Nat.lt_of_lt_of_le ?_ c.word_le_pastWord
  simp only [Edge.offset, Cursor.skipWhile]
  omega

/-- Why a signature is refused, by where the failure stands. -/
inductive Verdict (c : Cursor) (e : Failure) : Prop
  /-- Neither `unsafe` nor `impl` opens it: two names, and so none. -/
  | opening (start : e.start = c.offset) (expected : e.expected = []) (label : e.label = .mixed)
      (remark : e.remark = none)
  /-- There is no `impl` behind `unsafe`. -/
  | second (word : c.rest.takeWhile isWordChar = "unsafe".toList)
      (start : e.start = c.pastWord.offset) (label : e.label = .named "impl")
  | behind (c₁ : Cursor)
      (place : c₁ = c ∨ c.rest.takeWhile isWordChar = "unsafe".toList ∧ c₁ = c.pastWord)
      (word : c₁.rest.takeWhile isWordChar = "impl".toList)
      (speaks : c₁.pastWord.stretch.InformsOrNames e)

theorem Failure.reach_laterHint_le {a b : Option Failure} {r : Nat} (ha : ∀ e ∈ a, e.reach ≤ r)
    (hb : ∀ e ∈ b, e.reach ≤ r) : ∀ e ∈ laterHint a b, e.reach ≤ r := by
  intro e mem
  rcases mem_laterHint mem with first | second | ⟨f, hf, g, hg, rfl⟩
  · exact ha e first
  · exact hb e second
  · rw [reach_furthest]
    exact Nat.max_le.2 ⟨hb g hg, ha f hf⟩

theorem Cursor.skipped_pastWord (c : Cursor) : skipBlanks c.pastWord.rest = c.pastWord.rest :=
  skipBlanks_skipBlanks _

def ReadTo (c c₁ : Cursor) (hint : Option Failure) : Prop :=
  ∃ S : Stretch, S.HintInformsOrNames c₁ hint ∧ ∀ {e}, S.InformsOrNames e → Verdict c e

section Opening

variable {α β : Type} {c c₁ : Cursor} {e f h : Failure}

theorem Outcome.All.told {p : Rule α} [Forward p] {good : Cursor → Option Failure → Prop}
    {bad : Failure → Prop} (h : (p c).All good bad) :
    (p c).All good fun e => bad e ∧ StandsFrom c e := by
  have advances := Forward.advances (p := p) c
  generalize p c = x at h advances ⊢
  cases advances with
  | ok onto told => exact h
  | fail told => exact ⟨h, told⟩

theorem Outcome.All.failed {p : Rule α} (q : Rule β) (hp : (p c).All (fun _ _ => False) (· = e)) :
    (p.andThen q c).All (fun _ _ => False) (· = e) :=
  hp.andThen False.elim

theorem traitSignature_failed (full : Rule Ty)
    (failed : (optional (keyword "unsafe")).keepLeft (keyword "impl") c = .fail e) :
    (traitSignature full c).All (fun _ _ => False) (· = e) := by
  have first : ((optional (keyword "unsafe")).keepLeft (keyword "impl") c).All
      (fun _ _ => False) (· = e) := by rw [failed]; rfl
  exact ((((((first.failed _).failed _).failed _).failed _).map _).failed _ |>.failed _).map _

theorem inherentSignature_failed (full : Rule Ty) (failed : keyword "impl" c = .fail e) :
    (inherentSignature full c).All (fun _ _ => False) (· = e) := by
  have first : (keyword "impl" c).All (fun _ _ => False) (· = e) := by rw [failed]; rfl
  exact ((((first.failed _).map _).failed _).failed _).map _

theorem keyword_of_word {text : String} (start : text.toList.head?.any isWordStart = true)
    (skipped : skipBlanks c.rest = c.rest) (word : c.rest.takeWhile isWordChar = text.toList) :
    keyword text c =
      .ok () c.pastWord (some (((c.skipWhile isWordChar).unexpected []).withLabel text)) := by
  rw [keyword_eq start (Cursor.skipWhile_of_skipped skipped), if_pos word]
  rfl

theorem keyword_of_other {text : String} (start : text.toList.head?.any isWordStart = true)
    (skipped : skipBlanks c.rest = c.rest) (other : c.rest.takeWhile isWordChar ≠ text.toList) :
    keyword text c = .fail (c.refusal text) := by
  rw [keyword_eq start (Cursor.skipWhile_of_skipped skipped), if_neg other]

variable {mark : Option Unit} (first : optional (keyword "unsafe") c = .ok mark c₁ (some h))
  (skipped : skipBlanks c₁.rest = c₁.rest) (near : h.reach ≤ Edge.word.offset c₁)

include first skipped near in
theorem opening_of_impl (word : c₁.rest.takeWhile isWordChar = "impl".toList)
    {bad : Failure → Prop} :
    ((optional (keyword "unsafe")).keepLeft (keyword "impl") c).All
      (c₁.pastWord.stretch.HintSilentTo .here c₁.pastWord.offset) bad := by
  refine .map ?_ Prod.fst
  unfold Rule.andThen
  rw [first]
  dsimp only
  rw [keyword_of_word (by decide) skipped word]
  refine Stretch.hintSilentTo_stretch c₁.skipped_pastWord (Failure.reach_laterHint_le ?_ ?_)
  · exact fun e mem => Option.some.inj mem ▸ Nat.le_trans near c₁.word_le_pastWord
  · exact fun e mem => Option.some.inj mem ▸ c₁.word_le_pastWord

include first skipped in
theorem opening_of_other (other : c₁.rest.takeWhile isWordChar ≠ "impl".toList) :
    (optional (keyword "unsafe")).keepLeft (keyword "impl") c =
      .fail (Failure.furthest (c₁.refusal "impl") h) := by
  unfold keepLeft Rule.map Rule.andThen
  rw [first]
  dsimp only
  rw [keyword_of_other (by decide) skipped other]

end Opening

/-- Two names at one place leave none. -/
theorem Failure.names_lost {e f : Failure} {x y : String} (apart : x ≠ y)
    (same : e.reach = f.reach) (he : e.expected = []) (hf : f.expected = [])
    (labels : e.label = .named x ∧ f.label = .named y) :
    (furthest e f).expected = [] ∧ (furthest e f).label = .mixed := by
  rw [furthest_of_eq same]
  exact ⟨by simp [he, hf, joinExpected], by simp [labels, Label.join, apart]⟩

theorem verdict_opening {c : Cursor} {e : Failure} (same : (c.refusal "impl").reach = e.reach)
    (lost : e.expected = [] ∧ e.label = .mixed) :
    Verdict c (Failure.furthest (c.refusal "impl") e) := by
  rw [Failure.furthest_of_eq same]
  exact .opening (c.start_refusal "impl")
    (by simp [lost.1, c.expected_refusal, Failure.joinExpected])
    (by simp [lost.2, c.label_refusal, Label.join]) (c.remark_refusal "impl")

theorem verdict_second {c : Cursor} {h : Failure}
    (word : c.rest.takeWhile isWordChar = "unsafe".toList) (reach : h.reach = Edge.word.offset c)
    (expected : h.expected = []) (label : h.label = .named "unsafe") :
    Verdict c (Failure.furthest (c.refusal "impl")
      (Failure.furthest (c.pastWord.refusal "impl") h)) := by
  have letter : c.rest.head?.any isWordStart = true := by
    cases rest : c.rest with
    | nil => rw [rest] at word; cases word
    | cons x cs =>
      rw [rest, List.takeWhile_cons] at word
      split at word
      · rw [List.head?_cons, (List.cons.inj word).1]
        decide
      · cases word
  have here : (c.refusal "impl").reach = Edge.word.offset c := by
    rw [Cursor.refusal, if_pos letter]
  have on : h.reach ≤ (c.pastWord.refusal "impl").reach :=
    Nat.le_trans (Nat.le_of_eq reach)
      (Nat.le_trans c.word_le_pastWord (c.pastWord.le_reach_refusal "impl"))
  rcases Nat.lt_or_eq_of_le on with less | same
  · rw [Failure.furthest_eq_left less, Failure.furthest_eq_right (by omega)]
    exact .second word (c.pastWord.start_refusal "impl") (c.pastWord.label_refusal "impl")
  · refine verdict_opening ?_ ?_
    · rw [Failure.reach_furthest]
      omega
    · exact Failure.names_lost (by decide) same.symm (c.pastWord.expected_refusal "impl") expected
        ⟨c.pastWord.label_refusal "impl", label⟩

theorem verdict_implementation {c : Cursor} (skipped : skipBlanks c.rest = c.rest) :
    ((traitSignature (typeRule .full)).orElse (inherentSignature (typeRule .full)) c).All
      (ReadTo c) (Verdict c) := by
  by_cases marked : c.rest.takeWhile isWordChar = "unsafe".toList
  · have notImpl : c.rest.takeWhile isWordChar ≠ "impl".toList := by
      rw [marked]
      decide
    have first : optional (keyword "unsafe") c = .ok (some ()) c.pastWord
        (some (((c.skipWhile isWordChar).unexpected []).withLabel "unsafe")) := by
      unfold Rule.optional
      rw [keyword_of_word (by decide) skipped marked]
    have inherent := inherentSignature_failed (typeRule .full)
      (keyword_of_other (by decide) skipped notImpl)
    by_cases word : c.pastWord.rest.takeWhile isWordChar = "impl".toList
    · have trait := Stretch.trait_outcome (Stretch.informingTypes_typeRule _)
        (opening_of_impl first c.skipped_pastWord
          (Nat.le_trans c.word_le_pastWord (Edge.word.offset_le _)) word)
      refine (trait.told.mono (fun ended => ?_) id).orElse (inherent.mono False.elim id) ?_
      · exact ⟨_, ended, .behind c.pastWord (.inr ⟨marked, rfl⟩) word⟩
      · rintro e _ ⟨speaks, told⟩ rfl
        have less : (c.refusal "impl").reach < e.reach := calc
          (c.refusal "impl").reach ≤ Edge.word.offset c := c.reach_refusal_le "impl"
          _ ≤ c.pastWord.offset := c.word_le_pastWord
          _ < c.pastWord.pastWord.offset := c.pastWord.lt_pastWord (by rw [word]; decide)
          _ ≤ e.start := speaks.start_le
          _ ≤ e.reach := told.start_le_reach
        rw [Failure.furthest_eq_right less]
        exact .behind c.pastWord (.inr ⟨marked, rfl⟩) word speaks
    · have trait := traitSignature_failed (typeRule .full)
        (opening_of_other first c.skipped_pastWord word)
      refine (trait.mono False.elim id).orElse (inherent.mono False.elim id) ?_
      rintro _ _ rfl rfl
      exact verdict_second marked rfl rfl rfl
  · have first : optional (keyword "unsafe") c = .ok none c (some (c.refusal "unsafe")) := by
      unfold Rule.optional
      rw [keyword_of_other (by decide) skipped marked]
    by_cases word : c.rest.takeWhile isWordChar = "impl".toList
    · have trait := Stretch.trait_outcome (Stretch.informingTypes_typeRule _)
        (opening_of_impl first skipped (c.reach_refusal_le "unsafe") word)
      have start : (keyword "impl" c).All
          (c.pastWord.stretch.HintSilentTo .here c.pastWord.offset) c.pastWord.stretch.Informs := by
        rw [keyword_of_word (by decide) skipped word]
        exact Stretch.hintSilentTo_stretch c.skipped_pastWord fun e mem =>
          Option.some.inj mem ▸ c.word_le_pastWord
      have inherent := Stretch.inherent_outcome (Stretch.informingTypes_typeRule _) start
      refine (trait.mono (fun ended => ?_) id).orElse (inherent.mono (fun ended => ?_) id)
        fun speaks informs =>
          .behind c (.inl rfl) word (informs.furthest_informsOrNames (.inr speaks))
      all_goals exact ⟨_, ended, .behind c (.inl rfl) word⟩
    · have trait := traitSignature_failed (typeRule .full)
        (opening_of_other first skipped word)
      have inherent := inherentSignature_failed (typeRule .full)
        (keyword_of_other (by decide) skipped word)
      refine (trait.mono False.elim id).orElse (inherent.mono False.elim id) ?_
      rintro _ _ rfl rfl
      have same := c.reach_refusal "impl" "unsafe"
      refine verdict_opening (by rw [Failure.reach_furthest]; omega) ?_
      exact Failure.names_lost (by decide) same (c.expected_refusal "impl")
        (c.expected_refusal "unsafe") ⟨c.label_refusal "impl", c.label_refusal "unsafe"⟩

theorem verdict_endOfInput {α : Type} {p : Rule α} {c c₀ : Cursor}
    (hp : (p c₀).All (ReadTo c) (Verdict c)) :
    (p.keepLeft endOfInput c₀).All (fun _ _ => True) (Verdict c) := by
  refine .map (hp.andThen fun {c₁ hint} first => ?_) Prod.fst
  obtain ⟨S, ended, verdict⟩ := first
  unfold endOfInput
  split
  · trivial
  · have shows := ended.holds.shows .endOfInput
    cases hint with
    | none => exact verdict (.inl shows.informs)
    | some f => exact verdict (shows.informs.furthest_informsOrNames (ended.hints f rfl))

/-- Every refusal of a text as a signature falls under one of the verdicts at its opening. -/
theorem verdict_of_refused {source : List Char} {e : Failure}
    (refused : readSignature source = .fail e) :
    Verdict ((Cursor.ofText source).skipWhile isBlank) e := by
  have implementation := verdict_implementation
    (c := (Cursor.ofText source).skipWhile isBlank) (skipBlanks_skipBlanks source)
  have whole : (signature (typeRule .full) (.ofText source)).All (fun _ _ => True)
      (Verdict ((Cursor.ofText source).skipWhile isBlank)) := by
    refine verdict_endOfInput (.padded (implementation.mono ?_ id))
    rintro c₁ hint ⟨S, ended, verdict⟩
    rw [ended.holds.skipWhile_eq]
    exact ⟨S, ended, verdict⟩
  have same : readSignature source = signature (typeRule .full) (.ofText source) :=
    readSignature_eq source
  rw [← same, refused] at whole
  exact whole

end ImplFamilies.Grammar
