import ImplFamilies.Grammar.Signatures
import ImplFamilies.Proofs.Grammar.MirrorTokens

/-!
Where failures stand. A rule moves forward over characters and never back, and every failure that it
tells, in the end or on its way to success, stands where it has come to: at a character that could
not follow, or over a word that was read and then refused.
-/

namespace ImplFamilies.Grammar

namespace Cursor

/-- The characters between two places of a text. -/
structure Reads (c : Cursor) (read : List Char) (c₁ : Cursor) : Prop where
  rest : c.rest = read ++ c₁.rest
  offset : c₁.offset = c.offset + read.length

def Onto (c c₁ : Cursor) : Prop :=
  ∃ read, c.Reads read c₁

variable {c c₁ c₂ : Cursor} {read : List Char}

theorem Reads.onto (h : c.Reads read c₁) : c.Onto c₁ :=
  ⟨read, h⟩

theorem Onto.refl (c : Cursor) : c.Onto c :=
  ⟨[], rfl, rfl⟩

theorem Reads.append {more : List Char} (h₁ : c.Reads read c₁) (h₂ : c₁.Reads more c₂) :
    c.Reads (read ++ more) c₂ where
  rest := by rw [h₁.rest, h₂.rest, List.append_assoc]
  offset := by rw [h₂.offset, h₁.offset, List.length_append, Nat.add_assoc]

theorem Onto.trans (h₁ : c.Onto c₁) (h₂ : c₁.Onto c₂) : c.Onto c₂ := by
  obtain ⟨read, h₁⟩ := h₁
  obtain ⟨more, h₂⟩ := h₂
  exact (h₁.append h₂).onto

theorem Onto.offset_le (h : c.Onto c₁) : c.offset ≤ c₁.offset := by
  obtain ⟨read, h⟩ := h
  rw [h.offset]
  exact Nat.le_add_right ..

theorem reads_skipWhile (p : Char → Bool) (c : Cursor) :
    c.Reads (c.rest.takeWhile p) (c.skipWhile p) :=
  ⟨List.takeWhile_append_dropWhile.symm, rfl⟩

theorem reads_one (offset : Nat) (x : Char) (cs : List Char) :
    Reads ⟨offset, x :: cs⟩ [x] ⟨offset + 1, cs⟩ :=
  ⟨rfl, rfl⟩

end Cursor

namespace Failure

/-- Where a failure stands and what it found there; the rest is what was expected instead. -/
def place (e : Failure) : Nat × Nat × Nat × Option Char :=
  (e.reach, e.start, e.stop, e.found)

@[simp] theorem place_withLabel (name : String) (e : Failure) :
    (e.withLabel name).place = e.place := rfl

theorem place_furthest (a b : Failure) :
    (furthest a b).place = a.place ∨ (furthest a b).place = b.place := by
  unfold furthest
  split
  · exact .inl rfl
  · split
    · exact .inr rfl
    · exact .inl rfl

theorem mem_laterHint {a b : Option Failure} {e : Failure} (h : e ∈ laterHint a b) :
    e ∈ a ∨ e ∈ b ∨ ∃ f ∈ a, ∃ g ∈ b, e = furthest g f := by
  match a, b with
  | none, _ => exact .inr (.inl h)
  | some _, none => exact .inl h
  | some f, some g => exact .inr (.inr ⟨f, rfl, g, rfl, (Option.some.inj h).symm⟩)

end Failure

/-- The failure stands at a character further on, or over a refused word. -/
inductive StandsFrom (c : Cursor) (e : Failure) : Prop
  | unexpected (c₁ : Cursor) (onto : c.Onto c₁) (place : e.place = (c₁.unexpected []).place)
  | refused (c₁ c₂ : Cursor) (word : List Char) (onto : c.Onto c₁) (reads : c₁.Reads word c₂)
      (wordChars : ∀ x ∈ word, isWordChar x = true)
      (place : e.place = (c₂.offset, c₁.offset, c₂.offset, none))

namespace StandsFrom

variable {c c₁ : Cursor} {e f : Failure}

theorem congr (same : e.place = f.place) (h : StandsFrom c f) : StandsFrom c e := by
  cases h with
  | unexpected c₁ onto place => exact .unexpected c₁ onto (same.trans place)
  | refused c₁ c₂ word onto reads wordChars place =>
    exact .refused c₁ c₂ word onto reads wordChars (same.trans place)

theorem at_cursor (c : Cursor) (expected : List Expectation) :
    StandsFrom c (c.unexpected expected) :=
  .unexpected c (.refl c) rfl

theorem earlier (onto : c.Onto c₁) (h : StandsFrom c₁ e) : StandsFrom c e := by
  cases h with
  | unexpected c₂ further place => exact .unexpected c₂ (onto.trans further) place
  | refused c₂ c₃ word further reads wordChars place =>
    exact .refused c₂ c₃ word (onto.trans further) reads wordChars place

theorem furthest (he : StandsFrom c e) (hf : StandsFrom c f) :
    StandsFrom c (Failure.furthest e f) := by
  rcases Failure.place_furthest e f with same | same
  · exact he.congr same
  · exact hf.congr same

theorem laterHint {a b : Option Failure} (ha : ∀ e ∈ a, StandsFrom c e)
    (hb : ∀ e ∈ b, StandsFrom c e) :
    ∀ e ∈ Failure.laterHint a b, StandsFrom c e := by
  intro e mem
  rcases Failure.mem_laterHint mem with first | second | ⟨f, hf, g, hg, rfl⟩
  · exact ha e first
  · exact hb e second
  · exact (hb g hg).furthest (ha f hf)

theorem offset_le_reach (h : StandsFrom c e) : c.offset ≤ e.reach := by
  cases h with
  | unexpected c₁ onto place =>
    have same : e.reach = c₁.offset := congrArg Prod.fst place
    exact same ▸ onto.offset_le
  | refused c₁ c₂ word onto reads wordChars place =>
    have same : e.reach = c₂.offset := congrArg Prod.fst place
    exact same ▸ (onto.trans reads.onto).offset_le

end StandsFrom

inductive Advances {α : Type} (c : Cursor) : Outcome α → Prop
  | ok {a : α} {c₁ : Cursor} {hint : Option Failure} (onto : c.Onto c₁)
      (told : ∀ e ∈ hint, StandsFrom c e) : Advances c (.ok a c₁ hint)
  | fail {e : Failure} (told : StandsFrom c e) : Advances c (.fail e)

theorem Advances.earlier {α : Type} {c c₁ : Cursor} {x : Outcome α} (onto : c.Onto c₁)
    (h : Advances c₁ x) : Advances c x := by
  cases h with
  | ok further told => exact .ok (onto.trans further) fun e mem => (told e mem).earlier onto
  | fail told => exact .fail (told.earlier onto)

def ReadsWord {α : Type} (p : Rule α) : Prop :=
  ∀ ⦃c : Cursor⦄ ⦃a : α⦄ ⦃c₁ : Cursor⦄, (p c).result? = some (a, c₁) →
    ∃ word, c.Reads word c₁ ∧ word ≠ [] ∧ ∀ x ∈ word, isWordChar x = true

/-- A rule moves on from every place, and tells failures further on only. -/
class Forward {α : Type} (p : Rule α) : Prop where
  advances (c : Cursor) : Advances c (p c)

theorem Forward.onto {α : Type} {p : Rule α} [Forward p] {c c₁ : Cursor} {a : α}
    (h : (p c).result? = some (a, c₁)) : c.Onto c₁ := by
  have advances := Forward.advances (p := p) c
  generalize p c = x at advances h
  cases advances with
  | ok onto told => cases h; exact onto
  | fail told => cases h

namespace Forward

open Rule

variable {α β : Type} {p : Rule α} {q : Rule β}

instance map [Forward p] (f : α → β) : Forward (p.map f) where
  advances c := by
    have first := advances (p := p) c
    unfold Rule.map
    generalize p c = x at first ⊢
    cases first with
    | ok onto told => exact .ok onto told
    | fail told => exact .fail told

instance andThen [Forward p] [Forward q] : Forward (p.andThen q) where
  advances c := by
    have first := advances (p := p) c
    unfold Rule.andThen
    generalize p c = x at first ⊢
    cases first with
    | fail told => exact .fail told
    | ok onto told =>
      rename_i a c₁ hint
      have second := (advances (p := q) c₁).earlier onto
      dsimp only
      generalize q c₁ = y at second ⊢
      cases second with
      | ok further later => exact .ok further (StandsFrom.laterHint told later)
      | fail last =>
        cases hint with
        | none => exact .fail last
        | some e => exact .fail (last.furthest (told e rfl))

instance keepLeft [Forward p] [Forward q] : Forward (p.keepLeft q) :=
  map Prod.fst

instance keepRight [Forward p] [Forward q] : Forward (p.keepRight q) :=
  map Prod.snd

instance orElse {q : Rule α} [Forward p] [Forward q] : Forward (p.orElse q) where
  advances c := by
    have first := advances (p := p) c
    unfold Rule.orElse
    generalize p c = x at first ⊢
    cases first with
    | ok onto told => exact .ok onto told
    | fail told =>
      have second := advances (p := q) c
      generalize q c = y at second ⊢
      cases second with
      | ok onto later => exact .ok onto later
      | fail later => exact .fail (later.furthest told)

instance optional [Forward p] : Forward p.optional where
  advances c := by
    have first := advances (p := p) c
    unfold Rule.optional
    generalize p c = x at first ⊢
    cases first with
    | ok onto told => exact .ok onto told
    | fail told => exact .ok (.refl c) fun e mem => Option.some.inj mem ▸ told

instance peek [Forward p] : Forward p.peek where
  advances c := by
    have first := advances (p := p) c
    unfold Rule.peek
    generalize p c = x at first ⊢
    cases first with
    | ok onto told => exact .ok (.refl c) told
    | fail told => exact .fail told

instance labelled [Forward p] (name : String) : Forward (labelled name p) where
  advances c := by
    have first := advances (p := p) c
    unfold Rule.labelled
    generalize p c = x at first ⊢
    cases first with
    | ok onto told =>
      refine .ok onto fun e mem => ?_
      obtain ⟨f, hf, rfl⟩ := Option.map_eq_some_iff.1 mem
      exact (told f hf).congr (Failure.place_withLabel name f)
    | fail told => exact .fail (told.congr (Failure.place_withLabel name _))

instance padded [Forward p] : Forward (padded p) where
  advances c := by
    have skipped := (c.reads_skipWhile Text.isBlank).onto
    have inner := (advances (p := p) (c.skipWhile Text.isBlank)).earlier skipped
    unfold Rule.padded
    generalize p (c.skipWhile Text.isBlank) = x at inner ⊢
    cases inner with
    | ok onto told => exact .ok (onto.trans (Cursor.reads_skipWhile ..).onto) told
    | fail told => exact .fail told

/-- Only a word may be refused. -/
theorem refine (f : α → Except (Option String) β) [Forward p] (words : ReadsWord p) :
    Forward (refine f p) where
  advances c := by
    have first := advances (p := p) c
    have word := @words c
    unfold Rule.refine
    generalize p c = x at first word ⊢
    cases first with
    | fail told => exact .fail told
    | ok onto told =>
      dsimp only
      cases f _ with
      | ok b => exact .ok onto told
      | error remark =>
        obtain ⟨word, reads, -, wordChars⟩ := word rfl
        exact .fail (.refused c _ word (.refl c) reads wordChars rfl)

instance satisfy (p : Char → Bool) : Forward (satisfy p) where
  advances c := by
    obtain ⟨offset, rest⟩ := c
    cases rest with
    | nil => exact .fail (.at_cursor _ [])
    | cons x rest =>
      simp only [Rule.satisfy]
      split
      · exact .ok (Cursor.reads_one ..).onto fun e mem => nomatch mem
      · exact .fail (.at_cursor _ [])

instance run (p : Char → Bool) : Forward (run p) where
  advances c := by
    have onto := (c.reads_skipWhile p).onto
    refine .ok onto fun e mem => ?_
    obtain rfl := Option.some.inj mem
    exact (StandsFrom.at_cursor _ []).earlier onto

instance run₁ (p : Char → Bool) : Forward (run₁ p) where
  advances c := by
    unfold Rule.run₁
    split
    · exact .fail (.at_cursor c [])
    · exact advances c

instance literal (cs : List Char) : Forward (literal cs) where
  advances c := by
    induction cs generalizing c with
    | nil => exact .ok (.refl c) fun e mem => nomatch mem
    | cons x xs ih =>
      obtain ⟨offset, rest⟩ := c
      cases rest with
      | nil => exact .fail (.at_cursor _ _)
      | cons y rest =>
        simp only [Rule.literal]
        split
        · exact (ih _).earlier (Cursor.reads_one ..).onto
        · exact .fail (.at_cursor _ _)

instance endOfInput : Forward endOfInput where
  advances c := by
    unfold Rule.endOfInput
    split
    · exact .ok (.refl c) fun e mem => nomatch mem
    · exact .fail (.at_cursor c _)

/- Lists, as the outcome that they come to. -/

theorem manyUpTo [Forward p] (n : Nat) (c : Cursor) (hint : Option Failure) {c₀ : Cursor}
    (onto : c₀.Onto c) (told : ∀ e ∈ hint, StandsFrom c₀ e) :
    c₀.Onto (manyUpTo p n c hint).2.1 ∧ ∀ e ∈ (manyUpTo p n c hint).2.2, StandsFrom c₀ e := by
  induction n generalizing c hint with
  | zero => exact ⟨onto, told⟩
  | succ n ih =>
    have first := (advances (p := p) c).earlier onto
    unfold Rule.manyUpTo
    generalize p c = x at first ⊢
    cases first with
    | fail last =>
      exact ⟨onto, StandsFrom.laterHint told fun e mem => Option.some.inj mem ▸ last⟩
    | ok further later => exact ih _ _ further (StandsFrom.laterHint told later)

instance many [Forward p] : Forward (many p) where
  advances c := by
    obtain ⟨onto, told⟩ := manyUpTo (p := p) (c.rest.length + 1) c none (.refl c)
      fun e mem => nomatch mem
    exact .ok onto told

structure Listed (c : Cursor) (s : Series α) : Prop where
  onto : c.Onto s.cursor
  told : ∀ e ∈ s.hint, StandsFrom c e
  ended : StandsFrom c s.ended

variable {item : Rule α} {separator : Rule β} [Forward item] [Forward separator]

theorem pairsUpTo (n : Nat) (c : Cursor) (hint : Option Failure) {c₀ : Cursor}
    (onto : c₀.Onto c) (told : ∀ e ∈ hint, StandsFrom c₀ e) :
    Listed c₀ (pairsUpTo item separator n c hint) := by
  induction n generalizing c hint with
  | zero => exact ⟨onto, told, (StandsFrom.at_cursor c []).earlier onto⟩
  | succ n ih =>
    have first := (advances (p := separator) c).earlier onto
    unfold Rule.pairsUpTo
    generalize separator c = x at first ⊢
    cases first with
    | fail last => exact ⟨onto, told, last⟩
    | ok further later =>
      rename_i c₁ hint₁
      have told := StandsFrom.laterHint told later
      have second := (advances (p := item) c₁).earlier further
      dsimp only
      generalize item c₁ = y at second ⊢
      cases second with
      | fail last => exact ⟨onto, told, last⟩
      | ok further later =>
        obtain ⟨onto, told, ended⟩ := ih _ _ further (StandsFrom.laterHint told later)
        exact ⟨onto, told, ended⟩

theorem series (c : Cursor) : Listed c (series item separator c) := by
  have first := advances (p := item) c
  unfold Rule.series
  generalize item c = x at first ⊢
  cases first with
  | fail last => exact ⟨.refl c, fun e mem => (nomatch mem), last⟩
  | ok onto told =>
    rename_i a c₁ hint
    have pairs : Listed c (Rule.pairsUpTo item separator (c₁.rest.length + 1) c₁ hint) :=
      pairsUpTo _ c₁ hint onto told
    exact ⟨pairs.onto, pairs.told, pairs.ended⟩

theorem closeList {c : Cursor} {s : Series α} (listed : Listed c s) (items : List α) :
    Advances c (closeList separator items s.cursor s.hint s.ended) := by
  obtain ⟨onto, told, ended⟩ := listed
  have last := (advances (p := separator) s.cursor).earlier onto
  unfold Rule.closeList
  generalize separator s.cursor = x at last ⊢
  have ended : ∀ e ∈ some s.ended, StandsFrom c e := fun e mem => Option.some.inj mem ▸ ended
  cases last with
  | ok further later =>
    exact .ok further (StandsFrom.laterHint (StandsFrom.laterHint told later) ended)
  | fail last =>
    refine .ok onto (StandsFrom.laterHint (StandsFrom.laterHint told fun e mem => ?_) ended)
    exact Option.some.inj mem ▸ last

instance separated₁ : Forward (separated₁ item separator) where
  advances c := by
    obtain ⟨onto, told, ended⟩ : Listed c (Rule.series item separator c) := series c
    unfold Rule.separated₁
    split
    · rename_i same
      simp only [same] at ended
      exact .fail ended
    · rename_i same
      simp only [same] at onto told ended
      exact .ok onto (StandsFrom.laterHint told fun e mem => Option.some.inj mem ▸ ended)

instance list : Forward (list item separator) where
  advances c := by
    have listed : Listed c (Rule.series item separator c) := series c
    unfold Rule.list
    split
    · rename_i same
      rw [same] at listed
      exact .ok listed.onto fun e mem => Option.some.inj mem ▸ listed.ended
    · rename_i same
      rw [same] at listed
      exact closeList listed _

instance list₁ : Forward (list₁ item separator) where
  advances c := by
    have listed : Listed c (Rule.series item separator c) := series c
    unfold Rule.list₁
    split
    · rename_i same
      rw [same] at listed
      exact .fail listed.ended
    · rename_i same
      rw [same] at listed
      exact closeList listed _

end Forward

theorem list_eq_optional {α β : Type} {item : Rule α} {separator : Rule β} (c : Cursor) :
    Rule.list item separator c =
      ((Rule.list₁ item separator).optional.map (·.getD [])) c := by
  unfold Rule.list Rule.map Rule.optional Rule.list₁ Rule.series
  cases item c with
  | fail e => rfl
  | ok a c₁ hint =>
    dsimp only [Rule.closeList]
    cases separator _ <;> rfl

/- The grammar, rule by rule. -/

section Tokens

open Rule

instance (text : String) : Forward (token text) :=
  inferInstanceAs (Forward (padded (labelled text (literal text.toList))))

theorem readsWord_word : ReadsWord word := by
  rintro ⟨offset, rest⟩ a c₁ h
  cases rest with
  | nil => cases h
  | cons x rest =>
    rw [result?_word] at h
    split at h
    · rename_i start
      obtain ⟨-, rfl⟩ := Prod.mk.inj (Option.some.inj h)
      refine ⟨_, (Cursor.reads_one ..).append (Cursor.reads_skipWhile isWordChar _), by simp, ?_⟩
      exact List.forall_mem_cons.2 ⟨isWordChar_of_isWordStart start, fun y => mem_takeWhile⟩
    · cases h

theorem readsWord_run₁ {f : Char → Bool} (within : ∀ x, f x = true → isWordChar x = true) :
    ReadsWord (run₁ f) := by
  intro c a c₁ h
  rw [result?_run₁] at h
  split at h
  · cases h
  · rename_i some
    obtain ⟨-, rfl⟩ := Prod.mk.inj (Option.some.inj h)
    exact ⟨_, Cursor.reads_skipWhile f c, some, fun x mem =>
      within x (List.all_eq_true.1 List.all_takeWhile x mem)⟩

theorem isWordChar_of_isDigit (x : Char) (digit : x.isDigit = true) : isWordChar x = true := by
  simp [isWordChar, Char.isAlphanum, digit]

instance : Forward word := by
  unfold word
  infer_instance

instance (text : String) : Forward (keyword text) := by
  have refused := Forward.refine (p := word)
    (fun cs => if cs = text.toList then .ok () else .error none) readsWord_word
  unfold keyword
  infer_instance

instance : Forward identifier := by
  unfold identifier
  infer_instance

instance : Forward lifetime := by
  unfold lifetime
  infer_instance

instance : Forward arrayLength := by
  have refused := Forward.refine (p := run₁ Char.isDigit)
    (fun cs =>
      if numeral cs < UInt64.size then .ok (UInt64.ofNat (numeral cs))
      else .error (some lengthOverflow)) (readsWord_run₁ isWordChar_of_isDigit)
  unfold arrayLength
  infer_instance

instance {α : Type} {p : Rule α} [Forward p] (opening closing : String) :
    Forward (between opening closing p) := by
  unfold between
  infer_instance

end Tokens

section Nested

variable (full plain here : Rule Ty) [Forward full] [Forward plain] [Forward here]

instance : Forward segments := by
  unfold segments
  infer_instance

instance : Forward modifiers := by
  unfold modifiers modifier
  infer_instance

instance : Forward lifetimeBounds := by
  unfold lifetimeBounds
  infer_instance

instance : Forward (arg full) := by
  unfold arg
  infer_instance

instance : Forward (args full) := by
  unfold args
  infer_instance

instance : Forward (typePath full) := by
  unfold typePath callPath plainPath
  infer_instance

instance : Forward (traitBound full) := by
  unfold traitBound
  infer_instance

instance : Forward (bound full) := by
  unfold bound
  infer_instance

instance : Forward (bounds full) := by
  unfold bounds
  infer_instance

instance : Forward (plainType full plain) := by
  unfold plainType unitType tupleType arrayOrSlice pointerType referenceType singleType
  infer_instance

instance : Forward (fullType full here) := by
  unfold fullType boundedType
  infer_instance

instance (depth : Nat) (spot : Spot) : Forward (typeAt depth spot) := by
  induction depth generalizing spot with
  | zero => exact ⟨fun c => .fail (.at_cursor c [])⟩
  | succ depth ih =>
    cases spot with
    | plain =>
      exact inferInstanceAs (Forward (plainType (typeAt depth .full) (typeAt depth .plain)))
    | full =>
      exact inferInstanceAs (Forward (fullType (typeAt depth .full)
        (plainType (typeAt depth .full) (typeAt depth .plain))))

instance : Forward (lifetimeParam.orElse (typeParam full)) := by
  unfold lifetimeParam typeParam
  infer_instance

instance : Forward (generics full) := by
  unfold generics
  infer_instance

instance : Forward (lifetimeItem.orElse (typeItem full)) := by
  unfold lifetimeItem typeItem
  infer_instance

instance : Forward (whereClause full) := by
  unfold whereClause
  infer_instance

instance : Forward (traitSignature full) := by
  unfold traitSignature
  infer_instance

instance : Forward (inherentSignature full) := by
  unfold inherentSignature
  infer_instance

instance : Forward (signature full) := by
  unfold signature
  infer_instance

instance : Forward (loneType full) := by
  unfold loneType
  infer_instance

end Nested

end ImplFamilies.Grammar
