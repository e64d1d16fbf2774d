import ImplFamilies.Proofs.Grammar.RenamedFollow
import ImplFamilies.Proofs.Grammar.Respelling

/-!
Reading again after renaming. For every phrase that is read there is one that is read to the
renamed value, in front of whatever may stand behind it instead: the leading names are exchanged in
place and every other lexeme stays.
-/

namespace ImplFamilies.Grammar.Reader

variable {ts us mid rest : List Lexeme}

def Words (ρ : Renaming) : Prop :=
  ∀ ⦃name new⦄, ρ name = some new → NotKeyword new ∧ (Lexeme.word new).Formed

structure Becomes {α : Type} (p : Reader α) (ts : List Lexeme) (a : α) (us ts' : List Lexeme) :
    Prop where
  read : p ts' = some (a, us)
  begins : BeginsLike ts ts'
  formed : AllFormed ts'

/-- On short inputs, what is read can be read with another value, if the rest permits it. -/
def Carries {α : Type} (k : Nat) (p : Reader α) (v : α → α) : Prop :=
  ∀ ⦃ts a rest us⦄, Fits k ts → p ts = some (a, rest) → FollowsPhrase rest us → AllFormed us →
    ∃ ts', Becomes p ts (v a) us ts'

/- Lists. -/

section Lists

variable {α : Type} {k : Nat} {item : Reader α} {v : α → α} {separator : String}

theorem Carries.pairs (h : Carries k item v) (shrinks : Shrinks item)
    (follows : ∀ {ts us}, item ts ≠ none →
      FollowsPhrase (.mark separator :: ts) (.mark separator :: us))
    {as : List α} (fits : Fits k ts) (pairs : Pairs item separator ts as rest)
    (ended : (mark separator).keepRight item us = none) (behind : FollowsPhrase rest us)
    (formed : AllFormed us) :
    ∃ ts', Pairs item separator ts' (as.map v) us ∧ FollowsPhrase ts ts' ∧ AllFormed ts' := by
  induction pairs with
  | stop => exact ⟨us, .stop ended, behind, formed⟩
  | @next inner mid _ a as first more ih =>
    obtain ⟨mid', pairs, behind, formed⟩ := ih (fits.drop.suffix (shrinks first)) behind
    obtain ⟨inner', became⟩ := h fits.drop first behind formed
    refine ⟨.mark separator :: inner', .next became.read pairs, follows ?_, became.formed.mark _⟩
    rw [first]
    exact Option.some_ne_none _

theorem Carries.row (h : Carries k item v) (shrinks : Shrinks item)
    (follows : ∀ {ts us}, item ts ≠ none →
      FollowsPhrase (.mark separator :: ts) (.mark separator :: us))
    {as : List α} (fits : Fits k ts) (row : Row item separator ts as rest)
    (ended : (mark separator).keepRight item us = none) (behind : FollowsPhrase rest us)
    (formed : AllFormed us) :
    ∃ ts', Row item separator ts' (as.map v) us ∧ BeginsLike ts ts' ∧ AllFormed ts' := by
  obtain ⟨a, bs, mid, rfl, first, pairs⟩ := row
  obtain ⟨mid', pairs, behind, formed⟩ :=
    h.pairs shrinks follows (fits.suffix (shrinks first)) pairs ended behind formed
  obtain ⟨ts', became⟩ := h fits first behind formed
  exact ⟨ts', ⟨_, _, mid', rfl, became.read, pairs⟩, became.begins, became.formed⟩

variable {closing : String} (closes : closing ∈ [")", ">"])
  (stuck : ∀ ts, item (.mark closing :: ts) = none)
include closes stuck

/-- A list before a closing bracket does not depend on what stands behind the bracket. -/
theorem Carries.list₁ (h : Carries k item v) (shrinks : Shrinks item) {as : List α}
    (fits : Fits k ts) (read : Reader.list₁ item "," ts = some (as, .mark closing :: rest))
    (formed : AllFormed us) :
    ∃ ts', Becomes (Reader.list₁ item ",") ts (as.map v) (.mark closing :: us) ts' := by
  have known : ∀ t ∈ [")", ">"], t ∈ [",", ")", ">", "]", ";"] ∧ t ≠ "," := by decide
  obtain ⟨ends, other⟩ := known closing closes
  have comma {ts us : List Lexeme} (_ : item ts ≠ none) :
      FollowsPhrase (.mark "," :: ts) (.mark "," :: us) := .mark (by decide)
  have closed (us : List Lexeme) : mark "," (.mark closing :: us) = none := if_neg other
  obtain ⟨last, row, skipped⟩ := (list₁_eq_some shrinks).1 read
  cases separated : mark "," last with
  | none =>
    simp only [skipMark, separated] at skipped
    obtain ⟨ts', row, begins, formed⟩ := h.row shrinks comma fits (skipped ▸ row)
      (keepRight_eq_none (closed us)) (.mark ends) (formed.mark closing)
    exact ⟨ts', (list₁_eq_some shrinks).2 ⟨_, row, by simp only [skipMark, closed]⟩, begins, formed⟩
  | some found =>
    simp only [skipMark, separated] at skipped
    have trailing := mark_eq_some.1 separated
    have ended : (mark ",").keepRight item (.mark "," :: .mark closing :: us) = none := by
      rw [keepRight_mark_cons, stuck]
    obtain ⟨ts', row, begins, formed⟩ := h.row shrinks comma fits (trailing ▸ row) ended
      (.mark (by decide)) ((formed.mark closing).mark ",")
    exact ⟨ts', (list₁_eq_some shrinks).2 ⟨_, row, by simp only [skipMark, mark_cons]⟩, begins,
      formed⟩

theorem Carries.list (h : Carries k item v) (shrinks : Shrinks item) {as : List α}
    (fits : Fits k ts) (read : Reader.list item "," ts = some (as, .mark closing :: rest))
    (formed : AllFormed us) :
    ∃ ts', Becomes (Reader.list item ",") ts (as.map v) (.mark closing :: us) ts' := by
  cases first : item ts with
  | none =>
    rw [list_of_none first] at read
    obtain ⟨rfl, rfl⟩ := Prod.mk.inj (Option.some.inj read)
    exact ⟨_, list_of_none (stuck us), .mark closing rest us, formed.mark closing⟩
  | some found =>
    rw [list_of_some first] at read
    obtain ⟨ts', became⟩ := h.list₁ closes stuck shrinks fits read formed
    refine ⟨ts', ?_, became.begins, became.formed⟩
    cases again : item ts' with
    | none => exact nomatch (list₁_eq_none.2 again).symm.trans became.read
    | some other => rw [list_of_some again, became.read]

end Lists

/- Names. -/

inductive Renames (ρ : Renaming) : Lexeme → Lexeme → Prop
  | kept {l : Lexeme} (same : ρ.apply l.text = l.text) : Renames ρ l l
  | renamed {l : Lexeme} {new : String} (same : ρ.apply l.text = new) (named : NotKeyword new) :
      Renames ρ l (.word new)

section Names

variable {ρ : Renaming} {l l' : Lexeme}

theorem Renames.text (h : Renames ρ l l') : ρ.apply l.text = l'.text := by
  cases h with
  | kept same => exact same
  | renamed same named => exact same

theorem Renames.isSegment (h : Renames ρ l l') (segment : IsSegment l) : IsSegment l' := by
  cases h with
  | kept => exact segment
  | renamed => exact .inl ⟨_, rfl⟩

theorem Renames.pathBeginsLike (h : Renames ρ l l') {x y : List Lexeme} (behind : FollowsName x y) :
    PathBeginsLike (l :: x) (l' :: y) := by
  cases h with
  | kept => exact .same behind
  | renamed same named => exact .renamed named

theorem Words.renames (words : Words ρ) (formed : l.Formed) : ∃ l', Renames ρ l l' ∧ l'.Formed := by
  cases known : ρ l.text with
  | none => exact ⟨l, .kept (by rw [Renaming.apply, known]; rfl), formed⟩
  | some new =>
    obtain ⟨named, word⟩ := words known
    exact ⟨.word new, .renamed (by rw [Renaming.apply, known]; rfl) named, word⟩

theorem IsSegment.no_colon (segment : IsSegment l) (formed : l.Formed) : ':' ∉ l.text.toList := by
  rcases segment with ⟨text, rfl⟩ | rfl
  · exact fun colon => absurd (formed.2 ':' colon) (by decide)
  · decide

theorem dropWhile_notKeyword {text : String} (named : NotKeyword text) (ts : List Lexeme) :
    (Lexeme.word text :: ts).dropWhile isModifier = .word text :: ts :=
  List.dropWhile_cons_of_neg (by
    simp [NameFirst.not_modifier (.word named : NameFirst (.word text :: []))])

theorem Renames.callPath_eq_none (h : Renames ρ l l') (segment : IsSegment l)
    {between x y : List Lexeme} {parts : List (List Char)} (further : Further between parts)
    (behind : FollowsName x y) (colons : mark "::" y = none) (uncalled : mark "(" y = none)
    (none : callPath (readTy .full) (l :: (between ++ x)) = Option.none) :
    callPath (readTy .full) (l' :: (between ++ y)) = Option.none := by
  have unmodified (whole : (l' :: (between ++ y)).dropWhile isModifier = l' :: (between ++ y)) :
      callPath (readTy .full) (l' :: (between ++ y)) = Option.none := by
    refine callPath_eq_none_of_uncalled fun name after named => ?_
    rw [whole, further.segments (h.isSegment segment) colons] at named
    obtain ⟨_, rfl⟩ := Prod.mk.inj (Option.some.inj named)
    exact uncalled
  cases h with
  | renamed same named => exact unmodified (dropWhile_notKeyword named _)
  | kept same =>
    cases modifier : isModifier l with
    | true => exact (further.followsName behind).callPath_eq_none modifier none
    | false => exact unmodified (List.dropWhile_cons_of_neg (by simp [modifier]))

end Names

end ImplFamilies.Grammar.Reader
