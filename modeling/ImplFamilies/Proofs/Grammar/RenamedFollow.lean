import ImplFamilies.Proofs.Grammar.Acceptance
import ImplFamilies.Proofs.Grammar.Openings
import ImplFamilies.Proofs.Renaming.Heads

/-!
What stands behind a phrase, before and after names have been exchanged. A phrase ends where it did
if what stands behind it still goes on with none of the marks that would lengthen it; a name that
has stayed is still no keyword if what could not be read behind it still cannot.
-/

namespace ImplFamilies.Grammar.Reader

open Text

variable {ts us x y rest : List Lexeme}

/-- One input begins like the other, or with a new name. Behind the word `for` stands no type where
none stood. -/
inductive BeginsLike : List Lexeme → List Lexeme → Prop
  | same {l : Lexeme} {ts us : List Lexeme}
      (typeless : l = .word "for" → readTy .full ts = none → readTy .full us = none) :
      BeginsLike (l :: ts) (l :: us)
  | renamed {l : Lexeme} {new : String} {ts us : List Lexeme} (named : NotKeyword new) :
      BeginsLike (l :: ts) (.word new :: us)

theorem BeginsLike.mark (text : String) (ts us : List Lexeme) :
    BeginsLike (.mark text :: ts) (.mark text :: us) :=
  .same fun same => nomatch same

theorem BeginsLike.mark_eq_none {text : String} (h : BeginsLike ts us)
    (none : Reader.mark text ts = none) : Reader.mark text us = Option.none := by
  cases h with
  | renamed => rfl
  | @same l =>
    cases l with
    | word | lifetime => rfl
    | mark t =>
      refine if_neg fun same => ?_
      rw [same, mark_cons] at none
      cases none

theorem BeginsLike.keyword_eq_none {text : String} (h : BeginsLike ts us)
    (reserved : text ∈ keywords) (none : keyword text ts = none) :
    keyword text us = Option.none := by
  cases h with
  | renamed named => exact if_neg (named.ne text reserved)
  | @same l =>
    cases l with
    | mark | lifetime => rfl
    | word t =>
      refine if_neg fun same => ?_
      rw [same, keyword_eq_some (u := ()).2 rfl] at none
      cases none

theorem BeginsLike.lifetime_eq_none (h : BeginsLike ts us) (none : lifetime ts = none) :
    lifetime us = Option.none := by
  cases h with
  | renamed => rfl
  | @same l =>
    cases l with
    | word | mark => rfl
    | lifetime name => cases none

/-- What stands behind a whole phrase, before and after. -/
inductive FollowsPhrase : List Lexeme → List Lexeme → Prop
  | ended : FollowsPhrase [] []
  | mark {text : String} {ts us : List Lexeme} (ends : text ∈ [",", ")", ">", "]", ";"]) :
      FollowsPhrase (.mark text :: ts) (.mark text :: us)
  | plus {ts us : List Lexeme} (more : bound (readTy .full) ts ≠ none) :
      FollowsPhrase (.mark "+" :: ts) (.mark "+" :: us)
  /-- The where clause is left out. -/
  | clause {ts : List Lexeme} : FollowsPhrase (.word "where" :: ts) []
  | self {ts us : List Lexeme} (type : readTy .full ts ≠ none) (begins : BeginsLike ts us) :
      FollowsPhrase (.word "for" :: ts) (.word "for" :: us)

theorem FollowsPhrase.mark_eq_none (h : FollowsPhrase ts us) (text : String)
    (lengthens : text ∈ ["::", "<", "(", "->"]) : Reader.mark text us = none := by
  cases h with
  | ended | clause | self => rfl
  | mark ends =>
    rename_i closing _ _
    have other : closing ≠ text := (by decide : ∀ s ∈ [",", ")", ">", "]", ";"],
      ∀ t ∈ ["::", "<", "(", "->"], s ≠ t) closing ends text lengthens
    exact if_neg other
  | plus more =>
    have other : "+" ≠ text := by
      rintro rfl
      exact absurd lengthens (by decide)
    exact if_neg other

theorem FollowsPhrase.plus_eq_none (h : FollowsPhrase ts us)
    (ended : (Reader.mark "+").keepRight (bound (readTy .full)) ts = none) :
    Reader.mark "+" us = none := by
  cases h with
  | ended | clause | self => rfl
  | mark ends =>
    rename_i closing _ _
    have other : closing ≠ "+" :=
      (by decide : ∀ s ∈ [",", ")", ">", "]", ";"], s ≠ "+") closing ends
    exact if_neg other
  | plus more =>
    rw [keepRight_mark_cons] at ended
    exact absurd ended more

/- Behind a name that has stayed. -/

inductive FollowsName : List Lexeme → List Lexeme → Prop
  | typeless {ts us : List Lexeme} (none : Typeless us) : FollowsName ts us
  | self {ts us : List Lexeme} (type : readTy .full ts ≠ none) (begins : BeginsLike ts us) :
      FollowsName (.word "for" :: ts) (.word "for" :: us)
  | call {ts us : List Lexeme} (type : readTy .full (.mark "(" :: ts) ≠ none) :
      FollowsName (.mark "(" :: ts) (.mark "(" :: us)

theorem FollowsPhrase.followsName (h : FollowsPhrase ts us) : FollowsName ts us := by
  cases h with
  | ended | clause => exact .typeless (.inl rfl)
  | plus => exact .typeless (typeless_mark (by decide))
  | self type begins => exact .self type begins
  | mark ends =>
    rename_i text _ _
    exact .typeless (typeless_mark ((by decide : [",", ")", ">", "]", ";"] ⊆
      ["::", "<", ",", ")", ">", "]", ";", "+"]) ends))

theorem FollowsName.readTy_eq_none (h : FollowsName x y) (none : readTy .full x = none) :
    readTy .full y = Option.none := by
  cases h with
  | typeless bare => exact bare.readTy_eq_none .full
  | self => exact absurd none (readTy_word "for" _)
  | call type => exact absurd none type

/-- Bounds stand behind it where some stood, or behind the word `for` only. -/
theorem FollowsName.boundless (h : FollowsName x y) :
    Boundless y ∨ ∃ inner, x = .word "for" :: inner := by
  cases h with
  | typeless bare => exact .inl bare.boundless
  | self => exact .inr ⟨_, rfl⟩
  | call => exact .inl (.inr ⟨"(", _, rfl, by decide⟩)

theorem segments_of_word (text : String) (ended : mark "::" ts = none) :
    segments (.word text :: ts) = some (text, ts) := by
  have row : Row identifier "::" (.word text :: ts) [text.toList] ts :=
    ⟨_, [], ts, rfl, rfl, .stop (keepRight_eq_none ended)⟩
  refine map_eq_some.2 ⟨_, (separated₁_eq_some consumes_identifier.shrinks).2 row, ?_⟩
  rw [joined_singleton, String.ofList_toList]

theorem Typeless.dropWhile_isModifier (h : Typeless ts) : ts.dropWhile isModifier = ts := by
  rcases h with rfl | ⟨text, inner, rfl, mem⟩
  · rfl
  · have other : isModifier (.mark text) = false :=
      (by decide : ∀ t ∈ ["::", "<", ",", ")", ">", "]", ";", "+"],
        isModifier (.mark t) = false) text mem
    rw [List.dropWhile_cons_of_neg (by simp [other])]

/-- A modifier that is a name does not turn into one of a path called like a function. -/
theorem FollowsName.callPath_eq_none {l : Lexeme} (h : FollowsName x y)
    (modifier : isModifier l = true) (none : callPath (readTy .full) (l :: x) = none) :
    callPath (readTy .full) (l :: y) = Option.none := by
  have behind (ts : List Lexeme) : (l :: ts).dropWhile isModifier = ts.dropWhile isModifier :=
    List.dropWhile_cons_of_pos modifier
  refine callPath_eq_none_of_uncalled fun name after named => ?_
  rw [behind] at named
  cases h with
  | typeless bare =>
    rw [bare.dropWhile_isModifier, bare.segments_eq_none] at named
    cases named
  | call => cases named
  | @self ts us type begins =>
    have whole (ts : List Lexeme) :
        (Lexeme.word "for" :: ts).dropWhile isModifier = .word "for" :: ts := rfl
    obtain ⟨found, type⟩ := Option.ne_none_iff_exists'.1 type
    have unlengthened : mark "::" ts = Option.none :=
      mark_eq_none_of_read type fun _ => readTy_mark .full "::" (by decide)
    rw [whole, segments_of_word "for" (begins.mark_eq_none unlengthened)] at named
    obtain ⟨_, rfl⟩ := Prod.mk.inj (Option.some.inj named)
    refine begins.mark_eq_none ?_
    cases opened : mark "(" ts with
    | none => rfl
    | some other =>
      obtain rfl := mark_eq_some.1 opened
      have called : segments ((l :: .word "for" :: .mark "(" :: other.2).dropWhile isModifier) =
          some ("for", .mark "(" :: other.2) := by
        rw [behind, whole, segments_of_word "for" unlengthened]
      exact absurd none (callPath_of_typed called type)

/- What a path begins with, before and after. -/

inductive PathBeginsLike : List Lexeme → List Lexeme → Prop
  | same {l : Lexeme} {x y : List Lexeme} (behind : FollowsName x y) :
      PathBeginsLike (l :: x) (l :: y)
  | modifier {l : Lexeme} {x y : List Lexeme} (modifier : isModifier l = true) :
      PathBeginsLike (l :: x) (l :: y)
  | renamed {l : Lexeme} {new : String} {x y : List Lexeme} (named : NotKeyword new) :
      PathBeginsLike (l :: x) (.word new :: y)

theorem PathBeginsLike.begins (h : PathBeginsLike ts us) : BeginsLike ts us := by
  cases h with
  | same behind => exact .same fun _ => behind.readTy_eq_none
  | modifier modifier => exact .same fun same => by rw [same] at modifier; cases modifier
  | renamed named => exact .renamed named

theorem notKeyword_ne_opener {text : String} (h : NotKeyword text) (opener : Opener) :
    text ≠ opener.word := by
  cases opener with
  | impl => exact h.ne "impl" (by decide)
  | dyn => exact h.ne "dyn" (by decide)

theorem PathBeginsLike.unlessOpened {α : Type} {p : Reader α} (h : PathBeginsLike ts us)
    (word : ∀ text ts, p (.word text :: ts) ≠ none) (boundless : ∀ {ts}, Boundless ts → p ts = none)
    (unopened : UnlessOpened p ts) : UnlessOpened p us := by
  intro opener inner opened
  cases h with
  | same behind =>
    obtain ⟨rfl, rfl⟩ := List.cons.inj opened
    rcases behind.boundless with bare | ⟨inner, rfl⟩
    · exact boundless bare
    · exact absurd (unopened opener _ rfl) (word "for" inner)
  | modifier modifier =>
    obtain ⟨rfl, rfl⟩ := List.cons.inj opened
    cases opener <;> cases modifier
  | renamed named =>
    exact absurd (Lexeme.word.inj (List.cons.inj opened).1) (notKeyword_ne_opener named opener)

/- Segments, with another name in front. -/

structure Further (between : List Lexeme) (parts : List (List Char)) : Prop where
  starts : between = [] ∨ ∃ inner, between = .mark "::" :: inner
  pairs : ∀ {us}, mark "::" us = none → Pairs identifier "::" (between ++ us) parts us

theorem further_of_pairs {parts : List (List Char)} (h : Pairs identifier "::" ts parts rest) :
    ∃ between, ts = between ++ rest ∧ Further between parts := by
  induction h with
  | stop => exact ⟨[], rfl, .inl rfl, fun ended => .stop (keepRight_eq_none ended)⟩
  | next first more ih =>
    obtain ⟨between, rfl, further⟩ := ih
    obtain ⟨l, segment, rfl, rfl⟩ := segment_of_identifier first
    exact ⟨.mark "::" :: l :: between, rfl, .inr ⟨_, rfl⟩, fun ended =>
      .next (identifier_segment segment _) (further.pairs ended)⟩

def joinedFrom (head : String) (parts : List (List Char)) : String :=
  String.ofList (joined "::" (head.toList :: parts))

theorem Further.segments {l : Lexeme} {between : List Lexeme} {parts : List (List Char)}
    (further : Further between parts) (segment : IsSegment l) (ended : mark "::" us = none) :
    segments (l :: (between ++ us)) = some (joinedFrom l.text parts, us) := by
  have row : Row identifier "::" (l :: (between ++ us)) (l.text.toList :: parts) us :=
    ⟨_, parts, _, rfl, identifier_segment segment _, further.pairs ended⟩
  exact map_eq_some.2 ⟨_, (separated₁_eq_some consumes_identifier.shrinks).2 row, rfl⟩

theorem further_of_segments {name : String} (h : segments ts = some (name, rest)) :
    ∃ l between parts, IsSegment l ∧ Further between parts ∧ ts = l :: (between ++ rest) ∧
      name = joinedFrom l.text parts := by
  obtain ⟨names, read, rfl⟩ := map_eq_some.1 h
  obtain ⟨first, parts, mid, rfl, read, pairs⟩ :=
    (separated₁_eq_some consumes_identifier.shrinks).1 read
  obtain ⟨l, segment, rfl, rfl⟩ := segment_of_identifier read
  obtain ⟨between, rfl, further⟩ := further_of_pairs pairs
  exact ⟨l, between, parts, segment, further, rfl, rfl⟩

theorem Further.followsName {between : List Lexeme} {parts : List (List Char)}
    (further : Further between parts) (h : FollowsName x y) :
    FollowsName (between ++ x) (between ++ y) := by
  rcases further.starts with rfl | ⟨inner, rfl⟩
  · exact h
  · exact .typeless (typeless_mark (by decide))

theorem renameSegments_joinedFrom (ρ : Renaming) {head : String} (whole : ':' ∉ head.toList)
    (parts : List (List Char)) :
    renameSegments ρ (joinedFrom head parts) = joinedFrom (ρ.apply head) parts := by
  obtain ⟨tail, trails, joined⟩ : ∃ tail, Trails tail ∧
      ∀ name : String, joinedFrom name parts = String.ofList (name.toList ++ tail) := by
    cases parts with
    | nil => exact ⟨[], .inl rfl, fun name => by simp [joinedFrom]⟩
    | cons part parts =>
      refine ⟨"::".toList ++ joined "::" (part :: parts), .inr ⟨_, rfl⟩, fun name => ?_⟩
      rw [joinedFrom, joined_cons_cons, List.append_assoc]
  have split := splitSegment_of_trails whole trails
  rw [renameSegments_eq, joined, joined, leading, trailing, String.toList_ofList, split,
    String.ofList_toList, String.ofList_append, String.ofList_toList]

end ImplFamilies.Grammar.Reader
