import ImplFamilies.Grammar.SyntaxError
import ImplFamilies.Proofs.Grammar.FailurePlaces
import ImplFamilies.Proofs.Text.Position

/-!
Where the error of a rejected text points. Every failure of a rule stands between two places of the
text that was read, so the place of the error and the end of its span are boundaries of characters,
and a character that it shows is the one between them.
-/

namespace ImplFamilies

open Grammar Text

namespace Grammar

structure Failure.Cuts (e : Failure) (source before refused behind : List Char) : Prop where
  source : source = before ++ refused ++ behind
  start : e.start = before.length
  stop : e.stop = before.length + refused.length
  found : ∀ c ∈ e.found, refused = [c]

theorem Failure.Cuts.congr {e f : Failure} {source before refused behind : List Char}
    (same : e.place = f.place) (h : f.Cuts source before refused behind) :
    e.Cuts source before refused behind := by
  obtain ⟨-, place⟩ := Prod.mk.inj same
  obtain ⟨start, place⟩ := Prod.mk.inj place
  obtain ⟨stop, found⟩ := Prod.mk.inj place
  exact ⟨h.source, start.trans h.start, stop.trans h.stop, found ▸ h.found⟩

theorem Cursor.cuts_unexpected {source before : List Char} {c : Cursor}
    (reads : (Cursor.ofText source).Reads before c) (expected : List Expectation) :
    ∃ refused behind, (c.unexpected expected).Cuts source before refused behind := by
  obtain ⟨text, offset⟩ := reads
  have start : c.offset = before.length := offset.trans (Nat.zero_add _)
  have source_eq : source = before ++ c.rest := text
  cases left : c.rest with
  | nil =>
    rw [left] at source_eq
    exact ⟨[], [], by simp [source_eq], start, by simp [Cursor.unexpected, left, start],
      fun x mem => by simp [Cursor.unexpected, left] at mem⟩
  | cons x rest =>
    rw [left] at source_eq
    refine ⟨[x], rest, by simp [source_eq], start, by simp [Cursor.unexpected, left, start], ?_⟩
    intro y mem
    obtain rfl : x = y := by simpa [Cursor.unexpected, left] using mem
    rfl

theorem StandsFrom.cuts {source : List Char} {e : Failure}
    (told : StandsFrom (Cursor.ofText source) e) :
    ∃ before refused behind, e.Cuts source before refused behind := by
  cases told with
  | unexpected c₁ onto place =>
    obtain ⟨before, reads⟩ := onto
    obtain ⟨refused, behind, cuts⟩ := Cursor.cuts_unexpected reads []
    exact ⟨before, refused, behind, cuts.congr place⟩
  | refused c₁ c₂ word onto reads wordChars place =>
    obtain ⟨before, front⟩ := onto
    have both := front.append reads
    have start : c₁.offset = before.length := front.offset.trans (Nat.zero_add _)
    let refusal : Failure := ⟨c₂.offset, c₁.offset, c₂.offset, [], none, .unset, none⟩
    have same : e.place = refusal.place := place
    have cuts : refusal.Cuts source before word c₂.rest :=
      ⟨both.rest, start, by rw [← start]; exact reads.offset, fun _ mem => nomatch mem⟩
    exact ⟨before, word, c₂.rest, cuts.congr same⟩

end Grammar

namespace SyntaxError

/-- The error in terms of the text before its place, of what was refused there, and of the rest. -/
structure Points (e : SyntaxError) (text : String) (before refused behind : List Char) : Prop where
  split : text.toList = before ++ refused ++ behind
  boundary : (⟨e.position.offset⟩ : String.Pos.Raw).IsValid text
  offset : e.position.offset = (String.ofList before).utf8ByteSize
  line : e.position.line = 1 + before.count '\n'
  /-- Only the line on which the place lies counts. -/
  column : e.position.column = 1 + (before.reverse.takeWhile (· ≠ '\n')).length
  length : e.length = (String.ofList refused).utf8ByteSize
  boundary_end : (⟨e.position.offset + e.length⟩ : String.Pos.Raw).IsValid text
  found : ∀ shown ∈ e.foundText, ∃ c, refused = [c] ∧ shown = quoteChar c

end SyntaxError

namespace Grammar.Failure

variable {f : Failure} {text : String} {before refused behind : List Char}

theorem Cuts.isValid (h : text.toList = before ++ behind) :
    (⟨(String.ofList before).utf8ByteSize⟩ : String.Pos.Raw).IsValid text := by
  refine String.Pos.Raw.isValid_iff_exists_append.2 ⟨.ofList before, .ofList behind, ?_, rfl⟩
  rw [← String.ofList_append, ← h, String.ofList_toList]

/-- The end of the span is not before its beginning: nothing is lost in the subtraction. -/
theorem Cuts.offset_stop (cuts : f.Cuts text.toList before refused behind) :
    (Position.ofIndex text.toList f.stop).offset =
      (Position.ofIndex text.toList f.start).offset + (String.ofList refused).utf8ByteSize := by
  rw [cuts.start, cuts.stop, cuts.source, ← List.length_append, Position.ofIndex_length,
    List.append_assoc, Position.ofIndex_length, Position.offset_after, Position.offset_after,
    String.ofList_append, String.utf8ByteSize_append]

theorem Cuts.points (cuts : f.Cuts text.toList before refused behind) :
    (SyntaxError.ofFailure text.toList f).Points text before refused behind := by
  have position : (SyntaxError.ofFailure text.toList f).position = .after before := by
    rw [SyntaxError.ofFailure, cuts.start, cuts.source, List.append_assoc, Position.ofIndex_length]
  have length : (SyntaxError.ofFailure text.toList f).length =
      (String.ofList refused).utf8ByteSize := by
    simp only [SyntaxError.ofFailure, cuts.offset_stop, Nat.add_sub_cancel_left]
  have offset := (congrArg Position.offset position).trans (Position.offset_after before)
  refine ⟨cuts.source, ?_, offset, ?_, ?_, length, ?_, ?_⟩
  · rw [offset]
    exact Cuts.isValid (by rw [cuts.source, List.append_assoc])
  · rw [position, Position.line_after]
  · rw [position, Position.column_after]
  · rw [offset, length, ← String.utf8ByteSize_append, ← String.ofList_append]
    exact Cuts.isValid cuts.source
  · intro shown mem
    obtain ⟨c, found, rfl⟩ := Option.map_eq_some_iff.1 mem
    exact ⟨c, cuts.found c found, rfl⟩

end Grammar.Failure

namespace SyntaxError

/-- The error tells a failure, and its span is not cut short where it starts. -/
def Spans (e : SyntaxError) (text : String) (f : Failure) : Prop :=
  e = ofFailure text.toList f ∧
    (Position.ofIndex text.toList f.stop).offset = e.position.offset + e.length

/-- The error tells why the reading of the text failed, and points at what was refused. -/
def PointsInto {α : Type} (e : SyntaxError) (text : String) (outcome : Outcome α) : Prop :=
  ∃ f before refused behind, outcome = .fail f ∧ e.Spans text f ∧
    e.Points text before refused behind

theorem pointsInto_of_rejected {α : Type} {p : Rule α} [Forward p] {text : String} {e : SyntaxError}
    (rejected : ofOutcome text.toList (p (Cursor.ofText text.toList)) = .error e) :
    e.PointsInto text (p (Cursor.ofText text.toList)) := by
  have advances := Forward.advances (p := p) (Cursor.ofText text.toList)
  generalize p (Cursor.ofText text.toList) = outcome at rejected advances
  cases advances with
  | ok onto told => cases rejected
  | @fail f told =>
    obtain ⟨before, refused, behind, cuts⟩ := told.cuts
    obtain rfl := Except.error.inj rejected
    have points := cuts.points
    have spans : (ofFailure text.toList f).Spans text f :=
      ⟨rfl, by rw [points.length]; exact cuts.offset_stop⟩
    exact ⟨f, before, refused, behind, rfl, spans, points⟩

end SyntaxError

/-- The error of a text that is no signature, and of one that is no type, points into the text: its
place and the end of its span are boundaries of characters, the place is told by the characters
before it, and a character that is shown is the one that the span covers. -/
theorem errors_point_into_text (text : String) (e : SyntaxError) :
    (Signature.ofText text = .error e → e.PointsInto text (readSignature text.toList)) ∧
    (Ty.ofText text = .error e → e.PointsInto text (readType text.toList)) :=
  ⟨SyntaxError.pointsInto_of_rejected, SyntaxError.pointsInto_of_rejected⟩

/-- A letter of two bytes on the second line, which neither a signature nor a type goes on with. -/
theorem accented_letter_pointed_at :
    (∃ e, Signature.ofText "impl Foo for\n  Bar é" = .error e ∧
      e.position = ⟨19, 2, 7⟩ ∧ e.length = 2 ∧ e.foundText = some "'é'" ∧
      e.PointsInto "impl Foo for\n  Bar é" (readSignature "impl Foo for\n  Bar é".toList)) ∧
    ∃ e, Ty.ofText "é\nBar" = .error e ∧
      e.position = ⟨0, 1, 1⟩ ∧ e.length = 2 ∧ e.foundText = some "'é'" ∧
      e.PointsInto "é\nBar" (readType "é\nBar".toList) := by
  constructor
  · obtain ⟨e, rejected⟩ : ∃ e, Signature.ofText "impl Foo for\n  Bar é" = .error e := ⟨_, rfl⟩
    have points := (errors_point_into_text _ e).1 rejected
    obtain rfl := (Except.error.inj rejected).symm
    exact ⟨_, rejected, by decide +kernel, by decide +kernel, by decide +kernel, points⟩
  · obtain ⟨e, rejected⟩ : ∃ e, Ty.ofText "é\nBar" = .error e := ⟨_, rfl⟩
    have points := (errors_point_into_text _ e).2 rejected
    obtain rfl := (Except.error.inj rejected).symm
    exact ⟨_, rejected, by decide +kernel, by decide +kernel, by decide +kernel, points⟩

end ImplFamilies
