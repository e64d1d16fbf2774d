import ImplFamilies.Grammar.SyntaxError
import ImplFamilies.Proofs.Grammar.CommonBeginning
import ImplFamilies.Proofs.Text.Position

/-!
Where the error of a rejected text stands. Every beginning that the text shares with an accepted one
could have been gone on with, so some rule comes to its end. The error that is told is the furthest
one, unless a choice drops a failure for an alternative that comes less far.
-/

namespace ImplFamilies

open Grammar Text Rule Relation

namespace Grammar

/- The furthest failure starts behind the beginning. -/

theorem StandsFrom.length_le_start {p t : List Char} {e : Failure} (ends : EndsInMark p)
    (told : StandsFrom ⟨0, p ++ t⟩ e) (far : p.length ≤ e.reach) : p.length ≤ e.start := by
  cases told with
  | unexpected c₁ onto place =>
    obtain ⟨reach, place⟩ := Prod.mk.inj place
    obtain ⟨start, -⟩ := Prod.mk.inj place
    rw [start]
    exact Nat.le_trans far (Nat.le_of_eq reach)
  | refused c₁ c₂ word onto reads wordChars place =>
    obtain ⟨reach, place⟩ := Prod.mk.inj place
    obtain ⟨start, -⟩ := Prod.mk.inj place
    rw [start]
    -- Otherwise the mark would stand in the word.
    refine Nat.le_of_not_lt fun inside => ?_
    obtain ⟨read, before⟩ := onto
    have split : p ++ t = read ++ (word ++ c₂.rest) := by rw [← reads.rest]; exact before.rest
    have length : c₁.offset = 0 + read.length := before.offset
    have length' : c₂.offset = c₁.offset + word.length := reads.offset
    obtain ⟨w, rfl⟩ : read <+: p :=
      List.prefix_of_prefix_length_le (split ▸ List.prefix_append read _)
        (List.prefix_append p t) (by omega)
    rw [List.append_assoc] at split
    have split : w ++ t = word ++ c₂.rest := List.append_cancel_left split
    have within : w <+: word :=
      List.prefix_of_prefix_length_le ⟨t, split⟩ (List.prefix_append word _)
        (by rw [List.length_append] at far; omega)
    have left : w ≠ [] := by
      rintro rfl
      rw [List.append_nil] at inside
      omega
    obtain ⟨m, mark, last⟩ := ends.suffix (List.suffix_append read w) left
    have other := wordChars m (within.subset (List.mem_of_getLast? last))
    exact nomatch other.symm.trans (openMarks_not_wordChar m mark)

variable {α : Type} {p : Scheme α} {front t t' : List Char} {e : Failure}

/-- Some rule comes to the end of every beginning that a rejected text shares with an accepted
one. -/
theorem exists_call_reaches (ok : p.steady = true) (own : p.AllLocal) (ends : EndsInMark front)
    (rejected : (p.rule typeRule (.ofText (front ++ t))).result? = none)
    (accepted : (p.rule typeRule (.ofText (front ++ t'))).result? ≠ none) :
    ∃ y, ReflTransGen Calls ⟨p, .ofText (front ++ t)⟩ y ∧ Reaches front.length y.outcome := by
  by_contra short
  have agree : ReadsAlike t t' front.length ⟨p, .ofText (front ++ t)⟩ :=
    readsAlike_of_short ok own fun y calls far => short ⟨y, calls, far⟩
  have same : ReadAlike t t' front.length (p.rule typeRule (.ofText (front ++ t))).result?
      (p.rule typeRule (.ofText (front ++ t'))).result? :=
    agree.alike rfl ends (Nat.zero_add _)
  rw [rejected] at same
  generalize (p.rule typeRule (.ofText (front ++ t'))).result? = found at same accepted
  cases same
  exact accepted rfl

/-- The failure of the whole stands behind the beginning, or a choice has dropped one that does. -/
theorem length_le_start_or_drops (ok : p.steady = true) (own : p.AllLocal)
    (ends : EndsInMark front) (rejected : p.rule typeRule (.ofText (front ++ t)) = .fail e)
    (accepted : (p.rule typeRule (.ofText (front ++ t'))).result? ≠ none) :
    front.length ≤ e.start ∨
      ∃ z, ReflTransGen Calls ⟨p, .ofText (front ++ t)⟩ z ∧ z.Drops front.length := by
  obtain ⟨y, calls, far⟩ :=
    exists_call_reaches ok own ends (congrArg Outcome.result? rejected) accepted
  refine (Calls.reaches_or_drops calls ok far).imp_left fun reached => ?_
  have : Forward (p.rule typeRule) := Scheme.forward_rule (fun _ => inferInstance) p
  have advances := Forward.advances (p := p.rule typeRule) (.ofText (front ++ t))
  rw [Call.outcome, rejected] at reached
  rw [rejected] at advances
  cases advances with
  | fail told => exact told.length_le_start ends reached

theorem utf8ByteSize_le_or_drops {p : Scheme α} (ok : p.steady = true) (own : p.AllLocal)
    {source source' : List Char} (first : front <+: source) (common : front <+: source')
    (ends : EndsInMark front) {e : SyntaxError}
    (rejected : SyntaxError.ofOutcome source (p.rule typeRule (.ofText source)) = .error e) {a : α}
    (accepted : SyntaxError.ofOutcome source' (p.rule typeRule (.ofText source')) = .ok a) :
    (String.ofList front).utf8ByteSize ≤ e.position.offset ∨
      ∃ z, ReflTransGen Calls ⟨p, .ofText source⟩ z ∧ z.Drops front.length := by
  obtain ⟨⟨t, rfl⟩, ⟨t', rfl⟩⟩ := And.intro first common
  cases failed : p.rule typeRule (.ofText (front ++ t)) with
  | ok => rw [failed] at rejected; cases rejected
  | fail f =>
    cases passed : p.rule typeRule (.ofText (front ++ t')) with
    | fail => rw [passed] at accepted; cases accepted
    | ok b c hint =>
      rw [failed] at rejected
      obtain rfl := Except.error.inj rejected
      have read : (p.rule typeRule (.ofText (front ++ t'))).result? ≠ none := by
        rw [passed]
        nofun
      exact (length_le_start_or_drops ok own ends failed read).imp_left
        (Position.le_offset_ofIndex (List.prefix_append front t))

end Grammar

section

variable {s u p : String} {e : SyntaxError}

/-- The error of a rejected text stands behind every beginning that the text shares with an accepted
one, unless a choice drops a failure that stands there for an alternative that comes less far. -/
theorem furthest_point_told {d : Signature} (rejected : Signature.ofText s = .error e)
    (accepted : Signature.ofText u = .ok d) (front : p.toList <+: s.toList)
    (common : p.toList <+: u.toList) (ends : EndsInMark p.toList) :
    p.utf8ByteSize ≤ e.position.offset ∨
      ∃ x, ReflTransGen Calls ⟨Scheme.signature, .ofText s.toList⟩ x ∧
        x.Drops p.toList.length := by
  rw [Signature.ofText, readSignature_eq] at rejected accepted
  have far := utf8ByteSize_le_or_drops rfl Scheme.allLocal_signature front common ends rejected
    accepted
  rwa [String.ofList_toList] at far

theorem furthest_point_of_type_told {x : Ty} (rejected : Ty.ofText s = .error e)
    (accepted : Ty.ofText u = .ok x) (front : p.toList <+: s.toList)
    (common : p.toList <+: u.toList) (ends : EndsInMark p.toList) :
    p.utf8ByteSize ≤ e.position.offset ∨
      ∃ x, ReflTransGen Calls ⟨Scheme.loneType, .ofText s.toList⟩ x ∧ x.Drops p.toList.length := by
  rw [Ty.ofText, readType_eq] at rejected accepted
  have far := utf8ByteSize_le_or_drops rfl Scheme.allLocal_loneType front common ends rejected
    accepted
  rwa [String.ofList_toList] at far

/-- An array type that is broken off: the implementation of a trait is left for an inherent one. -/
theorem broken_array_dropped :
    ∃ x, ReflTransGen Calls ⟨Scheme.signature, .ofText "impl Foo for [A;".toList⟩ x ∧
      x.Drops 16 := by
  obtain ⟨e, rejected, place⟩ :
      ∃ e, Signature.ofText "impl Foo for [A;" = .error e ∧ e.position.offset = 9 :=
    ⟨_, rfl, by decide +kernel⟩
  obtain ⟨d, accepted⟩ : ∃ d, Signature.ofText "impl Foo for [A; 3]" = .ok d := ⟨_, rfl⟩
  have far := furthest_point_told rejected accepted (p := "impl Foo for [A;") (by decide +kernel)
    (by decide +kernel) (by decide +kernel)
  exact far.resolve_left (by rw [place]; decide +kernel)

/-- An array type that is broken off is forgotten where a path in front of the word `for` is read as
an inherent implementation. -/
theorem broken_array_forgotten :
    ¬ ∀ (s u p : String) (e : SyntaxError) (d : Signature), Signature.ofText s = .error e →
      Signature.ofText u = .ok d → p.toList <+: s.toList → p.toList <+: u.toList →
      EndsInMark p.toList → p.utf8ByteSize ≤ e.position.offset := by
  intro told
  have far := told "impl Foo for [A;" "impl Foo for [A; 3]" "impl Foo for [A;" _ _ rfl rfl
    (by decide +kernel) (by decide +kernel) (by decide +kernel)
  exact absurd far (by decide +kernel)

end

end ImplFamilies
