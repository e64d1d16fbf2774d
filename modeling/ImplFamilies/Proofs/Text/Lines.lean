import Mathlib.Data.List.DropRight
import ImplFamilies.Text.Lines

/-!
Texts written one a line come back as they are, but for the white space at their ends. A text gets a
line of its own when it holds no line feed, and that line is kept when it opens with something that
is neither white space nor the mark of comments.
-/

namespace ImplFamilies.Text

/- Cutting a text at its line feeds. -/

theorem splitLines_eq_splitOn (cs : List Char) : splitLines cs = cs.splitOn '\n' := by
  induction cs with
  | nil => rfl
  | cons c cs ih =>
    rw [splitLines, List.splitOn_cons_eq_if_modifyHead, ih]
    by_cases feed : c = '\n'
    · rw [if_pos feed, if_pos (beq_iff_eq.2 feed)]
    · rw [if_neg feed, if_neg (mt beq_iff_eq.1 feed)]
      obtain ⟨line, lines, split⟩ := List.exists_cons_of_ne_nil (List.splitOn_ne_nil '\n' cs)
      rw [split]
      rfl

theorem splitLines_intercalate {texts : List String} (some : texts ≠ [])
    (unbroken : ∀ text ∈ texts, '\n' ∉ text.toList) :
    splitLines ("\n".intercalate texts).toList = texts.map String.toList := by
  rw [splitLines_eq_splitOn, String.toList_intercalate]
  exact List.splitOn_intercalate '\n' (List.forall_mem_map.2 unbroken)
    (mt List.map_eq_nil_iff.1 some)

/- Cutting white space off the ends. -/

theorem trim_eq_rdropWhile (cs : List Char) : trim cs = (skipBlanks cs).rdropWhile isBlank := rfl

theorem head?_trim {c : Char} {cs : List Char} (opens : cs.head? = some c)
    (visible : isBlank c = false) : (trim cs).head? = some c := by
  obtain ⟨rest, rfl⟩ := List.head?_eq_some_iff.1 opens
  rw [trim_eq_rdropWhile, skipBlanks_cons_of_not_blank visible]
  rcases List.prefix_cons_iff.1 (List.rdropWhile_prefix isBlank (c :: rest)) with
    gone | ⟨t, kept, -⟩
  · have blank := List.rdropWhile_eq_nil_iff.1 gone c List.mem_cons_self
    rw [blank] at visible
    cases visible
  · rw [kept, List.head?_cons]

theorem isComment_eq_false {c : Char} {mark line : List Char} (opens : line.head? = some c)
    (other : mark.head? ≠ some c) : isComment mark line = false := by
  obtain ⟨rest, rfl⟩ := List.head?_eq_some_iff.1 opens
  cases mark with
  | nil => rfl
  | cons m mark =>
    have differ : (m == c) = false := beq_eq_false_iff_ne.2 fun same => other (congrArg some same)
    simp [isComment, List.isPrefixOf, differ]

structure FillsLine (mark text : String) : Prop where
  unbroken : '\n' ∉ text.toList
  opens : ∃ c, text.toList.head? = some c ∧ isBlank c = false ∧ mark.toList.head? ≠ some c

/-- Texts that fill their lines are read off again one by one, without the white space at the
ends. -/
theorem signatureLines_intercalate {mark : String} {texts : List String}
    (fill : ∀ text ∈ texts, FillsLine mark text) :
    signatureLines ("\n".intercalate texts) mark =
      texts.map fun text => String.ofList (trim text.toList) := by
  cases texts with
  | nil => rfl
  | cons first others =>
    have kept : ∀ line ∈ ((first :: others).map String.toList).map trim,
        (!line.isEmpty && !isComment mark.toList line) = true := by
      rw [List.map_map]
      refine List.forall_mem_map.2 fun text mem => ?_
      obtain ⟨c, opens, visible, other⟩ := (fill text mem).opens
      have still := head?_trim opens visible
      obtain ⟨rest, shape⟩ := List.head?_eq_some_iff.1 still
      rw [Function.comp_apply, isComment_eq_false still other, shape]
      rfl
    rw [signatureLines, splitLines_intercalate (List.cons_ne_nil _ _)
      (fun text mem => (fill text mem).unbroken), List.filter_eq_self.2 kept, List.map_map,
      List.map_map]
    rfl

end ImplFamilies.Text
