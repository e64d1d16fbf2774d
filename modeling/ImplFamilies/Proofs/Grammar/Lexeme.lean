import ImplFamilies.Grammar.Token

/-!
The lexemes of a text, by longest match: words, lifetimes and marks, with the white space around
them left out. A character that begins none of these is a mark of its own, which no rule reads.
-/

namespace ImplFamilies.Grammar

open Text

inductive Lexeme
  /-- A keyword, an identifier or a number. -/
  | word (text : String)
  | lifetime (text : String)
  /-- Punctuation, and the three dots. -/
  | mark (text : String)
deriving DecidableEq, Repr

namespace Lexeme

def text : Lexeme → String
  | .word text => text
  | .lifetime text => text
  | .mark text => text

/-- Marks of more than one character; none is the beginning of another. -/
def longMarks : List (List Char) :=
  [[':', ':'], ['-', '>'], ['.', '.', '.'], ['"', 'C', '"']]

def markLength (cs : List Char) : Nat :=
  (longMarks.find? (·.isPrefixOf cs)).elim 1 List.length

/-- The longest lexeme at the front of a text that does not begin with white space. -/
def munch : List Char → Option (Lexeme × List Char)
  | [] => none
  | c :: cs =>
    if isWordChar c then
      some (.word (String.ofList (c :: cs.takeWhile isWordChar)), cs.dropWhile isWordChar)
    else if c = '\'' ∧ cs.head?.any isWordChar = true then
      some (.lifetime (String.ofList (c :: cs.takeWhile isWordChar)), cs.dropWhile isWordChar)
    else
      some (.mark (String.ofList ((c :: cs).take (markLength (c :: cs)))),
        (c :: cs).drop (markLength (c :: cs)))

def firstOf : Nat → List Char → List Lexeme
  | 0, _ => []
  | n + 1, cs =>
    match munch (skipBlanks cs) with
    | some (l, rest) => l :: firstOf n rest
    | none => []

end Lexeme

open Lexeme

/-- A lexeme takes at least one character, so this bound is never reached. -/
def lexemes (cs : List Char) : List Lexeme :=
  firstOf cs.length cs

theorem toNat_of_isAlphanum {c : Char} (h : c.isAlphanum = true) :
    48 ≤ c.toNat ∧ c.toNat ≤ 122 := by
  have within (low high : Char) (least : 48 ≤ low.toNat) (most : high.toNat ≤ 122)
      (below : low.val ≤ c.val) (above : c.val ≤ high.val) : 48 ≤ c.toNat ∧ c.toNat ≤ 122 :=
    ⟨Nat.le_trans least (UInt32.le_iff_toNat_le.1 below),
      Nat.le_trans (UInt32.le_iff_toNat_le.1 above) most⟩
  rcases Bool.or_eq_true_iff.1 h with alpha | digit
  · rcases Bool.or_eq_true_iff.1 alpha with upper | lower
    · obtain ⟨below, above⟩ := of_decide_eq_true upper
      exact within 'A' 'Z' (by decide) (by decide) below above
    · obtain ⟨below, above⟩ := Bool.and_eq_true_iff.1 lower
      exact within 'a' 'z' (by decide) (by decide) (of_decide_eq_true below)
        (of_decide_eq_true above)
  · obtain ⟨below, above⟩ := Bool.and_eq_true_iff.1 digit
    exact within '0' '9' (by decide) (by decide) (of_decide_eq_true below)
      (of_decide_eq_true above)

theorem not_blank_of_isWordChar {c : Char} (h : isWordChar c = true) : isBlank c = false := by
  have small : 48 ≤ c.toNat ∧ c.toNat ≤ 122 := by
    rcases Bool.or_eq_true_iff.1 h with named | underscore
    · exact toNat_of_isAlphanum named
    · rw [beq_iff_eq.1 underscore]
      decide
  simp only [isBlank, Bool.or_eq_false_iff, Bool.and_eq_false_iff, decide_eq_false_iff_not,
    beq_eq_false_iff_ne]
  omega

theorem length_skipBlanks_le (cs : List Char) : (skipBlanks cs).length ≤ cs.length :=
  (List.dropWhile_sublist _).length_le

theorem skipBlanks_skipBlanks (cs : List Char) : skipBlanks (skipBlanks cs) = skipBlanks cs := by
  induction cs with
  | nil => rfl
  | cons c cs ih =>
    cases h : isBlank c with
    | true => rw [skipBlanks_cons_of_blank h, ih]
    | false => rw [skipBlanks_cons_of_not_blank h, skipBlanks_cons_of_not_blank h]

namespace Lexeme

theorem markLength_pos (cs : List Char) : 0 < markLength cs := by
  unfold markLength
  cases h : longMarks.find? (·.isPrefixOf cs) with
  | none => exact Nat.one_pos
  | some m =>
    have positive : ∀ m ∈ longMarks, 0 < m.length := by decide
    exact positive m (List.mem_of_find?_eq_some h)

theorem length_lt_of_munch {cs rest : List Char} {l : Lexeme} (h : munch cs = some (l, rest)) :
    rest.length < cs.length := by
  cases cs with
  | nil => cases h
  | cons c cs =>
    have shorter : (cs.dropWhile isWordChar).length ≤ cs.length :=
      (List.dropWhile_sublist _).length_le
    have positive := markLength_pos (c :: cs)
    simp only [munch] at h
    split at h
    · obtain ⟨_, rfl⟩ := Prod.mk.inj (Option.some.inj h)
      exact Nat.lt_succ_of_le shorter
    · split at h
      · obtain ⟨_, rfl⟩ := Prod.mk.inj (Option.some.inj h)
        exact Nat.lt_succ_of_le shorter
      · obtain ⟨_, rfl⟩ := Prod.mk.inj (Option.some.inj h)
        rw [List.length_drop, List.length_cons]
        omega

theorem munch_eq_none_iff {cs : List Char} : munch cs = none ↔ cs = [] := by
  cases cs with
  | nil => exact ⟨fun _ => rfl, fun _ => rfl⟩
  | cons c cs =>
    refine ⟨fun h => ?_, fun h => nomatch h⟩
    simp only [munch] at h
    split at h
    · cases h
    · split at h <;> cases h

theorem firstOf_eq_firstOf {n m : Nat} {cs : List Char} (hn : cs.length ≤ n)
    (hm : cs.length ≤ m) : firstOf n cs = firstOf m cs := by
  induction n generalizing m cs with
  | zero =>
    obtain rfl : cs = [] := List.length_eq_zero_iff.1 (Nat.le_zero.1 hn)
    cases m <;> rfl
  | succ n ih =>
    cases m with
    | zero =>
      obtain rfl : cs = [] := List.length_eq_zero_iff.1 (Nat.le_zero.1 hm)
      rfl
    | succ m =>
      have skipped := length_skipBlanks_le cs
      simp only [firstOf]
      cases h : munch (skipBlanks cs) with
      | none => rfl
      | some front =>
        obtain ⟨l, rest⟩ := front
        have shorter := length_lt_of_munch h
        simp only [List.cons.injEq, true_and]
        exact ih (by omega) (by omega)

end Lexeme

theorem lexemes_of_munch {cs rest : List Char} {l : Lexeme}
    (h : munch (skipBlanks cs) = some (l, rest)) : lexemes cs = l :: lexemes rest := by
  have shorter := length_lt_of_munch h
  have skipped := length_skipBlanks_le cs
  obtain ⟨n, hn⟩ : ∃ n, cs.length = n + 1 := ⟨cs.length - 1, by omega⟩
  rw [lexemes, hn, firstOf, h]
  simp only [List.cons.injEq, true_and]
  exact firstOf_eq_firstOf (by omega) (Nat.le_refl _)

theorem lexemes_of_blank {cs : List Char} (h : skipBlanks cs = []) : lexemes cs = [] := by
  unfold lexemes
  cases cs.length with
  | zero => rfl
  | succ n => simp only [firstOf, h, munch]

theorem lexemes_eq_nil_iff {cs : List Char} : lexemes cs = [] ↔ skipBlanks cs = [] := by
  refine ⟨fun h => ?_, lexemes_of_blank⟩
  cases front : munch (skipBlanks cs) with
  | none => exact munch_eq_none_iff.1 front
  | some found => exact nomatch (lexemes_of_munch front).symm.trans h

theorem lexemes_skipBlanks (cs : List Char) : lexemes (skipBlanks cs) = lexemes cs := by
  cases h : munch (skipBlanks cs) with
  | none =>
    have empty := munch_eq_none_iff.1 h
    rw [lexemes_of_blank empty, empty]
    rfl
  | some front =>
    obtain ⟨l, rest⟩ := front
    rw [lexemes_of_munch h, lexemes_of_munch (by rwa [skipBlanks_skipBlanks])]

theorem length_lexemes_le (cs : List Char) : (lexemes cs).length ≤ cs.length := by
  induction h : cs.length using Nat.strongRecOn generalizing cs with
  | ind n ih =>
    subst h
    cases h : munch (skipBlanks cs) with
    | none =>
      rw [lexemes_of_blank (munch_eq_none_iff.1 h)]
      exact Nat.zero_le _
    | some front =>
      obtain ⟨l, rest⟩ := front
      have shorter := length_lt_of_munch h
      have skipped := length_skipBlanks_le cs
      have rest_le := ih rest.length (by omega) rest rfl
      rw [lexemes_of_munch h, List.length_cons]
      omega

/- What the front of a text is, by its first character. -/

theorem munch_word {c : Char} {cs : List Char} (h : isWordChar c = true) :
    munch (c :: cs) =
      some (.word (String.ofList (c :: cs.takeWhile isWordChar)), cs.dropWhile isWordChar) := by
  simp only [munch, if_pos h]

theorem lexemes_word {c : Char} {cs : List Char} (h : isWordChar c = true) :
    lexemes (c :: cs) =
      .word (String.ofList (c :: cs.takeWhile isWordChar)) :: lexemes (cs.dropWhile isWordChar) :=
  lexemes_of_munch <| by
    rw [skipBlanks_cons_of_not_blank (not_blank_of_isWordChar h), munch_word h]

theorem munch_lifetime {c : Char} {cs : List Char} (h : isWordChar c = true) :
    munch ('\'' :: c :: cs) =
      some (.lifetime (String.ofList ('\'' :: c :: cs.takeWhile isWordChar)),
        cs.dropWhile isWordChar) := by
  have apostrophe : ¬ isWordChar '\'' = true := by decide
  simp [munch, apostrophe, h]

theorem append_of_munch_mark {cs rest : List Char} {text : String}
    (h : munch cs = some (.mark text, rest)) : cs = text.toList ++ rest := by
  cases cs with
  | nil => cases h
  | cons c cs =>
    simp only [munch] at h
    split at h
    · cases h
    · split at h
      · cases h
      · obtain ⟨hm, rfl⟩ := Prod.mk.inj (Option.some.inj h)
        obtain rfl := Lexeme.mark.inj hm
        rw [String.toList_ofList, List.take_append_drop]

inductive Front : List Char → List Lexeme → Prop
  | empty : Front [] []
  | word {x : Char} {cs : List Char} (word : isWordChar x = true) :
      Front (x :: cs)
        (.word (String.ofList (x :: cs.takeWhile isWordChar)) ::
          lexemes (cs.dropWhile isWordChar))
  | lifetime {x : Char} {cs : List Char} (word : isWordChar x = true) :
      Front ('\'' :: x :: cs)
        (.lifetime (String.ofList ('\'' :: x :: cs.takeWhile isWordChar)) ::
          lexemes (cs.dropWhile isWordChar))
  | mark {x : Char} {cs rest : List Char} {text : String} (word : isWordChar x = false)
      (alone : x = '\'' → cs.takeWhile isWordChar = []) (read : x :: cs = text.toList ++ rest) :
      Front (x :: cs) (.mark text :: lexemes rest)

theorem front_lexemes {cs : List Char} (skipped : skipBlanks cs = cs) : Front cs (lexemes cs) := by
  cases cs with
  | nil => exact .empty
  | cons x cs =>
    cases word : isWordChar x with
    | true =>
      rw [lexemes_of_munch (by rw [skipped]; exact munch_word word)]
      exact .word word
    | false =>
      by_cases named : x = '\'' ∧ cs.head?.any isWordChar = true
      · obtain ⟨rfl, follows⟩ := named
        cases cs with
        | nil => cases follows
        | cons y cs =>
          have word : isWordChar y = true := by simpa using follows
          rw [lexemes_of_munch (by rw [skipped]; exact munch_lifetime word)]
          exact .lifetime word
      · have front : munch (x :: cs) =
            some (.mark (String.ofList ((x :: cs).take (markLength (x :: cs)))),
              (x :: cs).drop (markLength (x :: cs))) := by
          simp only [munch, word, Bool.false_eq_true, if_false, if_neg named]
        rw [lexemes_of_munch (by rw [skipped]; exact front)]
        refine .mark word ?_ (append_of_munch_mark front)
        rintro rfl
        cases cs with
        | nil => rfl
        | cons y cs =>
          have other : ¬ isWordChar y = true := by simpa using named
          rw [List.takeWhile_cons, if_neg other]

/-- Words and lifetimes have characters of words only, and at least one of them. -/
def Lexeme.Formed : Lexeme → Prop
  | .word text => text.toList ≠ [] ∧ ∀ c ∈ text.toList, isWordChar c = true
  | .lifetime text => ∃ name, text.toList = '\'' :: name ∧ name ≠ [] ∧
      ∀ c ∈ name, isWordChar c = true
  | .mark _ => True

theorem Lexeme.formed_word {text : String} (some : text.toList ≠ [])
    (chars : text.toList.all isWordChar = true) : (Lexeme.word text).Formed :=
  ⟨some, List.all_eq_true.1 chars⟩

theorem mem_takeWhile {c : Char} {cs : List Char} (h : c ∈ cs.takeWhile isWordChar) :
    isWordChar c = true := by
  induction cs with
  | nil => cases h
  | cons d ds ih =>
    rw [List.takeWhile_cons] at h
    split at h
    · rename_i hd
      rcases List.mem_cons.1 h with rfl | h
      · exact hd
      · exact ih h
    · cases h

theorem Lexeme.formed_of_munch {cs rest : List Char} {l : Lexeme}
    (h : munch cs = some (l, rest)) : l.Formed := by
  cases cs with
  | nil => cases h
  | cons c cs =>
    simp only [munch] at h
    split at h
    · rename_i word
      obtain ⟨rfl, _⟩ := Prod.mk.inj (Option.some.inj h)
      simp only [Formed, String.toList_ofList, ne_eq, reduceCtorEq, not_false_eq_true, true_and]
      exact List.forall_mem_cons.2 ⟨word, fun d => mem_takeWhile⟩
    · split at h
      · rename_i lifetime
        obtain ⟨rfl, _⟩ := Prod.mk.inj (Option.some.inj h)
        refine ⟨cs.takeWhile isWordChar, ?_, ?_, fun d => mem_takeWhile⟩
        · rw [String.toList_ofList, lifetime.1]
        · intro empty
          cases cs with
          | nil => simp at lifetime
          | cons d ds =>
            have hd : isWordChar d = true := by simpa using lifetime.2
            simp [hd] at empty
      · obtain ⟨rfl, _⟩ := Prod.mk.inj (Option.some.inj h)
        trivial

theorem formed_of_mem_lexemes {cs : List Char} {l : Lexeme} (h : l ∈ lexemes cs) :
    l.Formed := by
  induction hn : cs.length using Nat.strongRecOn generalizing cs with
  | ind n ih =>
    subst hn
    cases front : munch (skipBlanks cs) with
    | none =>
      rw [lexemes_of_blank (munch_eq_none_iff.1 front)] at h
      cases h
    | some found =>
      obtain ⟨k, rest⟩ := found
      have shorter := length_lt_of_munch front
      have skipped := length_skipBlanks_le cs
      rw [lexemes_of_munch front] at h
      rcases List.mem_cons.1 h with rfl | h
      · exact Lexeme.formed_of_munch front
      · exact ih rest.length (by omega) h rfl

def IsMark (m : List Char) : Prop :=
  ∀ cs, munch (m ++ cs) = some (.mark (String.ofList m), cs)

theorem isMark_of_single {c : Char} (word : isWordChar c = false)
    (long : longMarks.all (fun m => m.head? != some c) = true) (apostrophe : c ≠ '\'') :
    IsMark [c] := by
  intro cs
  have length : markLength (c :: cs) = 1 := by
    have none : longMarks.find? (·.isPrefixOf (c :: cs)) = none := by
      rw [List.find?_eq_none]
      intro m hm prefixed
      cases m with
      | nil => revert hm; decide
      | cons d ds =>
        have other := List.all_eq_true.1 long _ hm
        simp only [List.isPrefixOf, Bool.and_eq_true, beq_iff_eq] at prefixed
        simp [prefixed.1] at other
    rw [markLength, none]
    rfl
  simp [munch, word, apostrophe, length]

def isSingle (text : String) : Bool :=
  match text.toList with
  | [c] => !isWordChar c && longMarks.all (fun m => m.head? != some c) && c != '\''
  | _ => false

theorem isMark_of_isSingle {text : String} (h : isSingle text = true) : IsMark text.toList := by
  unfold isSingle at h
  split at h
  · rename_i c single
    simp only [Bool.and_eq_true, Bool.not_eq_true', bne_iff_ne, ne_eq] at h
    rw [single]
    exact isMark_of_single h.1.1 h.1.2 h.2
  · cases h

theorem isMark_of_long {m : List Char} (h : m ∈ longMarks) : IsMark m := by
  intro cs
  simp only [longMarks, List.mem_cons, List.not_mem_nil, or_false] at h
  rcases h with rfl | rfl | rfl | rfl <;> rfl

/- The lexemes of a text by what was written at its front. -/

theorem lexemes_blank {c : Char} (blank : isBlank c = true) (cs : List Char) :
    lexemes (c :: cs) = lexemes cs := by
  rw [← lexemes_skipBlanks, skipBlanks_cons_of_blank blank, lexemes_skipBlanks]

theorem lexemes_mark (text : String) (h : IsMark text.toList)
    (visible : text.toList.any isBlank = false) (cs : List Char) :
    lexemes (text.toList ++ cs) = .mark text :: lexemes cs := by
  have front := h cs
  rw [String.ofList_toList] at front
  apply lexemes_of_munch
  cases shape : text.toList with
  | nil =>
    have nothing := h []
    rw [shape] at nothing
    cases nothing
  | cons c ds =>
    rw [shape] at front visible
    have bare : isBlank c = false := (Bool.or_eq_false_iff.1 visible).1
    rw [List.cons_append, skipBlanks_cons_of_not_blank bare]
    exact front

def Detached (cs : List Char) : Prop :=
  ∀ c ∈ cs.head?, isWordChar c = false

theorem takeWhile_of_detached {cs tail : List Char} (h : ∀ c ∈ cs, isWordChar c = true)
    (detached : Detached tail) :
    (cs ++ tail).takeWhile isWordChar = cs ∧ (cs ++ tail).dropWhile isWordChar = tail := by
  have ended : tail.takeWhile isWordChar = [] ∧ tail.dropWhile isWordChar = tail := by
    cases tail with
    | nil => exact ⟨rfl, rfl⟩
    | cons c tail =>
      have other := detached c rfl
      simp [other]
  constructor
  · rw [List.takeWhile_append_of_pos h, ended.1, List.append_nil]
  · rw [List.dropWhile_append_of_pos h, ended.2]

theorem lexemes_word_append {text : String} {tail : List Char} (formed : (Lexeme.word text).Formed)
    (detached : Detached tail) : lexemes (text.toList ++ tail) = .word text :: lexemes tail := by
  obtain ⟨some, wordChars⟩ := formed
  cases shape : text.toList with
  | nil => exact absurd shape some
  | cons c cs =>
    rw [shape] at wordChars
    obtain ⟨first, others⟩ := List.forall_mem_cons.1 wordChars
    obtain ⟨taken, dropped⟩ := takeWhile_of_detached others detached
    rw [List.cons_append, lexemes_word first, taken, dropped, ← shape, String.ofList_toList]

theorem lexemes_lifetime_append {text : String} {tail : List Char}
    (formed : (Lexeme.lifetime text).Formed) (detached : Detached tail) :
    lexemes (text.toList ++ tail) = .lifetime text :: lexemes tail := by
  obtain ⟨name, shape, some, wordChars⟩ := formed
  cases name with
  | nil => exact absurd rfl some
  | cons c cs =>
    obtain ⟨first, others⟩ := List.forall_mem_cons.1 wordChars
    obtain ⟨taken, dropped⟩ := takeWhile_of_detached others detached
    apply lexemes_of_munch
    have bare : isBlank '\'' = false := by decide
    rw [shape, List.cons_append, List.cons_append, skipBlanks_cons_of_not_blank bare,
      munch_lifetime first, taken, dropped, ← shape, String.ofList_toList]

end ImplFamilies.Grammar
