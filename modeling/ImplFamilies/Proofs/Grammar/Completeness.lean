import ImplFamilies.Proofs.Grammar.Extent
import ImplFamilies.Proofs.Grammar.Soundness

/-!
Where no keyword is a name, the readers read whatever is derivable. The grammar is ambiguous: a
bound behind a plus may belong to an inner type or to an outer one. A reader takes as many as
there are, so what a derivation leaves for later is stated as a chain of such bounds, of which the
reader may take some.
-/

namespace ImplFamilies.Grammar

open Phrase

def keywords : List String :=
  ["impl", "dyn", "mut", "const", "unsafe", "extern", "for", "where"]

def NotKeyword (text : String) : Prop := text ∉ keywords

instance : DecidablePred NotKeyword :=
  fun text => inferInstanceAs (Decidable (text ∉ keywords))

theorem NotKeyword.ne {text : String} (h : NotKeyword text) (keyword : String)
    (mem : keyword ∈ keywords) : text ≠ keyword := by
  rintro rfl
  exact h mem

inductive Chain : List Lexeme → List Lexeme → Prop
  | done {ts : List Lexeme} : Chain ts ts
  | more {ts mid rest : List Lexeme} {b : Bound} (bound : DerivesBound NotKeyword ts b mid)
      (others : Chain mid rest) : Chain (.mark "+" :: ts) rest

def Ends (ts : List Lexeme) : Prop :=
  ∀ text rest, ts = .mark text :: rest → text ∉ ["::", "<", "(", "->", "+"]

theorem ends_of_mark {text : String} {ts : List Lexeme}
    (h : text ∉ ["::", "<", "(", "->", "+"]) : Ends (.mark text :: ts) := by
  intro text' rest same
  obtain ⟨e, _⟩ := List.cons.inj same
  exact Lexeme.mark.inj e ▸ h

theorem ends_of_comma (ts : List Lexeme) : Ends (.mark "," :: ts) :=
  ends_of_mark (by decide)

theorem ends_of_word {text : String} {ts : List Lexeme} : Ends (.word text :: ts) :=
  fun _ _ same => nomatch same

theorem ends_nil : Ends [] :=
  fun _ _ same => nomatch same

theorem Ends.mark_eq_none {ts : List Lexeme} (ends : Ends ts) (text : String)
    (opening : text ∈ ["::", "<", "(", "->", "+"]) : Reader.mark text ts = none := by
  cases read : Reader.mark text ts with
  | none => rfl
  | some found => exact absurd opening (ends _ _ (Reader.mark_eq_some.1 read))

namespace Chain

variable {ts mid rest : List Lexeme}

theorem trans (h₁ : Chain ts mid) (h₂ : Chain mid rest) : Chain ts rest := by
  induction h₁ with
  | done => exact h₂
  | more bound others ih => exact .more bound (ih h₂)

theorem eq_of_ends (h : Chain ts rest) (ends : Ends ts) : ts = rest := by
  cases h with
  | done => rfl
  | more bound others => exact absurd (by decide) (ends "+" _ rfl)

theorem mark_eq_none (h : Chain ts rest) (ends : Ends rest) (text : String)
    (opening : text ∈ ["::", "<", "(", "->"]) : Reader.mark text ts = none := by
  cases h with
  | done => exact ends.mark_eq_none text (List.mem_append_left ["+"] opening)
  | more bound others =>
    have other : ¬ "+" = text := by
      rintro rfl
      exact absurd opening (by decide)
    simp only [Reader.mark, if_neg other]

end Chain

namespace Reader

/-- On inputs shorter than the bound, a phrase is read, with more of the bounds behind it. -/
def CompleteBelow {α : Type} (k : Nat) (p : Reader α) (d : Phrase α) : Prop :=
  ∀ ⦃ts a mid tail⦄, ts.length < k → d ts a mid → Chain mid tail → Ends tail →
    ∃ b after, p ts = some (b, after) ∧ Chain mid after ∧ Chain after tail

/-- On inputs shorter than the bound, a phrase before such a place is read as long as it is. -/
def ExactBelow {α : Type} (E : List Lexeme → Prop) (k : Nat) (p : Reader α) (d : Phrase α) : Prop :=
  ∀ ⦃ts a rest⦄, ts.length < k → d ts a rest → E rest → ∃ b, p ts = some (b, rest)

section Combinators

variable {α : Type} {k : Nat} {p : Reader α} {d : Phrase α} {ts rest : List Lexeme}

theorem CompleteBelow.exact (h : CompleteBelow k p d) : ExactBelow Ends k p d := by
  intro ts a rest short read ends
  obtain ⟨b, after, found, chain, _⟩ := h short read .done ends
  obtain rfl := chain.eq_of_ends ends
  exact ⟨b, found⟩

variable {E : List Lexeme → Prop}

theorem ExactBelow.row (h : ExactBelow E k p d) (consumes : Consumes p)
    (comma : ∀ ts, E (.mark "," :: ts)) {as : List α} (short : ts.length < k)
    (items : Separated d "," ts as rest) (ends : E rest)
    (ended : (Reader.mark ",").keepRight p rest = none) :
    ∃ bs, Row p "," ts bs rest := by
  induction items with
  | last only =>
    obtain ⟨b, found⟩ := h short only ends
    exact ⟨[b], b, [], _, rfl, found, .stop ended⟩
  | more first others ih =>
    obtain ⟨b, found⟩ := h short first (comma _)
    have shorter := (consumes found).2
    rw [List.length_cons] at shorter
    obtain ⟨bs, c, cs, mid, rfl, item, pairs⟩ := ih (by omega) ends ended
    exact ⟨b :: c :: cs, b, _, _, rfl, found, .next item pairs⟩

/-- A list goes up to a lexeme that is no comma and begins no item. -/
theorem ExactBelow.list₁ (h : ExactBelow E k p d) (consumes : Consumes p)
    (comma : ∀ ts, E (.mark "," :: ts)) {as : List α} (short : ts.length < k)
    (items : CommaList₁ d ts as rest) (ends : E rest) (closed : Reader.mark "," rest = none)
    (none : p rest = none) : ∃ bs, Reader.list₁ p "," ts = some (bs, rest) := by
  cases items with
  | closed items =>
    obtain ⟨bs, row⟩ := h.row consumes comma short items ends (keepRight_eq_none closed)
    refine ⟨bs, (list₁_eq_some consumes.shrinks).2 ⟨rest, row, ?_⟩⟩
    simp only [skipMark, closed]
  | trailing items =>
    have ended : (Reader.mark ",").keepRight p (.mark "," :: rest) = Option.none := by
      rw [keepRight_mark_cons, none]
    obtain ⟨bs, row⟩ := h.row consumes comma short items (comma _) ended
    refine ⟨bs, (list₁_eq_some consumes.shrinks).2 ⟨_, row, ?_⟩⟩
    simp only [skipMark, mark_cons]

theorem ExactBelow.list (h : ExactBelow E k p d) (consumes : Consumes p)
    (comma : ∀ ts, E (.mark "," :: ts)) {as : List α} (short : ts.length < k)
    (items : CommaList d ts as rest) (ends : E rest) (closed : Reader.mark "," rest = none)
    (none : p rest = none) : ∃ bs, Reader.list p "," ts = some (bs, rest) := by
  cases items with
  | empty => exact ⟨[], list_of_none none⟩
  | items some =>
    obtain ⟨bs, found⟩ := h.list₁ consumes comma short some ends closed none
    refine ⟨bs, ?_⟩
    cases first : p ts with
    | none => exact nomatch (list₁_eq_none.2 first).symm.trans found
    | some item => rw [list_of_some first, found]

end Combinators

/- Names, modifiers and what a path begins with. -/

theorem orElse_first {α : Type} {p q : Reader α} {ts : List Lexeme} {found : α × List Lexeme}
    (h : p ts = some found) : p.orElse q ts = some found := by
  simp only [orElse, h]

theorem orElse_next {α : Type} {p q : Reader α} {ts : List Lexeme} {found : α × List Lexeme}
    (none : p ts = none) (h : q ts = some found) : p.orElse q ts = some found := by
  simp only [orElse, none, h]

section Names

variable {ts mid rest : List Lexeme}

theorem identifier_complete {name : String} (h : DerivesName NotKeyword ts name rest) :
    identifier ts = some (name.toList, rest) := by
  cases h <;> rfl

theorem row_names {parts : List String} (h : Separated (DerivesName NotKeyword) "::" ts parts rest)
    (ended : Reader.mark "::" rest = none) :
    Row identifier "::" ts (parts.map String.toList) rest := by
  induction h with
  | last only => exact ⟨_, [], _, rfl, identifier_complete only, .stop (keepRight_eq_none ended)⟩
  | more first others ih =>
    obtain ⟨c, cs, mid, same, item, pairs⟩ := ih ended
    exact ⟨_, c :: cs, _, congrArg _ same, identifier_complete first, .next item pairs⟩

theorem segments_complete {name : String} (h : DerivesSegments NotKeyword ts name rest)
    (ended : Reader.mark "::" rest = none) : segments ts = some (name, rest) := by
  cases h with
  | read parted =>
    have row := row_names parted ended
    exact map_eq_some.2 ⟨_, (separated₁_eq_some consumes_identifier.shrinks).2 row, rfl⟩

inductive NameFirst : List Lexeme → Prop
  | word {text : String} {ts : List Lexeme} (named : NotKeyword text) : NameFirst (.word text :: ts)
  | dots {ts : List Lexeme} : NameFirst (.mark "..." :: ts)

theorem segments_first {name : String} (h : DerivesSegments NotKeyword ts name rest) :
    NameFirst ts := by
  have name {name rest} (h : DerivesName NotKeyword ts name rest) : NameFirst ts := by
    cases h with
    | word named => exact .word named
    | dots => exact .dots
  cases h with
  | read parted =>
    cases parted with
    | last only => exact name only
    | more first others => exact name first

theorem NameFirst.cons (h : NameFirst ts) : ∃ l rest, ts = l :: rest := by
  cases h <;> exact ⟨_, _, rfl⟩

theorem NameFirst.not_modifier {l : Lexeme} (h : NameFirst (l :: ts)) : isModifier l = false := by
  cases h with
  | word named =>
    have first := named.ne "unsafe" (by decide)
    have second := named.ne "extern" (by decide)
    simp [isModifier, first, second]
  | dots => rfl

theorem modifiers_complete {words : List String} (h : Modifiers ts words mid)
    (first : NameFirst mid) : modifiers ts = some (joinedWords " " words, mid) := by
  have split : (ts.takeWhile isModifier).map Lexeme.text = words ∧
      ts.dropWhile isModifier = mid := by
    induction h with
    | none =>
      obtain ⟨l, rest, rfl⟩ := first.cons
      simp [first.not_modifier]
    | more modifier others ih =>
      have is : ∀ l, l = .word "unsafe" ∨ l = .word "extern" ∨ l = .mark "\"C\"" →
          isModifier l = true := by
        rintro l (rfl | rfl | rfl) <;> rfl
      obtain ⟨words, rest⟩ := ih first
      simp [is _ modifier, words, rest]
  obtain ⟨rfl, rfl⟩ := split
  rw [joinedWords, List.map_map]
  rfl

end Names

theorem brackets_eq_none {α : Type} {item : Reader α} {as : List α} {inner rest : List Lexeme}
    {closing : String} (opening : String) (stuck : ∀ ts, item (.mark closing :: ts) = none)
    (found : Reader.list₁ item "," inner = some (as, rest)) :
    ((Reader.mark opening).andThen (Reader.mark closing)) (.mark opening :: inner) = none := by
  cases empty : ((Reader.mark opening).andThen (Reader.mark closing)) (.mark opening :: inner) with
  | none => rfl
  | some other =>
    obtain ⟨_, opened, closed⟩ := andThen_eq_some.1 empty
    obtain ⟨rfl⟩ := mark_eq_some.1 opened
    rw [mark_eq_some.1 closed, list₁_eq_none.2 (stuck _)] at found
    cases found

theorem size_complete {ts rest : List Lexeme} {size : UInt64} (h : Size ts size rest) :
    arrayLength ts = some (size, rest) := by
  cases h with
  | read number value =>
    have small := size.toNat_lt_size
    exact arrayLength_eq_some.2
      ⟨_, rfl, ⟨number, by omega⟩, by rw [value, UInt64.ofNat_toNat]⟩

/- Where no type begins. -/

theorem readTy_mark (spot : Spot) (text : String) {ts : List Lexeme}
    (h : text ∈ [")", ">", "<", "]", ",", ";", "=", "::", "+"]) :
    readTy spot (.mark text :: ts) = none := by
  have each : ∀ t ∈ [")", ">", "<", "]", ",", ";", "=", "::", "+"],
      plainType (readTy .full) (readTy .plain) (.mark t :: ts) = none := by
    simp only [List.forall_mem_cons]
    exact ⟨rfl, rfl, rfl, rfl, rfl, rfl, rfl, rfl, rfl, fun _ h => nomatch h⟩
  have plain : readTy .plain (.mark text :: ts) = none := by
    rw [readTy_plain]
    exact each text h
  cases spot with
  | plain => exact plain
  | full =>
    rw [readTy_full]
    exact plain

theorem readTy_lifetime {name : String} {ts : List Lexeme} (spot : Spot) :
    readTy spot (.lifetime name :: ts) = none := by
  cases spot with
  | plain => rw [readTy_plain]; rfl
  | full => rw [readTy_full, readTy_plain]; rfl

section Types

variable {k : Nat} (hk : ∀ spot, CompleteBelow k (readTy spot) (DerivesTy NotKeyword spot))
  {ts mid rest tail : List Lexeme}
include hk

theorem exactBelow_arg : ExactBelow Ends k (arg (readTy .full)) (DerivesArg NotKeyword) := by
  intro ts a rest short h ends
  cases h with
  | lifetime read =>
    cases read
    exact ⟨_, rfl⟩
  | type read =>
    obtain ⟨t, found⟩ := (hk .full).exact short read ends
    have none : lifetime.map Arg.lifetime ts = none := by
      cases named : lifetime.map Arg.lifetime ts with
      | none => rfl
      | some item =>
        obtain ⟨name, named, _⟩ := map_eq_some.1 named
        rw [lifetime_eq_some.1 named, readTy_lifetime] at found
        cases found
    exact ⟨.type t, orElse_eq_some.2 (.inr ⟨none, map_eq_some.2 ⟨t, found, rfl⟩⟩)⟩

theorem args_complete {as : List Arg} (short : ts.length < k + 1)
    (h : DerivesArgs NotKeyword ts as rest) : ∃ bs, args (readTy .full) ts = some (bs, rest) := by
  cases h with
  | empty => exact ⟨[], rfl⟩
  | items some =>
    rename_i inner
    have stuck {ts : List Lexeme} : arg (readTy .full) (.mark ">" :: ts) = none := by
      simp only [arg, orElse, map, lifetime, readTy_mark .full ">" (by decide)]
    have consumes := consumes_arg (consumes_readTy .full)
    obtain ⟨bs, found⟩ := (exactBelow_arg hk).list₁ consumes ends_of_comma
      (Nat.lt_of_succ_lt_succ short) some (ends_of_mark (by decide)) rfl stuck
    have filled := brackets_eq_none "<" (fun _ => stuck) found
    exact ⟨bs, orElse_eq_some.2 (.inr ⟨map_eq_none.2 filled, between_eq_some.2 ⟨_, rfl, found⟩⟩)⟩

omit hk in
theorem args_first {as : List Arg} (h : DerivesArgs NotKeyword ts as rest) :
    ∃ inner, ts = .mark "<" :: inner := by
  cases h <;> exact ⟨_, rfl⟩

theorem completeBelow_callPath {words : List String} {name : String} {inputs : List Ty}
    {output : Option Ty} {named opened closed : List Lexeme} (short : ts.length < k + 1)
    (modifiers : Modifiers ts words named)
    (segments : DerivesSegments NotKeyword named name (.mark "(" :: opened))
    (parameters : CommaList (DerivesTy NotKeyword .full) opened inputs (.mark ")" :: closed))
    (result : Optional (After "->" (DerivesTy NotKeyword .full)) closed output mid)
    (chain : Chain mid tail) (ends : Ends tail) :
    ∃ p after, callPath (readTy .full) ts = some (p, after) ∧ Chain mid after ∧
      Chain after tail := by
  have named_le : Passes NotKeyword ts named := passes_modifiers modifiers
  have named_le := named_le.length_le
  have opened_lt := (spans_segments segments).length_lt
  have closed_le := (passes_commaList spans_ty parameters).length_le
  rw [List.length_cons] at opened_lt closed_le
  have worded := modifiers_complete modifiers (segments_first segments)
  have spelled := segments_complete segments rfl
  have called : (Reader.segments.keepLeft (peek (Reader.mark "("))) named =
      some (name, .mark "(" :: opened) :=
    keepLeft_eq_some.2 ⟨_, (), spelled, peek_eq_some.2 ⟨⟨_, rfl⟩, rfl⟩⟩
  obtain ⟨xs, listed⟩ := (hk .full).exact.list (consumes_readTy .full) ends_of_comma (by omega)
    parameters (ends_of_mark (by decide)) rfl (readTy_mark .full ")" (by decide))
  have head := andThen_eq_some.2 ⟨_, andThen_eq_some.2 ⟨_, worded, called⟩,
    between_eq_some.2 ⟨_, rfl, listed⟩⟩
  cases result with
  | absent =>
    have none := keepRight_eq_none (q := readTy .full) (chain.mark_eq_none ends "->" (by decide))
    exact ⟨_, mid, map_eq_some.2 ⟨_, andThen_eq_some.2 ⟨_, head,
      optional_eq_some.2 (.inr ⟨rfl, none, rfl⟩)⟩, rfl⟩, .done, chain⟩
  | present read =>
    cases read with
    | read behind =>
      rename_i declared inner
      rw [List.length_cons] at closed_le
      obtain ⟨t, after, found, taken, left⟩ := hk .full (by omega) behind chain ends
      have arrow : (Reader.mark "->").keepRight (readTy .full) (.mark "->" :: inner) =
          some (t, after) := by rw [keepRight_mark_cons, found]
      exact ⟨_, after, map_eq_some.2 ⟨_, andThen_eq_some.2 ⟨_, head,
        optional_eq_some.2 (.inl ⟨t, rfl, arrow⟩)⟩, rfl⟩, taken, left⟩

omit hk in
theorem callPath_eq_none {name : String} {opened : List Lexeme} (first : NameFirst ts)
    (spelled : Reader.segments ts = some (name, opened))
    (uncalled : Reader.mark "(" opened = none) : callPath (readTy .full) ts = none := by
  cases found : callPath (readTy .full) ts with
  | none => rfl
  | some other =>
    obtain ⟨_, read, _⟩ := map_eq_some.1 found
    obtain ⟨_, read, _⟩ := andThen_eq_some.1 read
    obtain ⟨_, read, _⟩ := andThen_eq_some.1 read
    obtain ⟨named, worded, called⟩ := andThen_eq_some.1 read
    obtain ⟨after, _, spelled', peeked⟩ := keepLeft_eq_some.1 called
    obtain ⟨⟨_, open_⟩, _⟩ := peek_eq_some.1 peeked
    obtain ⟨_, rfl⟩ := Prod.mk.inj
      (Option.some.inj ((modifiers_complete .none first).symm.trans worded))
    obtain ⟨_, rfl⟩ := Prod.mk.inj (Option.some.inj (spelled.symm.trans spelled'))
    exact nomatch uncalled.symm.trans open_

theorem completeBelow_typePath :
    CompleteBelow (k + 1) (typePath (readTy .full)) (DerivesPath NotKeyword) := by
  intro ts p mid tail short h chain ends
  cases h with
  | fn modifiers segments parameters result =>
    obtain ⟨p, after, found, taken, left⟩ :=
      completeBelow_callPath hk short modifiers segments parameters result chain ends
    exact ⟨p, after, orElse_eq_some.2 (.inl found), taken, left⟩
  | plain segments args =>
    have shorter := (spans_segments segments).length_lt
    have first := segments_first segments
    cases args with
    | absent =>
      have spelled := segments_complete segments (chain.mark_eq_none ends "::" (by decide))
      have uncalled := callPath_eq_none first spelled (chain.mark_eq_none ends "(" (by decide))
      have bare : (args (readTy .full)).optional mid = some (none, mid) := by
        refine optional_eq_some.2 (.inr ⟨rfl, ?_, rfl⟩)
        have opening := chain.mark_eq_none ends "<" (by decide)
        simp only [args, orElse, map, andThen, between, keepLeft, keepRight, opening]
      exact ⟨_, mid, orElse_eq_some.2 (.inr ⟨uncalled,
        map_eq_some.2 ⟨_, andThen_eq_some.2 ⟨_, spelled, bare⟩, rfl⟩⟩), .done, chain⟩
    | present read =>
      obtain ⟨bs, listed⟩ := args_complete hk (by omega) read
      obtain ⟨inner, rfl⟩ := args_first read
      have spelled := segments_complete segments rfl
      have uncalled := callPath_eq_none first spelled rfl
      exact ⟨_, mid, orElse_eq_some.2 (.inr ⟨uncalled, map_eq_some.2 ⟨_, andThen_eq_some.2
        ⟨_, spelled, optional_eq_some.2 (.inl ⟨bs, rfl, listed⟩)⟩, rfl⟩⟩), .done, chain⟩

theorem completeBelow_traitBound :
    CompleteBelow (k + 1) (traitBound (readTy .full)) (DerivesTraitBound NotKeyword) := by
  intro ts b mid tail short h chain ends
  cases h with
  | read question path =>
    rename_i start mark p
    have start_le : Passes NotKeyword ts start := passes_optional passes_mark question
    have start_le := start_le.length_le
    obtain ⟨q, after, found, taken, left⟩ :=
      completeBelow_typePath hk (by omega) path chain ends
    have marked : (optional (Reader.mark "?")) ts = some (mark, start) := by
      cases question with
      | absent =>
        refine optional_eq_some.2 (.inr ⟨rfl, ?_, rfl⟩)
        cases asked : Reader.mark "?" ts with
        | none => rfl
        | some other =>
          rw [mark_eq_some.1 asked] at found
          cases found
      | present read => cases read; rfl
    exact ⟨_, after, map_eq_some.2 ⟨_, andThen_eq_some.2 ⟨_, marked, found⟩, rfl⟩, taken, left⟩

theorem completeBelow_bound :
    CompleteBelow (k + 1) (bound (readTy .full)) (DerivesBound NotKeyword) := by
  intro ts b mid tail short h chain ends
  cases h with
  | lifetime read =>
    cases read
    exact ⟨_, mid, rfl, .done, chain⟩
  | trait read =>
    obtain ⟨b, after, found, taken, left⟩ := completeBelow_traitBound hk short read chain ends
    have none : lifetime.map Bound.lifetime ts = none := by
      cases named : lifetime.map Bound.lifetime ts with
      | none => rfl
      | some item =>
        obtain ⟨name, named, _⟩ := map_eq_some.1 named
        rw [lifetime_eq_some.1 named] at found
        cases found
    exact ⟨_, after, orElse_eq_some.2 (.inr ⟨none, map_eq_some.2 ⟨b, found, rfl⟩⟩), taken, left⟩

theorem pairs_of_chain (short : ts.length ≤ k + 1) (chain : Chain ts tail) (ends : Ends tail) :
    ∃ bs, Pairs (bound (readTy .full)) "+" ts bs tail := by
  induction hn : ts.length using Nat.strongRecOn generalizing ts with
  | ind n ih =>
    subst hn
    cases chain with
    | done => exact ⟨[], .stop (keepRight_eq_none (ends.mark_eq_none "+" (by decide)))⟩
    | more read others =>
      rename_i inner mid b
      rw [List.length_cons] at short
      obtain ⟨c, after, found, _, left⟩ :=
        completeBelow_bound hk (by omega) read others ends
      have shorter := (consumes_bound (shrinks_readTy .full) found).2
      obtain ⟨cs, pairs⟩ := ih after.length (by rw [List.length_cons]; omega) (by omega) left rfl
      exact ⟨c :: cs, .next found pairs⟩

omit hk in
theorem chain_of_bounds {bs : List Bound} (h : DerivesBounds NotKeyword ts bs mid) :
    ∃ b after, DerivesBound NotKeyword ts b after ∧ Chain after mid := by
  induction h with
  | last only => exact ⟨_, _, only, .done⟩
  | more first others ih =>
    obtain ⟨b, after, bound, chain⟩ := ih
    exact ⟨_, _, first, .more bound chain⟩

theorem bounds_complete {bs : List Bound} (short : ts.length < k + 1)
    (h : DerivesBounds NotKeyword ts bs mid) (chain : Chain mid tail) (ends : Ends tail) :
    ∃ cs, bounds (readTy .full) ts = some (cs, tail) := by
  obtain ⟨b, after, first, listed⟩ := chain_of_bounds h
  obtain ⟨c, after, found, _, left⟩ :=
    completeBelow_bound hk short first (listed.trans chain) ends
  have consumes := consumes_bound (shrinks_readTy .full)
  have shorter := (consumes found).2
  obtain ⟨cs, pairs⟩ := pairs_of_chain hk (by omega) left ends
  exact ⟨c :: cs, (separated₁_eq_some consumes.shrinks).2 ⟨c, cs, after, rfl, found, pairs⟩⟩

/- The alternatives of a type, by what the text begins with. -/

omit hk in
theorem path_first {p : TypePath} (h : DerivesPath NotKeyword ts p rest) :
    NameFirst ts ∨ ∃ l inner, ts = l :: inner ∧
      (l = .word "unsafe" ∨ l = .word "extern" ∨ l = .mark "\"C\"") := by
  cases h with
  | plain segments args => exact .inl (segments_first segments)
  | fn modifiers segments parameters result =>
    cases modifiers with
    | none => exact .inl (segments_first segments)
    | more modifier others => exact .inr ⟨_, _, rfl, modifier⟩

omit hk in
/-- No other alternative begins as a path does. -/
theorem plainType_path {full plain : Reader Ty} {p : TypePath}
    (h : DerivesPath NotKeyword ts p rest) :
    plainType full plain ts = (typePath full).map Ty.path ts := by
  rcases path_first h with first | ⟨l, inner, rfl, rfl | rfl | rfl⟩
  · cases first with
    | word named =>
      have «impl» := named.ne "impl" (by decide)
      have «dyn» := named.ne "dyn" (by decide)
      simp [plainType, orElse, map, andThen, unitType, tupleType, arrayOrSlice, between, keepLeft,
        keepRight, pointerType, referenceType, singleType, Reader.mark, Reader.keyword, Opener.word,
        «impl», «dyn»]
    | dots => rfl
  · rfl
  · rfl
  · rfl

omit hk in
theorem keyword_mut_eq_none {t : Ty} (h : DerivesTy NotKeyword .plain ts t rest) :
    Reader.keyword "mut" ts = none := by
  cases h with
  | path read =>
    rcases path_first read with first | ⟨l, inner, rfl, rfl | rfl | rfl⟩
    · cases first with
      | word named => simp [Reader.keyword, named.ne "mut" (by decide)]
      | dots => rfl
    · rfl
    · rfl
    · rfl
  | single bound => rename_i opener _ _; cases opener <;> rfl
  | _ => rfl

theorem referenceType_complete {name : Option String} {mutable : Option Unit} {x : Ty}
    {named mutated : List Lexeme} (short : ts.length < k)
    (lifetime : Optional Lifetime ts name named)
    («mut» : Optional (Token (.word "mut")) named mutable mutated)
    (element : DerivesTy NotKeyword .plain mutated x mid) (chain : Chain mid tail)
    (ends : Ends tail) :
    ∃ t after, referenceType (readTy .plain) (.mark "&" :: ts) = some (t, after) ∧
      Chain mid after ∧ Chain after tail := by
  have front : Passes NotKeyword ts mutated :=
    (passes_optional (fun read => (spans_lifetime read).passes) lifetime).trans
      (passes_optional passes_mut «mut»)
  have shorter := front.length_le
  obtain ⟨y, after, found, taken, left⟩ := hk .plain (by omega) element chain ends
  have worded : optional (Reader.keyword "mut") named = some (mutable, mutated) := by
    cases «mut» with
    | absent => exact optional_eq_some.2 (.inr ⟨rfl, keyword_mut_eq_none element, rfl⟩)
    | present read => cases read; rfl
  have marked : optional Reader.lifetime ts = some (name, named) := by
    cases lifetime with
    | present read => cases read; rfl
    | absent =>
      refine optional_eq_some.2 (.inr ⟨rfl, ?_, rfl⟩)
      cases other : Reader.lifetime ts with
      | none => rfl
      | some item =>
        obtain rfl := lifetime_eq_some.1 other
        cases «mut» with
        | absent => rw [readTy_lifetime] at found; cases found
        | present read => cases read
  have ampersand : (Reader.mark "&").keepRight (optional Reader.lifetime) (.mark "&" :: ts) =
      some (name, named) := by rw [keepRight_mark_cons, marked]
  exact ⟨_, after, map_eq_some.2 ⟨_, andThen_eq_some.2 ⟨_, andThen_eq_some.2 ⟨_, ampersand,
    map_eq_some.2 ⟨_, worded, rfl⟩⟩, found⟩, rfl⟩, taken, left⟩

theorem tupleType_complete {xs : List Ty} (short : ts.length < k)
    (elements : CommaList₁ (DerivesTy NotKeyword .full) ts xs (.mark ")" :: rest)) :
    ∃ ys, plainType (readTy .full) (readTy .plain) (.mark "(" :: ts) = some (.tuple ys, rest) := by
  have stuck (ts : List Lexeme) : readTy .full (.mark ")" :: ts) = none :=
    readTy_mark .full ")" (by decide)
  obtain ⟨ys, found⟩ := (hk .full).exact.list₁ (consumes_readTy .full) ends_of_comma short elements
    (ends_of_mark (by decide)) rfl (stuck rest)
  have filled := brackets_eq_none "(" stuck found
  have read : tupleType (readTy .full) (.mark "(" :: ts) = some (.tuple ys, rest) :=
    map_eq_some.2 ⟨ys, between_eq_some.2 ⟨_, rfl, found⟩, rfl⟩
  exact ⟨ys, orElse_next rfl (orElse_next (map_eq_none.2 filled) (orElse_first read))⟩

omit hk in
theorem plainType_arrayOrSlice {x : Ty} {size : Option UInt64} {sized : List Lexeme}
    (element : readTy .full ts = some (x, sized))
    (counted : optional ((Reader.mark ";").keepRight arrayLength) sized =
      some (size, .mark "]" :: rest)) :
    ∃ t, plainType (readTy .full) (readTy .plain) (.mark "[" :: ts) = some (t, rest) := by
  have inner : between "[" "]" ((readTy .full).andThen
      (optional ((Reader.mark ";").keepRight arrayLength))) (.mark "[" :: ts) =
        some ((x, size), rest) :=
    between_eq_some.2 ⟨ts, rfl, andThen_eq_some.2 ⟨sized, element, counted⟩⟩
  have read : arrayOrSlice (readTy .full) (.mark "[" :: ts) = some (_, rest) :=
    map_eq_some.2 ⟨(x, size), inner, rfl⟩
  exact ⟨_, orElse_next rfl (orElse_next rfl (orElse_next rfl (orElse_first read)))⟩

theorem pointerType_complete {mutable : Bool} {text : String} {x : Ty}
    (word : mutability (.word text :: ts) = some (mutable, ts)) (short : ts.length < k)
    (element : DerivesTy NotKeyword .plain ts x mid) (chain : Chain mid tail) (ends : Ends tail) :
    ∃ t after, plainType (readTy .full) (readTy .plain) (.mark "*" :: .word text :: ts) =
      some (t, after) ∧ Chain mid after ∧ Chain after tail := by
  obtain ⟨y, after, found, taken, left⟩ := hk .plain short element chain ends
  have star : (Reader.mark "*").keepRight mutability (.mark "*" :: .word text :: ts) =
      some (mutable, ts) := by rw [keepRight_mark_cons, word]
  have read : pointerType (readTy .plain) (.mark "*" :: .word text :: ts) =
      some (.pointer mutable y, after) :=
    map_eq_some.2 ⟨(mutable, y), andThen_eq_some.2 ⟨_, star, found⟩, rfl⟩
  exact ⟨.pointer mutable y, after, orElse_next rfl (orElse_next rfl (orElse_next rfl
    (orElse_next rfl (orElse_first read)))), taken, left⟩

theorem singleType_complete {opener : Opener} {b : TraitBound} (short : ts.length < k + 1)
    (bound : DerivesTraitBound NotKeyword ts b mid) (chain : Chain mid tail) (ends : Ends tail) :
    ∃ t after, plainType (readTy .full) (readTy .plain) (.word opener.word :: ts) =
      some (t, after) ∧ Chain mid after ∧ Chain after tail := by
  obtain ⟨c, after, found, taken, left⟩ := completeBelow_traitBound hk short bound chain ends
  have read : singleType (readTy .full) opener (.word opener.word :: ts) =
      some (.single opener c, after) :=
    map_eq_some.2 ⟨c, keepRight_eq_some.2 ⟨_, (), keyword_eq_some.2 rfl, found⟩, rfl⟩
  refine ⟨.single opener c, after, ?_, taken, left⟩
  refine orElse_next rfl (orElse_next rfl (orElse_next rfl (orElse_next rfl (orElse_next rfl
    (orElse_next rfl ?_)))))
  cases opener with
  | impl => exact orElse_first read
  | dyn => exact orElse_next rfl (orElse_first read)

theorem completeBelow_plainType :
    CompleteBelow (k + 1) (readTy .plain) (DerivesTy NotKeyword .plain) := by
  intro ts t mid tail short h chain ends
  rw [readTy_plain]
  cases h with
  | never => exact ⟨.never, mid, rfl, .done, chain⟩
  | path read =>
    obtain ⟨p, after, found, taken, left⟩ := completeBelow_typePath hk short read chain ends
    rw [plainType_path read]
    exact ⟨.path p, after, map_eq_some.2 ⟨p, found, rfl⟩, taken, left⟩
  | tuple elements =>
    cases elements with
    | empty => exact ⟨.tuple [], mid, rfl, .done, chain⟩
    | items some =>
      obtain ⟨xs, found⟩ := tupleType_complete hk (Nat.lt_of_succ_lt_succ short) some
      exact ⟨.tuple xs, mid, found, .done, chain⟩
  | array element length =>
    rename_i inner sized x size
    obtain ⟨y, read⟩ := (hk .full).exact (Nat.lt_of_succ_lt_succ short) element
      (ends_of_mark (by decide))
    have semicolon : (Reader.mark ";").keepRight arrayLength (.mark ";" :: sized) =
        some (size, .mark "]" :: mid) := by rw [keepRight_mark_cons, size_complete length]
    obtain ⟨t, found⟩ :=
      plainType_arrayOrSlice read (optional_eq_some.2 (.inl ⟨size, rfl, semicolon⟩))
    exact ⟨t, mid, found, .done, chain⟩
  | slice element =>
    obtain ⟨y, read⟩ := (hk .full).exact (Nat.lt_of_succ_lt_succ short) element
      (ends_of_mark (by decide))
    obtain ⟨t, found⟩ := plainType_arrayOrSlice read (optional_eq_some.2 (.inr ⟨rfl, rfl, rfl⟩))
    exact ⟨t, mid, found, .done, chain⟩
  | mutPointer element =>
    rw [List.length_cons, List.length_cons] at short
    exact pointerType_complete hk rfl (by omega) element chain ends
  | constPointer element =>
    rw [List.length_cons, List.length_cons] at short
    exact pointerType_complete hk rfl (by omega) element chain ends
  | reference lifetime «mut» element =>
    obtain ⟨t, after, found, taken, left⟩ := referenceType_complete hk
      (Nat.lt_of_succ_lt_succ short) lifetime «mut» element chain ends
    exact ⟨t, after, orElse_next rfl (orElse_next rfl (orElse_next rfl (orElse_next rfl
      (orElse_next rfl (orElse_first found))))), taken, left⟩
  | single bound => exact singleType_complete hk (Nat.lt_of_succ_lt short) bound chain ends

theorem boundedType_complete {opener : Opener} {bs : List Bound} (short : ts.length < k)
    (bounds : DerivesBounds NotKeyword ts bs mid) (chain : Chain mid tail) (ends : Ends tail) :
    ∃ t, readTy .full (.word opener.word :: ts) = some (t, tail) := by
  obtain ⟨cs, found⟩ := bounds_complete hk (Nat.lt_succ_of_lt short) bounds chain ends
  have read : boundedType (readTy .full) opener (.word opener.word :: ts) =
      some (Grammar.bounded opener cs, tail) :=
    map_eq_some.2 ⟨cs, keepRight_eq_some.2 ⟨_, (), keyword_eq_some.2 rfl, found⟩, rfl⟩
  refine ⟨Grammar.bounded opener cs, ?_⟩
  rw [readTy_full]
  cases opener with
  | impl => exact orElse_first read
  | dyn => exact orElse_next rfl (orElse_first read)

omit hk in
theorem readTy_full_of_plain (other : ∀ opener : Opener, ts.head? ≠ some (.word opener.word)) :
    readTy .full ts = readTy .plain ts := by
  have unopened (opener : Opener) : boundedType (readTy .full) opener ts = none := by
    refine map_eq_none.2 (keepRight_eq_none ?_)
    cases word : Reader.keyword opener.word ts with
    | none => rfl
    | some found =>
      rw [keyword_eq_some.1 word] at other
      exact absurd rfl (other opener)
  rw [readTy_full, fullType, orElse_of_none (unopened .impl), orElse_of_none (unopened .dyn)]

theorem completeBelow_fullType :
    CompleteBelow (k + 1) (readTy .full) (DerivesTy NotKeyword .full) := by
  intro ts t mid tail short h chain ends
  have plain (other : ∀ opener : Opener, ts.head? ≠ some (.word opener.word))
      (h : DerivesTy NotKeyword .plain ts t mid) :
      ∃ b after, readTy .full ts = some (b, after) ∧ Chain mid after ∧ Chain after tail := by
    rw [readTy_full_of_plain other]
    exact completeBelow_plainType hk short h chain ends
  cases h with
  | bounded bounds several =>
    obtain ⟨t, found⟩ :=
      boundedType_complete hk (Nat.lt_of_succ_lt_succ short) bounds chain ends
    exact ⟨t, tail, found, chain, .done⟩
  | unbounded h =>
    cases h with
    | single bound =>
      obtain ⟨t, found⟩ := boundedType_complete hk (Nat.lt_of_succ_lt_succ short)
        (.last (.trait bound)) chain ends
      exact ⟨t, tail, found, chain, .done⟩
    | path read =>
      refine plain (fun opener same => ?_) (.path read)
      rcases path_first read with first | ⟨l, inner, rfl, rfl | rfl | rfl⟩
      · cases first with
        | word named =>
          cases opener with
          | impl => exact named.ne "impl" (by decide) (Lexeme.word.inj (Option.some.inj same))
          | dyn => exact named.ne "dyn" (by decide) (Lexeme.word.inj (Option.some.inj same))
        | dots => cases same
      · cases opener <;> exact absurd (Lexeme.word.inj (Option.some.inj same)) (by decide)
      · cases opener <;> exact absurd (Lexeme.word.inj (Option.some.inj same)) (by decide)
      · cases same
    | never => exact plain (fun _ same => nomatch same) .never
    | tuple elements => exact plain (fun _ same => nomatch same) (.tuple elements)
    | array element length => exact plain (fun _ same => nomatch same) (.array element length)
    | slice element => exact plain (fun _ same => nomatch same) (.slice element)
    | mutPointer element => exact plain (fun _ same => nomatch same) (.mutPointer element)
    | constPointer element => exact plain (fun _ same => nomatch same) (.constPointer element)
    | reference lifetime «mut» element =>
      exact plain (fun _ same => nomatch same) (.reference lifetime «mut» element)

end Types

theorem completeBelow_readTy (k : Nat) (spot : Spot) :
    CompleteBelow k (readTy spot) (DerivesTy NotKeyword spot) := by
  induction k generalizing spot with
  | zero => exact fun _ _ _ _ short => absurd short (Nat.not_lt_zero _)
  | succ k ih =>
    cases spot with
    | plain => exact completeBelow_plainType ih
    | full => exact completeBelow_fullType ih

/-- A derivable type that ends here is read up to here. -/
theorem readTy_complete {ts rest : List Lexeme} {t : Ty} (h : DerivesTy NotKeyword .full ts t rest)
    (ends : Ends rest) : ∃ u, readTy .full ts = some (u, rest) :=
  (completeBelow_readTy (ts.length + 1) .full).exact (Nat.lt_succ_self _) h ends

theorem readPath_complete {ts rest : List Lexeme} {p : TypePath}
    (h : DerivesPath NotKeyword ts p rest) (ends : Ends rest) :
    ∃ q, typePath (readTy .full) ts = some (q, rest) :=
  (completeBelow_typePath (completeBelow_readTy ts.length)).exact (Nat.lt_succ_self _) h ends

theorem readBounds_complete {ts rest : List Lexeme} {bs : List Bound}
    (h : DerivesBounds NotKeyword ts bs rest) (ends : Ends rest) :
    ∃ cs, bounds (readTy .full) ts = some (cs, rest) :=
  bounds_complete (completeBelow_readTy ts.length) (Nat.lt_succ_self _) h .done ends

end Reader

end ImplFamilies.Grammar
