import ImplFamilies.Proofs.Grammar.Renamed

/-!
Types and paths are read again after renaming, each by the alternative that read it before.
-/

namespace ImplFamilies.Grammar.Reader

variable {ts us mid rest : List Lexeme} {ρ : Renaming} {k : Nat}

theorem Carries.lifetimeOr {α β : Type} {f : String → α} {p : Reader β} {g : β → α} {v : α → α}
    {w : β → β} (kept : ∀ name, v (f name) = f name) (renamed : ∀ b, v (g b) = g (w b))
    (h : Carries k p w) : Carries k ((lifetime.map f).orElse (p.map g)) v := by
  intro ts a rest us fits read behind formed
  rcases orElse_eq_some.1 read with first | ⟨unnamed, second⟩
  · obtain ⟨name, named, rfl⟩ := map_eq_some.1 first
    obtain rfl := lifetime_eq_some.1 named
    rw [kept]
    exact ⟨.lifetime name :: us, rfl, .same (fun same => nomatch same),
      formed.cons fits.formed⟩
  · obtain ⟨b, other, rfl⟩ := map_eq_some.1 second
    obtain ⟨ts', became⟩ := h fits other behind formed
    have unnamed := became.begins.lifetime_eq_none (map_eq_none.1 unnamed)
    rw [renamed]
    exact ⟨ts', orElse_next (map_eq_none.2 unnamed) (map_eq_some.2 ⟨_, became.read, rfl⟩),
      became.begins, became.formed⟩

/- Words that are no names. -/

theorem arrayLength_stays {size : UInt64} (h : arrayLength ts = some (size, rest)) :
    ∃ text, ts = .word text :: rest ∧ ∀ us, arrayLength (.word text :: us) = some (size, us) := by
  obtain ⟨text, rfl, number, rfl⟩ := arrayLength_eq_some.1 h
  exact ⟨text, rfl, fun us => arrayLength_eq_some.2 ⟨text, rfl, number, rfl⟩⟩

theorem mutability_stays {mutable : Bool} (h : mutability ts = some (mutable, rest)) :
    ∃ text, ts = .word text :: rest ∧ ∀ us, mutability (.word text :: us) = some (mutable, us) := by
  rcases orElse_eq_some.1 h with «mut» | ⟨_, «const»⟩
  · obtain ⟨_, word, rfl⟩ := map_eq_some.1 «mut»
    exact ⟨"mut", keyword_eq_some.1 word, fun us => rfl⟩
  · obtain ⟨_, word, rfl⟩ := map_eq_some.1 «const»
    exact ⟨"const", keyword_eq_some.1 word, fun us => rfl⟩

theorem referenceMarks_stay {after after' : List Lexeme} {name : Option String}
    {mutable : Option Unit} (named : optional lifetime ts = some (name, mid))
    («mut» : optional (keyword "mut") mid = some (mutable, after))
    (begins : BeginsLike after after') (old : AllFormed ts) (formed : AllFormed after') :
    ∃ ts' mid', optional lifetime ts' = some (name, mid') ∧
      optional (keyword "mut") mid' = some (mutable, after') ∧ AllFormed ts' := by
  obtain ⟨mid', «mut», begins, formed⟩ : ∃ mid',
      optional (keyword "mut") mid' = some (mutable, after') ∧ BeginsLike mid mid' ∧
        AllFormed mid' := by
    rcases optional_eq_some.1 «mut» with ⟨_, rfl, word⟩ | ⟨rfl, missing, rfl⟩
    · obtain rfl := keyword_eq_some.1 word
      have word : (Lexeme.word "mut").Formed :=
        Lexeme.formed_word (by decide) (by decide)
      exact ⟨.word "mut" :: after', rfl, .same fun same => absurd same (by decide),
        formed.cons word⟩
    · have missing := begins.keyword_eq_none (by decide) missing
      exact ⟨after', optional_eq_some.2 (.inr ⟨rfl, missing, rfl⟩), begins, formed⟩
  rcases optional_eq_some.1 named with ⟨name, rfl, read⟩ | ⟨rfl, missing, rfl⟩
  · obtain rfl := lifetime_eq_some.1 read
    exact ⟨.lifetime name :: mid', mid', rfl, «mut», formed.cons (old _ List.mem_cons_self)⟩
  · have missing := begins.lifetime_eq_none missing
    exact ⟨mid', mid', optional_eq_some.2 (.inr ⟨rfl, missing, rfl⟩), «mut», formed⟩

theorem opener_formed (opener : Opener) : (Lexeme.word opener.word).Formed := by
  cases opener <;> exact Lexeme.formed_word (by decide) (by decide)

theorem BeginsLike.opener (opener : Opener) (ts us : List Lexeme) :
    BeginsLike (.word opener.word :: ts) (.word opener.word :: us) := by
  refine .same fun same => ?_
  cases opener <;> exact absurd same (by decide)

theorem bounded_rename (ρ : Renaming) (opener : Opener) (bs : List Bound) :
    (bounded opener bs).rename ρ = bounded opener (bs.map (Bound.rename ρ)) := by
  match bs with
  | [] => rfl
  | [.trait b] => rfl
  | .lifetime _ :: _ => simp [bounded, Ty.rename, Bound.rename]
  | .trait _ :: _ :: _ => simp [bounded, Ty.rename]

theorem BeginsLike.unlessOpened {α : Type} {p : Reader α} {text : String}
    (h : BeginsLike (.mark text :: ts) us) : UnlessOpened p us := by
  intro opener inner opened
  cases h with
  | same => cases opened
  | renamed named =>
    exact absurd (Lexeme.word.inj (List.cons.inj opened).1) (notKeyword_ne_opener named opener)

section Types

variable (words : Words ρ) (hk : ∀ spot, Carries k (readTy spot) (Ty.rename ρ))

section Arguments

include hk

theorem carries_arg : Carries k (arg (readTy .full)) (Arg.rename ρ) :=
  Carries.lifetimeOr (fun _ => rfl) (fun _ => rfl) (hk .full)

theorem args_renamed {as : List Arg} (fits : Fits (k + 1) ts)
    (read : args (readTy .full) ts = some (as, rest)) (formed : AllFormed us) :
    ∃ inner, args (readTy .full) (.mark "<" :: inner) = some (as.map (Arg.rename ρ), us) ∧
      AllFormed inner := by
  rcases orElse_eq_some.1 read with empty | ⟨_, filled⟩
  · obtain ⟨_, _, rfl⟩ := map_eq_some.1 empty
    exact ⟨.mark ">" :: us, rfl, formed.mark ">"⟩
  · obtain ⟨inner, rfl, listed⟩ := between_eq_some.1 filled
    have stuck (ts : List Lexeme) : arg (readTy .full) (.mark ">" :: ts) = none := by
      simp only [arg, orElse, map, lifetime, readTy_mark .full ">" (by decide)]
    obtain ⟨inner', became⟩ := (carries_arg hk).list₁ (by decide) stuck
      (shrinks_arg (shrinks_readTy .full)) fits.behind listed formed
    have filled := brackets_eq_none "<" stuck became.read
    exact ⟨inner', orElse_next (map_eq_none.2 filled)
      (between_eq_some.2 ⟨_, rfl, became.read⟩), became.formed⟩

theorem output_renamed {output : Option Ty} (fits : Fits k ts)
    (read : optional ((mark "->").keepRight (readTy .full)) ts = some (output, rest))
    (behind : FollowsPhrase rest us) (formed : AllFormed us) :
    ∃ ts', optional ((mark "->").keepRight (readTy .full)) ts' =
      some (output.map (Ty.rename ρ), us) ∧ AllFormed ts' := by
  rcases optional_eq_some.1 read with ⟨t, rfl, arrow⟩ | ⟨rfl, _, rfl⟩
  · obtain ⟨inner, rfl, type⟩ := keepRight_mark_eq_some.1 arrow
    obtain ⟨inner', became⟩ := hk .full fits.drop type behind formed
    have arrow : (mark "->").keepRight (readTy .full) (.mark "->" :: inner') =
        some (t.rename ρ, us) := by rw [keepRight_mark_cons, became.read]
    exact ⟨_, optional_eq_some.2 (.inl ⟨_, rfl, arrow⟩), became.formed.mark "->"⟩
  · have none := keepRight_eq_none (q := readTy .full) (behind.mark_eq_none "->" (by decide))
    exact ⟨us, optional_eq_some.2 (.inr ⟨rfl, none, rfl⟩), formed⟩

end Arguments

/-- Modifiers in front of a name that is none. -/
theorem modifiers_append {front : List Lexeme} {l : Lexeme}
    (all : ∀ m ∈ front, isModifier m = true) (other : isModifier l = false) (ts : List Lexeme) :
    modifiers (front ++ l :: ts) =
      some (String.ofList (Text.joined " " (front.map (·.text.toList))), l :: ts) := by
  have taken : (front ++ l :: ts).takeWhile isModifier = front := by
    rw [List.takeWhile_append_of_pos all, List.takeWhile_cons_of_neg (by simp [other]),
      List.append_nil]
  have dropped : (front ++ l :: ts).dropWhile isModifier = l :: ts := by
    rw [List.dropWhile_append_of_pos all, List.dropWhile_cons_of_neg (by simp [other])]
  rw [modifiers, taken, dropped]

theorem modifiers_eq_some {name : String} {l : Lexeme}
    (h : modifiers ts = some (name, l :: rest)) :
    ∃ front, ts = front ++ l :: rest ∧ (∀ m ∈ front, isModifier m = true) ∧
      isModifier l = false ∧
      name = String.ofList (Text.joined " " (front.map (·.text.toList))) := by
  obtain ⟨rfl, dropped⟩ := Prod.mk.inj (Option.some.inj h)
  have other := List.head?_dropWhile_not isModifier ts
  rw [dropped] at other
  refine ⟨ts.takeWhile isModifier, ?_, List.all_eq_true.1 List.all_takeWhile,
    by simpa using other, rfl⟩
  rw [← dropped, List.takeWhile_append_dropWhile]

include hk

theorem callPath_renamed {p : TypePath} (fits : Fits (k + 1) ts)
    (read : callPath (readTy .full) ts = some (p, rest)) (behind : FollowsPhrase rest us)
    (formed : AllFormed us) :
    ∃ ts', callPath (readTy .full) ts' = some (p.rename ρ, us) ∧ PathBeginsLike ts ts' ∧
      AllFormed ts' := by
  obtain ⟨⟨⟨⟨words, name⟩, inputs⟩, output⟩, whole, rfl⟩ := map_eq_some.1 read
  obtain ⟨closed, head, result⟩ := andThen_eq_some.1 whole
  obtain ⟨opened, start, parameters⟩ := andThen_eq_some.1 head
  obtain ⟨named, worded, called⟩ := andThen_eq_some.1 start
  obtain ⟨_, _, spelled, peeked⟩ := keepLeft_eq_some.1 called
  obtain ⟨_, rfl⟩ := peek_eq_some.1 peeked
  obtain ⟨inner, rfl, listed⟩ := between_eq_some.1 parameters
  obtain ⟨l, between, parts, segment, further, rfl, rfl⟩ := further_of_segments spelled
  obtain ⟨front, rfl, modified, other, rfl⟩ := modifiers_eq_some worded
  -- From the back: the output, the parameters, and then the name with its modifiers.
  have inner_fits : Fits k inner :=
    fits.shorter ⟨front ++ l :: (between ++ [.mark "("]), by simp⟩ (by simp; omega)
  have closed_fits : Fits k closed :=
    inner_fits.suffix ((List.suffix_cons _ _).trans ((shrinks_readTy .full).list listed))
  obtain ⟨closed', result', closed_formed⟩ := output_renamed hk closed_fits result behind formed
  have stuck (ts : List Lexeme) : readTy .full (.mark ")" :: ts) = none :=
    readTy_mark .full ")" (by decide)
  obtain ⟨inner', became⟩ :=
    (hk .full).list (by decide) stuck (shrinks_readTy .full) inner_fits listed closed_formed
  have worded' := modifiers_append modified other (between ++ .mark "(" :: inner')
  have colons : mark "::" (.mark "(" :: inner') = none := rfl
  have called' := keepLeft_eq_some.2 ⟨_, (), further.segments segment colons,
    peek_eq_some.2 ⟨⟨_, mark_cons "(" inner'⟩, rfl⟩⟩
  have head' := andThen_eq_some.2 ⟨_, andThen_eq_some.2 ⟨_, worded', called'⟩,
    between_eq_some.2 ⟨_, rfl, became.read⟩⟩
  rw [TypePath.rename_fn]
  refine ⟨_, map_eq_some.2 ⟨_, andThen_eq_some.2 ⟨_, head', result'⟩, rfl⟩, ?_, ?_⟩
  · cases front with
    | nil => exact .same (further.followsName (.call (typed_of_list listed)))
    | cons m front => exact .modifier (modified m List.mem_cons_self)
  · obtain ⟨front_formed, named_formed⟩ := List.forall_mem_append.1 fits.2
    obtain ⟨first, behind_formed⟩ := List.forall_mem_cons.1 named_formed
    have between_formed := (List.forall_mem_append.1 behind_formed).1
    have inner_formed := AllFormed.append between_formed (became.formed.mark "(")
    exact AllFormed.append front_formed (inner_formed.cons first)

theorem optionalArgs_renamed {as : Option (List Arg)} (fits : Fits (k + 1) ts)
    (read : optional (args (readTy .full)) ts = some (as, rest)) (behind : FollowsPhrase rest us)
    (formed : AllFormed us) :
    ∃ ts', optional (args (readTy .full)) ts' = some (as.map (List.map (Arg.rename ρ)), us) ∧
      FollowsName ts ts' ∧ mark "::" ts' = none ∧ mark "(" ts' = none ∧ AllFormed ts' := by
  rcases optional_eq_some.1 read with ⟨as, rfl, listed⟩ | ⟨rfl, _, rfl⟩
  · obtain ⟨inner, listed, formed⟩ := args_renamed hk fits listed formed
    exact ⟨.mark "<" :: inner, optional_eq_some.2 (.inl ⟨_, rfl, listed⟩),
      .typeless (typeless_mark (by decide)), rfl, rfl, formed.mark "<"⟩
  · have bare : args (readTy .full) us = none := by
      have opening := behind.mark_eq_none "<" (by decide)
      simp only [args, orElse, map, andThen, between, keepLeft, keepRight, opening]
    exact ⟨us, optional_eq_some.2 (.inr ⟨rfl, bare, rfl⟩), behind.followsName,
      behind.mark_eq_none "::" (by decide), behind.mark_eq_none "(" (by decide), formed⟩

include words

theorem plainPath_renamed {p : TypePath} (fits : Fits (k + 1) ts)
    (uncalled : callPath (readTy .full) ts = none)
    (read : plainPath (readTy .full) ts = some (p, rest)) (behind : FollowsPhrase rest us)
    (formed : AllFormed us) :
    ∃ ts', typePath (readTy .full) ts' = some (p.rename ρ, us) ∧ PathBeginsLike ts ts' ∧
      AllFormed ts' := by
  obtain ⟨⟨name, as⟩, whole, rfl⟩ := map_eq_some.1 read
  obtain ⟨mid, spelled, listed⟩ := andThen_eq_some.1 whole
  obtain ⟨l, between, parts, segment, further, rfl, rfl⟩ := further_of_segments spelled
  have mid_fits : Fits (k + 1) mid := fits.suffix ⟨l :: between, by simp⟩
  obtain ⟨mid', listed', after, colons, unopened, mid_formed⟩ :=
    optionalArgs_renamed hk mid_fits listed behind formed
  obtain ⟨l', renames, first⟩ := words.renames fits.formed
  have spelled' := further.segments (renames.isSegment segment) colons
  have uncalled' := renames.callPath_eq_none segment further after colons unopened uncalled
  have between_formed := (List.forall_mem_append.1 fits.drop.2).1
  rw [TypePath.rename_plain, renameSegments_joinedFrom ρ (segment.no_colon fits.formed),
    renames.text]
  refine ⟨l' :: (between ++ mid'), orElse_next uncalled' ?_,
    renames.pathBeginsLike (further.followsName after),
    (AllFormed.append between_formed mid_formed).cons first⟩
  exact map_eq_some.2 ⟨_, andThen_eq_some.2 ⟨_, spelled', listed'⟩, rfl⟩

theorem typePath_renamed {p : TypePath} (fits : Fits (k + 1) ts)
    (read : typePath (readTy .full) ts = some (p, rest)) (behind : FollowsPhrase rest us)
    (formed : AllFormed us) :
    ∃ ts', typePath (readTy .full) ts' = some (p.rename ρ, us) ∧ PathBeginsLike ts ts' ∧
      AllFormed ts' := by
  rcases orElse_eq_some.1 read with called | ⟨uncalled, plain⟩
  · obtain ⟨ts', called', begins, formed⟩ := callPath_renamed hk fits called behind formed
    exact ⟨ts', orElse_first called', begins, formed⟩
  · exact plainPath_renamed words hk fits uncalled plain behind formed

theorem carries_traitBound : Carries (k + 1) (traitBound (readTy .full)) (TraitBound.rename ρ) := by
  intro ts b rest us fits read behind formed
  obtain ⟨⟨question, p⟩, whole, rfl⟩ := map_eq_some.1 read
  obtain ⟨named, asked, path⟩ := andThen_eq_some.1 whole
  rcases optional_eq_some.1 asked with ⟨_, rfl, question⟩ | ⟨rfl, unasked, rfl⟩
  · obtain rfl := mark_eq_some.1 question
    obtain ⟨named', path', _, formed⟩ := typePath_renamed words hk fits.drop path behind formed
    have asked : optional (mark "?") (.mark "?" :: named') = some (some (), named') := rfl
    exact ⟨_, map_eq_some.2 ⟨_, andThen_eq_some.2 ⟨_, asked, path'⟩, rfl⟩, .mark "?" _ _,
      formed.mark "?"⟩
  · obtain ⟨ts', path', begins, formed⟩ := typePath_renamed words hk fits path behind formed
    have unasked' := begins.begins.mark_eq_none unasked
    have skipped : optional (mark "?") ts' = some (none, ts') :=
      optional_eq_some.2 (.inr ⟨rfl, unasked', rfl⟩)
    exact ⟨ts', map_eq_some.2 ⟨_, andThen_eq_some.2 ⟨_, skipped, path'⟩, rfl⟩, begins.begins,
      formed⟩

theorem carries_bound : Carries (k + 1) (bound (readTy .full)) (Bound.rename ρ) :=
  Carries.lifetimeOr (fun _ => rfl) (fun _ => rfl) (carries_traitBound words hk)

theorem carries_bounds : Carries (k + 1) (bounds (readTy .full)) (List.map (Bound.rename ρ)) := by
  intro ts bs rest us fits read behind formed
  have shrinks := (consumes_bound (shrinks_readTy .full)).shrinks
  have row := (separated₁_eq_some shrinks).1 read
  have ended : (mark "+").keepRight (bound (readTy .full)) rest = none := by
    obtain ⟨_, _, _, _, _, pairs⟩ := row
    exact pairs.ended
  obtain ⟨ts', row', begins, formed⟩ := (carries_bound words hk).row shrinks .plus fits row
    (keepRight_eq_none (behind.plus_eq_none ended)) behind formed
  exact ⟨ts', (separated₁_eq_some shrinks).2 row', begins, formed⟩

/- The alternatives of a type. -/

theorem plainType_renamed {t : Ty} (fits : Fits (k + 1) ts) (read : PlainRead ts t rest)
    (behind : FollowsPhrase rest us) (formed : AllFormed us) :
    ∃ ts', PlainRead ts' (t.rename ρ) us ∧ BeginsLike ts ts' ∧ AllFormed ts' := by
  have stuck (ts : List Lexeme) : readTy .full (.mark ")" :: ts) = none :=
    readTy_mark .full ")" (by decide)
  cases read with
  | never => exact ⟨.mark "!" :: us, .never, .mark "!" _ us, formed.mark "!"⟩
  | unit =>
    exact ⟨.mark "(" :: .mark ")" :: us, .unit, .mark "(" _ _, (formed.mark ")").mark "("⟩
  | tuple elements =>
    obtain ⟨inner, became⟩ := (hk .full).list₁ (by decide) stuck (shrinks_readTy .full)
      fits.behind elements formed
    rw [Ty.rename, Ty.renameEach_eq_map]
    exact ⟨.mark "(" :: inner, .tuple became.read, .mark "(" _ inner, became.formed.mark "("⟩
  | array element length =>
    obtain ⟨text, rfl, counted⟩ := arrayLength_stays length
    have size_formed := (fits.behind.suffix (shrinks_readTy .full element)).drop.formed
    obtain ⟨inner, became⟩ := hk .full fits.behind element (.mark (by decide))
      (((formed.mark "]").cons size_formed).mark ";")
    exact ⟨.mark "[" :: inner, .array became.read (counted _), .mark "[" _ inner,
      became.formed.mark "["⟩
  | slice element =>
    obtain ⟨inner, became⟩ := hk .full fits.behind element (.mark (by decide))
      (formed.mark "]")
    exact ⟨.mark "[" :: inner, .slice became.read, .mark "[" _ inner, became.formed.mark "["⟩
  | pointer word element =>
    obtain ⟨text, rfl, stays⟩ := mutability_stays word
    obtain ⟨inner, became⟩ := hk .plain fits.behind.drop element behind formed
    exact ⟨.mark "*" :: .word text :: inner, .pointer (stays inner) became.read, .mark "*" _ _,
      (became.formed.cons fits.drop.formed).mark "*"⟩
  | reference named «mut» element =>
    have after := ((Consumes.keyword "mut").shrinks.optional «mut»).trans
      (consumes_lifetime.shrinks.optional named)
    obtain ⟨inner, became⟩ := hk .plain (fits.behind.suffix after) element behind formed
    obtain ⟨mid, start, named, «mut», formed⟩ :=
      referenceMarks_stay named «mut» became.begins fits.drop.2 became.formed
    exact ⟨.mark "&" :: mid, .reference named «mut» became.read, .mark "&" _ mid, formed.mark "&"⟩
  | @single opener _ _ b bound =>
    obtain ⟨inner, became⟩ := carries_traitBound words hk fits.drop bound behind formed
    exact ⟨.word opener.word :: inner, .single became.read, .opener opener _ inner,
      became.formed.cons (opener_formed opener)⟩
  | path path unopened =>
    obtain ⟨ts', path', begins, formed⟩ := typePath_renamed words hk fits path behind formed
    have unopened' := begins.unlessOpened traitBound_word Boundless.traitBound_eq_none unopened
    exact ⟨ts', .path path' unopened', begins.begins, formed⟩

/-- A type that has no list of bounds does not get one. -/
theorem unbounded_renamed {t : Ty} (fits : Fits (k + 1) ts)
    (unopened : UnlessOpened (bounds (readTy .full)) ts) (read : PlainRead ts t rest)
    (behind : FollowsPhrase rest us) (formed : AllFormed us) :
    ∃ ts', UnlessOpened (bounds (readTy .full)) ts' ∧ PlainRead ts' (t.rename ρ) us ∧
      BeginsLike ts ts' ∧ AllFormed ts' := by
  obtain ⟨ts', plain, begins, plain_formed⟩ := plainType_renamed words hk fits read behind formed
  cases read with
  | path path unbounded =>
    obtain ⟨ts', path', begins, formed⟩ := typePath_renamed words hk fits path behind formed
    have unopened' := begins.unlessOpened bounds_word Boundless.bounds_eq_none unopened
    have unbounded' := begins.unlessOpened traitBound_word Boundless.traitBound_eq_none unbounded
    exact ⟨ts', unopened', .path path' unbounded', begins.begins, formed⟩
  | single bound => exact nomatch (unopened.traitBound _ _ rfl).symm.trans bound
  | _ => exact ⟨ts', begins.unlessOpened, plain, begins, plain_formed⟩

theorem fullType_renamed {t : Ty} (fits : Fits (k + 1) ts)
    (read : readTy .full ts = some (t, rest)) (behind : FollowsPhrase rest us)
    (formed : AllFormed us) :
    ∃ ts', Becomes (readTy .full) ts (t.rename ρ) us ts' := by
  rcases readTy_full_iff.1 read with ⟨opener, inner, bs, rfl, listed, rfl⟩ | ⟨unopened, read⟩
  · obtain ⟨inner', became⟩ := carries_bounds words hk fits.drop listed behind formed
    refine ⟨.word opener.word :: inner', ?_, .opener opener inner inner',
      became.formed.cons (opener_formed opener)⟩
    exact readTy_full_iff.2
      (.inl ⟨opener, inner', _, rfl, became.read, bounded_rename ρ opener bs⟩)
  · obtain ⟨ts', unopened, plain, begins, formed⟩ :=
      unbounded_renamed words hk fits unopened read behind formed
    exact ⟨ts', readTy_full_iff.2 (.inr ⟨unopened, plain⟩), begins, formed⟩

end Types

theorem carries_readTy (words : Words ρ) (k : Nat) (spot : Spot) :
    Carries k (readTy spot) (Ty.rename ρ) := by
  induction k generalizing spot with
  | zero => exact fun _ _ _ _ fits => absurd fits.1 (Nat.not_lt_zero _)
  | succ k ih =>
    intro ts t rest us fits read behind formed
    cases spot with
    | full => exact fullType_renamed words ih fits read behind formed
    | plain =>
      obtain ⟨ts', plain, begins, formed⟩ :=
        plainType_renamed words ih fits (readTy_plain_iff.1 read) behind formed
      exact ⟨ts', readTy_plain_iff.2 plain, begins, formed⟩

end ImplFamilies.Grammar.Reader
