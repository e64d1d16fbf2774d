import ImplFamilies.Proofs.Grammar.TypeEquations
import Mathlib.Data.List.Chain
import Mathlib.Data.List.Nodup
import Mathlib.Order.WellFounded

/-!
Reading comes to an end. What a rule calls for stands further on in the text, or at the same place
and lower in the grammar: nothing is called for again before a character has been read. So every
chain of calls is finite, types are nested at most as deep as the text is long, and the rounds of
every repetition are as many as its characters at most.
-/

namespace ImplFamilies.Grammar

open Scheme Relation

/-- A rule that is run at a place. -/
structure Call : Type 1 where
  {α : Type}
  scheme : Scheme α
  place : Cursor

namespace Scheme

variable {α β : Type}

inductive Lists (item : Scheme α) (separator : Scheme β) : Scheme (List α) → (closed : Bool) → Prop
  | separated₁ : Lists item separator (item.separated₁ separator) false
  | list : Lists item separator (item.list separator) true
  | list₁ : Lists item separator (item.list₁ separator) true

theorem Lists.eats_item {item : Scheme α} {separator : Scheme β} {p : Scheme (List α)}
    {closed : Bool} (lists : Lists item separator p closed) (ok : p.steady = true) :
    item.eats = true := by
  cases lists <;> exact ((Bool.and_eq_true_iff).1 ((Bool.and_eq_true_iff).1 ok).1).1

def rounds (item : Scheme α) (separator : Scheme β) : Scheme (List (β × α)) :=
  (separator.andThen item).many

end Scheme

/-- What a rule calls for in turn. A repetition calls for itself once more after each round. -/
inductive Calls : Call → Call → Prop
  | nested (spot : Spot) (c : Cursor) : Calls ⟨.nested spot, c⟩ ⟨body spot, c⟩
  | map {α β : Type} (f : α → β) (p : Scheme α) (c : Cursor) : Calls ⟨p.map f, c⟩ ⟨p, c⟩
  | first {α β : Type} (p : Scheme α) (q : Scheme β) (c : Cursor) : Calls ⟨p.andThen q, c⟩ ⟨p, c⟩
  | second {α β : Type} {p : Scheme α} (q : Scheme β) {c c₁ : Cursor} {a : α}
      (read : (p.rule typeRule c).result? = some (a, c₁)) : Calls ⟨p.andThen q, c⟩ ⟨q, c₁⟩
  | choice {α : Type} (p q : Scheme α) (c : Cursor) : Calls ⟨p.orElse q, c⟩ ⟨p, c⟩
  | other {α : Type} {p : Scheme α} (q : Scheme α) {c : Cursor}
      (failed : (p.rule typeRule c).result? = none) : Calls ⟨p.orElse q, c⟩ ⟨q, c⟩
  | optional {α : Type} (p : Scheme α) (c : Cursor) : Calls ⟨p.optional, c⟩ ⟨p, c⟩
  | padded {α : Type} (p : Scheme α) (c : Cursor) :
      Calls ⟨p.padded, c⟩ ⟨p, c.skipWhile Text.isBlank⟩
  | round {α : Type} (p : Scheme α) (c : Cursor) : Calls ⟨p.many, c⟩ ⟨p, c⟩
  | again {α : Type} {p : Scheme α} {c c₁ : Cursor} {a : α}
      (read : (p.rule typeRule c).result? = some (a, c₁)) : Calls ⟨p.many, c⟩ ⟨p.many, c₁⟩
  | item {α β : Type} {item : Scheme α} {separator : Scheme β} {p : Scheme (List α)} {closed : Bool}
      (lists : Lists item separator p closed) (c : Cursor) : Calls ⟨p, c⟩ ⟨item, c⟩
  | rounds {α β : Type} {item : Scheme α} {separator : Scheme β} {p : Scheme (List α)}
      {closed : Bool} (lists : Lists item separator p closed) {c c₁ : Cursor} {a : α}
      (read : (item.rule typeRule c).result? = some (a, c₁)) :
      Calls ⟨p, c⟩ ⟨item.rounds separator, c₁⟩
  | closing {α β : Type} {item : Scheme α} {separator : Scheme β} {p : Scheme (List α)}
      (lists : Lists item separator p true) {c : Cursor} {s : Rule.Series α}
      (series : Rule.series (item.rule typeRule) (separator.rule typeRule) c = s)
      (some : s.items ≠ []) : Calls ⟨p, c⟩ ⟨separator, s.cursor⟩

namespace Scheme

variable {α β : Type}

def size : {α : Type} → Scheme α → Nat
  | _, .nested _ | _, .word _ _ _ | _, .glance _ _ => 1
  | _, .map _ p | _, .optional p | _, .padded p | _, .many p => p.size + 1
  | _, .andThen p q | _, .orElse p q => p.size + q.size + 1
  | _, .separated₁ item separator | _, .list item separator | _, .list₁ item separator =>
    item.size + separator.size + 3

/-- What a type adds to the rules that ask for it first: all that it may still call for where it
stands. -/
def reserve : Spot → Nat
  | .plain => (body .plain).size
  | .full => (body .full).size + (body .plain).size

/-- How far a rule can go on calling at its own place. -/
def height (p : Scheme α) : Nat :=
  p.size + if p.asksFirst .full then reserve .full
    else if p.asksFirst .plain then reserve .plain else 0

theorem height_lt {p : Scheme α} {q : Scheme β} (smaller : p.size < q.size)
    (fewer : ∀ spot, p.asksFirst spot = true → q.asksFirst spot = true) : p.height < q.height := by
  have order : reserve .plain ≤ reserve .full := Nat.le_add_left ..
  unfold height
  by_cases full : p.asksFirst .full = true
  · rw [if_pos full, if_pos (fewer .full full)]
    exact Nat.add_lt_add_right smaller _
  rw [if_neg full]
  by_cases plain : p.asksFirst .plain = true
  · rw [if_pos plain, if_pos (fewer .plain plain)]
    split <;> omega
  · rw [if_neg plain]
    exact Nat.lt_of_lt_of_le smaller (Nat.le_add_right ..)

/-- A type stands above all that may stand for it. -/
theorem height_body_lt (spot : Spot) : (body spot).height < (Scheme.nested spot).height := by
  cases spot with
  | plain =>
    have height : (body .plain).height = reserve .plain + 0 := rfl
    have above : (Scheme.nested .plain).height = 1 + reserve .plain := rfl
    omega
  | full =>
    have height : (body .full).height = reserve .full := rfl
    have above : (Scheme.nested .full).height = 1 + reserve .full := rfl
    omega

end Scheme

def Call.Below (x y : Call) : Prop :=
  x.place.rest.length < y.place.rest.length ∨
    x.place.rest.length = y.place.rest.length ∧ x.scheme.height < y.scheme.height

theorem Call.Below.trans {x y z : Call} (h : x.Below y) (h' : y.Below z) : x.Below z := by
  unfold Call.Below at *
  omega

theorem Call.wellFounded_below : WellFounded Call.Below := by
  have lex := InvImage.wf (fun x : Call => (x.place.rest.length, x.scheme.height))
    (WellFounded.prod_lex Nat.lt_wfRel.wf Nat.lt_wfRel.wf)
  refine Subrelation.wf (fun {x y} below => ?_) lex
  rw [InvImage, Prod.lex_def]
  exact below

namespace Calls

variable {x y : Call}

theorem steady (h : Calls x y) (ok : x.scheme.steady = true) : y.scheme.steady = true := by
  cases h with
  | nested spot c => exact steady_body spot
  | map f p c | optional p c | padded p c | again read => exact ok
  | first p q c | choice p q c => exact ((Bool.and_eq_true_iff).1 ok).1
  | second q read | other q failed => exact ((Bool.and_eq_true_iff).1 ok).2
  | round p c => exact ((Bool.and_eq_true_iff).1 ok).2
  | item lists c =>
    cases lists <;> exact ((Bool.and_eq_true_iff).1 ((Bool.and_eq_true_iff).1 ok).1).2
  | rounds lists read =>
    cases lists <;> simp_all [Scheme.steady, Scheme.rounds, Scheme.eats]
  | closing lists series some =>
    cases lists <;> exact ((Bool.and_eq_true_iff).1 ok).2

/-- One call: what it reads first leaves less of the text, and a part is lower than the whole. -/
theorem below (h : Calls x y) (ok : x.scheme.steady = true) : y.Below x := by
  have forward {γ : Type} (p : Scheme γ) : Forward (p.rule typeRule) :=
    forward_rule (fun _ => inferInstance) p
  have eats {γ : Type} (p : Scheme γ) (h : p.eats = true) : Eats (p.rule typeRule) :=
    eats_rule (fun _ => inferInstance) eats_typeRule p h
  have part {α β : Type} {p : Scheme α} {q : Scheme β} {c c₁ : Cursor}
      (near : c₁.rest.length ≤ c.rest.length) (smaller : p.size < q.size)
      (fewer : ∀ spot, p.asksFirst spot = true → q.asksFirst spot = true) :
      Call.Below ⟨p, c₁⟩ ⟨q, c⟩ :=
    (Nat.lt_or_eq_of_le near).imp_right fun same => ⟨same, height_lt smaller fewer⟩
  cases h with
  | nested spot c => exact .inr ⟨rfl, height_body_lt spot⟩
  | map f p c | optional p c | round p c =>
    exact part (Nat.le_refl _) (Nat.lt_succ_self _) fun _ asks => asks
  | padded p c =>
    exact part (c.reads_skipWhile _).onto.length_le (Nat.lt_succ_self _) fun _ asks => asks
  | first p q c | choice p q c =>
    refine part (Nat.le_refl _) (by simp only [size]; omega) fun _ asks => ?_
    simp [asksFirst, asks]
  | other q failed =>
    refine part (Nat.le_refl _) (by simp only [size]; omega) fun _ asks => ?_
    simp [asksFirst, asks]
  | @second _ _ p q c c₁ a read =>
    cases kind : p.eats with
    | true => exact .inl (eats p kind read)
    | false =>
      have := forward p
      refine part (Forward.length_le read) (by simp only [size]; omega) fun _ asks => ?_
      simp [asksFirst, asks, kind]
  | @again _ p c c₁ a read =>
    exact .inl (eats p ((Bool.and_eq_true_iff).1 ok).1 read)
  | item lists c =>
    cases lists <;>
    · refine part (Nat.le_refl _) (by simp only [size]; omega) fun _ asks => ?_
      simp [asksFirst, asks]
  | @rounds _ _ item separator p closed lists c c₁ a read =>
    exact .inl (eats item (lists.eats_item ok) read)
  | @closing _ _ item separator p lists c s series some =>
    have := forward item
    have := forward separator
    subst series
    exact .inl ((eats item (lists.eats_item ok)).series some)

theorem onto (h : Calls x y) : x.place.Onto y.place := by
  have forward {γ : Type} (p : Scheme γ) : Forward (p.rule typeRule) :=
    forward_rule (fun _ => inferInstance) p
  cases h with
  | nested spot c => exact .refl c
  | map f p c | optional p c | round p c | first p q c | choice p q c => exact .refl c
  | other q failed => exact .refl _
  | padded p c => exact (c.reads_skipWhile _).onto
  | @second _ _ p q c c₁ a read | @again _ p c c₁ a read =>
    have := forward p
    exact Forward.onto read
  | item lists c => exact .refl c
  | @rounds _ _ item separator p closed lists c c₁ a read =>
    have := forward item
    exact Forward.onto read
  | @closing _ _ item separator p lists c s series some =>
    have := forward item
    have := forward separator
    exact series ▸ (Forward.series c).onto

theorem steady_all (h : ReflTransGen Calls x y) (ok : x.scheme.steady = true) :
    y.scheme.steady = true := by
  induction h with
  | refl => exact ok
  | tail _ last ih => exact last.steady ih

theorem onto_all (h : TransGen Calls x y) : x.place.Onto y.place := by
  induction h with
  | single call => exact call.onto
  | tail _ last ih => exact ih.trans last.onto

theorem below_all (h : TransGen Calls x y) (ok : x.scheme.steady = true) : y.Below x := by
  induction h with
  | single call => exact call.below ok
  | tail calls last ih => exact (last.below (steady_all calls.to_reflTransGen ok)).trans ih

theorem again_shorter {α : Type} {p : Scheme α} {c c₁ : Cursor}
    (h : TransGen Calls ⟨p, c⟩ ⟨p, c₁⟩) (ok : p.steady = true) :
    c₁.rest.length < c.rest.length :=
  (below_all h ok).resolve_right fun ⟨_, lower⟩ => Nat.lt_irrefl _ lower

theorem acc (ok : x.scheme.steady = true) : Acc (fun y x => Calls x y) x := by
  induction x using Call.wellFounded_below.induction with
  | _ x ih => exact ⟨x, fun y call => ih y (call.below ok) (call.steady ok)⟩

/-- Down a chain of calls each call is below every one before it. -/
theorem pairwise_below {x : Call} {chain : List Call} (ok : x.scheme.steady = true)
    (calls : List.IsChain Calls (x :: chain)) :
    (x :: chain).Pairwise fun y z => z.Below y := by
  have : IsTrans Call fun y z => z.Below y := ⟨fun _ _ _ upper lower => lower.trans upper⟩
  refine List.IsChain.pairwise ?_
  induction chain generalizing x with
  | nil => exact .singleton x
  | cons y chain ih =>
    obtain ⟨call, rest⟩ := List.isChain_cons_cons.1 calls
    exact List.isChain_cons_cons.2 ⟨call.below ok, ih (call.steady ok) rest⟩

end Calls

theorem length_le_of_pairwise {places : List Cursor} {n : Nat}
    (forward : places.Pairwise fun c c₁ => c₁.rest.length < c.rest.length)
    (within : ∀ c ∈ places, c.rest.length < n) : places.length ≤ n := by
  induction places generalizing n with
  | nil => exact Nat.zero_le n
  | cons c places ih =>
    obtain ⟨behind, forward⟩ := List.pairwise_cons.1 forward
    exact Nat.succ_le_of_lt
      (Nat.lt_of_le_of_lt (ih forward behind) (within c List.mem_cons_self))

/-- In a chain of calls a rule occurs as often as the text has characters at most, and once more. -/
theorem Calls.length_entries_le {α : Type} {start : Call} {chain : List Call} {p : Scheme α}
    (ok : start.scheme.steady = true) (calls : List.IsChain Calls (start :: chain))
    {entries : List Cursor}
    (among : (entries.map (Call.mk p)).Sublist (start :: chain)) :
    entries.length ≤ start.place.rest.length + 1 := by
  have below := (Calls.pairwise_below ok calls)
  refine length_le_of_pairwise ?_ fun c mem => Nat.lt_succ_of_le ?_
  · refine (List.pairwise_map.1 (below.sublist among)).imp fun {c c₁} lower => ?_
    exact lower.resolve_right fun ⟨_, lower⟩ => Nat.lt_irrefl _ lower
  · have mem : Call.mk p c ∈ start :: chain := among.subset (List.mem_map_of_mem mem)
    rcases List.mem_cons.1 mem with same | behind
    · exact same ▸ Nat.le_refl _
    · exact ((List.pairwise_cons.1 below).1 _ behind).elim Nat.le_of_lt fun ⟨same, _⟩ =>
        Nat.le_of_eq same

/- A repetition whose rounds all read something never uses up its bound. -/

section Rounds

open Rule

variable {α β : Type} {p : Rule α} {q : Rule β} {c : Cursor} {n m : Nat}

theorem manyUpTo_eq_manyUpTo (eats : Eats p) (hn : c.rest.length < n) (hm : c.rest.length < m)
    (hint : Option Failure) : manyUpTo p n c hint = manyUpTo p m c hint := by
  induction n generalizing m c hint with
  | zero => exact absurd hn (Nat.not_lt_zero _)
  | succ n ih =>
    obtain ⟨m, rfl⟩ : ∃ k, m = k + 1 := ⟨m - 1, by omega⟩
    rw [manyUpTo, manyUpTo]
    cases first : p c with
    | fail e => rfl
    | ok a c₁ hint₁ =>
      have less := eats (congrArg Outcome.result? first)
      simp only [ih (c := c₁) (m := m) (by omega) (by omega)]

theorem pairsUpTo_eq_pairsUpTo [Forward q] (eats : Eats p) (hn : c.rest.length < n)
    (hm : c.rest.length < m) (hint : Option Failure) :
    pairsUpTo p q n c hint = pairsUpTo p q m c hint := by
  induction n generalizing m c hint with
  | zero => exact absurd hn (Nat.not_lt_zero _)
  | succ n ih =>
    obtain ⟨m, rfl⟩ : ∃ k, m = k + 1 := ⟨m - 1, by omega⟩
    rw [pairsUpTo, pairsUpTo]
    cases first : q c with
    | fail e => rfl
    | ok b c₁ hint₁ =>
      have behind := Forward.length_le (p := q) (congrArg Outcome.result? first)
      dsimp only
      cases second : p c₁ with
      | fail e => rfl
      | ok a c₂ hint₂ =>
        have less := eats (congrArg Outcome.result? second)
        simp only [ih (c := c₂) (m := m) (by omega) (by omega)]

end Rounds

end ImplFamilies.Grammar
