import ImplFamilies.Proofs.Grammar.Nesting

/-!
That reading a text comes to an end, said of all the calls that follow from a first one: no chain of
them is endless, they are all that the reading rests on, and types are nested in them at most as
deep as the text is long.
-/

namespace ImplFamilies.Grammar

open Scheme Relation

variable {α β : Type} {nested : Spot → Rule Ty} {x y : Call} {c : Cursor}

/-- A way of reading types that agrees with theirs wherever a type is called for from here on. -/
def AgreeFrom (nested : Spot → Rule Ty) (x : Call) : Prop :=
  ∀ (spot : Spot) (c : Cursor), ReflTransGen Calls x ⟨.nested spot, c⟩ →
    nested spot c = typeRule spot c

theorem AgreeFrom.step (h : AgreeFrom nested x) (call : Calls x y) : AgreeFrom nested y :=
  fun spot c calls => h spot c (.head call calls)

def RestsOnCalls (nested : Spot → Rule Ty) (p : Scheme α) : Prop :=
  ∀ c : Cursor, AgreeFrom nested ⟨p, c⟩ → p.rule nested c = p.rule typeRule c

namespace RestsOnCalls

open Rule

theorem manyUpTo {p : Scheme α} (rests : RestsOnCalls nested p) (k : Nat)
    (h : AgreeFrom nested ⟨p.many, c⟩) (hint : Option Failure) :
    manyUpTo (p.rule nested) k c hint = manyUpTo (p.rule typeRule) k c hint := by
  induction k generalizing c hint with
  | zero => rfl
  | succ k ih =>
    rw [Rule.manyUpTo, Rule.manyUpTo, rests c (h.step (.round p c))]
    cases first : p.rule typeRule c with
    | fail e => rfl
    | ok a c₁ hint₁ =>
      have behind := h.step (.again (congrArg Outcome.result? first))
      simp only [ih behind]

variable {item : Scheme α} {separator : Scheme β} {p : Scheme (List α)} {closed : Bool}

theorem pairsUpTo (items : RestsOnCalls nested item) (separators : RestsOnCalls nested separator)
    (k : Nat) (h : AgreeFrom nested ⟨item.rounds separator, c⟩) (hint : Option Failure) :
    pairsUpTo (item.rule nested) (separator.rule nested) k c hint =
      pairsUpTo (item.rule typeRule) (separator.rule typeRule) k c hint := by
  induction k generalizing c hint with
  | zero => rfl
  | succ k ih =>
    have round : AgreeFrom nested ⟨separator.andThen item, c⟩ := h.step (.round _ c)
    rw [Rule.pairsUpTo, Rule.pairsUpTo, separators c (round.step (.first separator item c))]
    cases first : separator.rule typeRule c with
    | fail e => rfl
    | ok b c₁ hint₁ =>
      dsimp only
      rw [items c₁ (round.step (.second item (congrArg Outcome.result? first)))]
      cases second : item.rule typeRule c₁ with
      | fail e => rfl
      | ok a c₂ hint₂ =>
        have read : ((separator.andThen item).rule typeRule c).result? = some ((b, a), c₂) := by
          simp only [Scheme.rule, Rule.andThen, first, second, Outcome.result?]
        have behind := h.step (.again read)
        simp only [ih behind]

theorem series (items : RestsOnCalls nested item) (separators : RestsOnCalls nested separator)
    (lists : Lists item separator p closed) (h : AgreeFrom nested ⟨p, c⟩) :
    series (item.rule nested) (separator.rule nested) c =
      series (item.rule typeRule) (separator.rule typeRule) c := by
  rw [Rule.series, Rule.series, items c (h.step (.item lists c))]
  cases first : item.rule typeRule c with
  | fail e => rfl
  | ok a c₁ hint =>
    have behind := h.step (.rounds lists (congrArg Outcome.result? first))
    simp only [pairsUpTo items separators _ behind]

end RestsOnCalls

/-- All that a rule reads rests on its calls. -/
theorem restsOnCalls (nested : Spot → Rule Ty) (p : Scheme α) : RestsOnCalls nested p := by
  induction p with
  | nested spot => exact fun c h => h spot c .refl
  | word p tells eats => exact fun _ _ => rfl
  | glance p tells => exact fun _ _ => rfl
  | map f p ih =>
    intro c h
    rw [rule, rule, Rule.map, Rule.map, ih c (h.step (.map f p c))]
  | andThen p q hp hq =>
    intro c h
    rw [rule, rule, Rule.andThen, Rule.andThen, hp c (h.step (.first p q c))]
    cases first : p.rule typeRule c with
    | fail e => rfl
    | ok a c₁ hint =>
      have behind := hq c₁ (h.step (.second q (congrArg Outcome.result? first)))
      simp only [behind]
  | orElse p q hp hq =>
    intro c h
    rw [rule, rule, Rule.orElse, Rule.orElse, hp c (h.step (.choice p q c))]
    cases first : p.rule typeRule c with
    | ok a c₁ hint => rfl
    | fail e =>
      have other := hq c (h.step (.other q (congrArg Outcome.result? first)))
      simp only [other]
  | optional p ih =>
    intro c h
    rw [rule, rule, Rule.optional, Rule.optional, ih c (h.step (.optional p c))]
  | padded p ih =>
    intro c h
    rw [rule, rule, Rule.padded, Rule.padded, ih _ (h.step (.padded p c))]
  | many p ih =>
    intro c h
    rw [rule, rule, Rule.many, Rule.many, ih.manyUpTo _ h]
  | separated₁ item separator hi hs =>
    intro c h
    rw [rule, rule, Rule.separated₁, Rule.separated₁, hi.series hs .separated₁ h]
  | list item separator hi hs =>
    intro c h
    rw [rule, rule, Rule.list, Rule.list, hi.series hs .list h]
    cases read : Rule.series (item.rule typeRule) (separator.rule typeRule) c with
    | mk items last hint ended =>
      cases items with
      | nil => rfl
      | cons a as =>
        have behind := h.step (.closing .list read (List.cons_ne_nil a as))
        exact closeList_congr (hs last behind) ..
  | list₁ item separator hi hs =>
    intro c h
    rw [rule, rule, Rule.list₁, Rule.list₁, hi.series hs .list₁ h]
    cases read : Rule.series (item.rule typeRule) (separator.rule typeRule) c with
    | mk items last hint ended =>
      cases items with
      | nil => rfl
      | cons a as =>
        have behind := h.step (.closing .list₁ read (List.cons_ne_nil a as))
        exact closeList_congr (hs last behind) ..

/-- A rule that is run on a whole text comes to an end. -/
structure ComesToEnd (p : Scheme α) (source : List Char) : Prop where
  /-- No chain of calls goes on for ever. -/
  finite : Acc (fun y x => Calls x y) ⟨p, .ofText source⟩
  /-- The calls are all that the rule rests on. -/
  complete (nested : Spot → Rule Ty) : AgreeFrom nested ⟨p, .ofText source⟩ →
    p.rule nested (.ofText source) = p.rule typeRule (.ofText source)
  /-- Between a type and one nested in it at the same spot a character is read. -/
  apart (spot : Spot) (c c₁ : Cursor) :
    ReflTransGen Calls ⟨p, .ofText source⟩ ⟨.nested spot, c⟩ →
    TransGen Calls ⟨.nested spot, c⟩ ⟨.nested spot, c₁⟩ → ∃ x read, c.Reads (x :: read) c₁
  /-- No chain of calls enters the types at a spot more often than the text has characters, and
  once more. -/
  depth (spot : Spot) (chain : List Call) (entries : List Cursor) :
    List.IsChain Calls (⟨p, .ofText source⟩ :: chain) →
    (entries.map (Call.mk (.nested spot))).Sublist (⟨p, .ofText source⟩ :: chain) →
    entries.length ≤ source.length + 1
  /-- Every round of a repetition reads a character, so that its bound is never used up. -/
  rounds {α : Type} (q : Scheme α) (c : Cursor) :
    ReflTransGen Calls ⟨p, .ofText source⟩ ⟨q.many, c⟩ → Eats (q.rule typeRule) ∧
      ∀ n hint, c.rest.length < n →
        Rule.manyUpTo (q.rule typeRule) n c hint =
          Rule.manyUpTo (q.rule typeRule) (c.rest.length + 1) c hint
  /-- The same of lists: of their first item, and of a separator with the item behind it. -/
  lists {α β : Type} (item : Scheme α) (separator : Scheme β) (q : Scheme (List α)) (closed : Bool)
    (c : Cursor) : Lists item separator q closed →
    ReflTransGen Calls ⟨p, .ofText source⟩ ⟨q, c⟩ →
      Eats (item.rule typeRule) ∧ Eats ((separator.andThen item).rule typeRule) ∧
      ∀ c₁ n hint, c₁.rest.length < n →
        Rule.pairsUpTo (item.rule typeRule) (separator.rule typeRule) n c₁ hint =
          Rule.pairsUpTo (item.rule typeRule) (separator.rule typeRule) (c₁.rest.length + 1) c₁ hint

theorem Cursor.Onto.reads_cons {c c₁ : Cursor} (onto : c.Onto c₁)
    (less : c₁.rest.length < c.rest.length) : ∃ x read, c.Reads (x :: read) c₁ := by
  obtain ⟨read, reads⟩ := onto
  cases read with
  | nil => exact absurd (congrArg List.length reads.rest) (Nat.ne_of_gt less)
  | cons x read => exact ⟨x, read, reads⟩

theorem comesToEnd_of_steady (p : Scheme α) (ok : p.steady = true) (source : List Char) :
    ComesToEnd p source where
  finite := Calls.acc ok
  complete nested agree := restsOnCalls nested p _ agree
  apart _ _ _ calls again :=
    (Calls.onto_all again).reads_cons (Calls.again_shorter again (Calls.steady_all calls ok))
  depth _ _ _ chain among := Calls.length_entries_le ok chain among
  rounds q c calls := by
    have steady : q.many.steady = true := Calls.steady_all calls ok
    have eats : Eats (q.rule typeRule) :=
      eats_rule (fun _ => inferInstance) eats_typeRule q ((Bool.and_eq_true_iff).1 steady).1
    exact ⟨eats, fun n hint less => manyUpTo_eq_manyUpTo eats less (Nat.lt_succ_self _) hint⟩
  lists item separator q closed c lists calls := by
    have steady : q.steady = true := Calls.steady_all calls ok
    have some : item.eats = true := lists.eats_item steady
    have eats : Eats (item.rule typeRule) :=
      eats_rule (fun _ => inferInstance) eats_typeRule item some
    have : Forward (item.rule typeRule) := forward_rule (fun _ => inferInstance) item
    have : Forward (separator.rule typeRule) := forward_rule (fun _ => inferInstance) separator
    exact ⟨eats, Eats.andThen (.inr eats), fun c₁ n hint less =>
      pairsUpTo_eq_pairsUpTo eats less (Nat.lt_succ_self _) hint⟩

/-- Reading a text comes to an end: the calls of both readers do, the bounds that they go with make
no difference, and without them the types satisfy the equations of the grammar. -/
theorem reading_ends (source : List Char) :
    ComesToEnd Scheme.signature source ∧ ComesToEnd Scheme.loneType source ∧
      readSignature source = Scheme.signature.rule typeRule (.ofText source) ∧
      readType source = Scheme.loneType.rule typeRule (.ofText source) ∧
      ∀ spot, typeRule spot = (body spot).rule typeRule :=
  ⟨comesToEnd_of_steady _ rfl source, comesToEnd_of_steady _ rfl source, readSignature_eq source,
    readType_eq source, typeRule_eq⟩

end ImplFamilies.Grammar
