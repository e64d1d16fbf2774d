import ImplFamilies.Proofs.Canonical.Declared
import ImplFamilies.Proofs.Order.Preorder
import ImplFamilies.Proofs.Renaming.CanonicalNames
import ImplFamilies.Proofs.Sequence.Representatives

/-!
What a where clause makes of the declared parameters. Its items are added one after the other, and
the bounds of a parameter are put in order each time; that comes to the same as adding all the
bounds at once, parameter by parameter. So the clause counts as a set of bounds, each on a
parameter, and how its items are arranged does not matter.
-/

namespace ImplFamilies

open Sequence

/-- A bound, and the kind and the name of the parameter that it is on. -/
inductive Constraint
  | lifetime (name bound : String)
  | type (name : String) (bound : Bound)
deriving DecidableEq

namespace Constraint

def label : Constraint → String × Bool
  | .lifetime name _ => (name, true)
  | .type name _ => (name, false)

def lifetimesOn (name : String) (cs : List Constraint) : List String :=
  cs.filterMap fun
    | .lifetime n bound => if n = name then some bound else none
    | .type _ _ => none

def boundsOn (name : String) (cs : List Constraint) : List Bound :=
  cs.filterMap fun
    | .lifetime _ _ => none
    | .type n bound => if n = name then some bound else none

variable {name : String} {cs : List Constraint}

theorem mem_lifetimesOn {bound : String} :
    bound ∈ lifetimesOn name cs ↔ .lifetime name bound ∈ cs := by
  rw [lifetimesOn, List.mem_filterMap]
  constructor
  · rintro ⟨_ | _, mem, found⟩
    · obtain ⟨rfl, rfl⟩ : _ = name ∧ _ = bound := by simpa using found
      exact mem
    · cases found
  · exact fun mem => ⟨_, mem, if_pos rfl⟩

theorem mem_boundsOn {bound : Bound} : bound ∈ boundsOn name cs ↔ .type name bound ∈ cs := by
  rw [boundsOn, List.mem_filterMap]
  constructor
  · rintro ⟨_ | _, mem, found⟩
    · cases found
    · obtain ⟨rfl, rfl⟩ : _ = name ∧ _ = bound := by simpa using found
      exact mem
  · exact fun mem => ⟨_, mem, if_pos rfl⟩

theorem lifetimesOn_append (cs ds : List Constraint) :
    lifetimesOn name (cs ++ ds) = lifetimesOn name cs ++ lifetimesOn name ds :=
  List.filterMap_append

theorem boundsOn_append (cs ds : List Constraint) :
    boundsOn name (cs ++ ds) = boundsOn name cs ++ boundsOn name ds :=
  List.filterMap_append

def Silent (name : String) (cs : List Constraint) : Prop :=
  ∀ c ∈ cs, c.label.1 ≠ name

theorem Silent.lifetimesOn (h : Silent name cs) : lifetimesOn name cs = [] :=
  List.eq_nil_iff_forall_not_mem.2 fun _ mem => h _ (mem_lifetimesOn.1 mem) rfl

theorem Silent.boundsOn (h : Silent name cs) : boundsOn name cs = [] :=
  List.eq_nil_iff_forall_not_mem.2 fun _ mem => h _ (mem_boundsOn.1 mem) rfl

end Constraint

namespace Param

open Constraint

def default? : Param → Option Ty
  | .lifetime _ _ => none
  | .type _ _ default => default

def constraints : Param → List Constraint
  | .lifetime name bounds => bounds.map (.lifetime name)
  | .type name bounds _ => bounds.map (.type name)

variable {p q item : Param} {qs rs items others : List Param} {cs ds : List Constraint}
  {c : Constraint}

theorem label_of_mem_constraints (h : c ∈ item.constraints) : c.label = item.label := by
  cases item <;> obtain ⟨_, _, rfl⟩ := List.mem_map.1 h <;> rfl

theorem silent_of_unnamed {name : String} (unnamed : name ∉ items.map Param.name) :
    Silent name (items.flatMap constraints) := by
  intro c mem same
  obtain ⟨item, listed, said⟩ := List.mem_flatMap.1 mem
  rw [label_of_mem_constraints said] at same
  exact unnamed (List.mem_map.2 ⟨item, listed, same⟩)

theorem lifetimesOn_constraints (name : String) (bounds : List String) :
    lifetimesOn name (lifetime name bounds).constraints = bounds := by
  simp [lifetimesOn, constraints]

theorem boundsOn_constraints (name : String) (bounds : List Bound) (default : Option Ty) :
    boundsOn name (type name bounds default).constraints = bounds := by
  simp [boundsOn, constraints]

/- All items at once. -/

def merge (cs : List Constraint) : Param → Param
  | .lifetime name bounds => .lifetime name (sortedSet compare (bounds ++ lifetimesOn name cs))
  | .type name bounds default =>
      .type name (sortedSet Bound.order (bounds ++ boundsOn name cs)) default

def merged (items : List Param) (p : Param) : Param :=
  if p.name ∈ items.map name then p.merge (items.flatMap constraints) else p

theorem merged_singleton (item q : Param) :
    merged [item] q = if q.name = item.name then q.merge item.constraints else q := by
  simp [merged]

theorem label_merge (cs : List Constraint) (p : Param) : (p.merge cs).label = p.label := by
  cases p <;> rfl

theorem label_merged (items : List Param) (p : Param) : (merged items p).label = p.label := by
  unfold merged
  split
  · exact label_merge _ p
  · rfl

theorem merge_merge (cs ds : List Constraint) (p : Param) :
    (p.merge cs).merge ds = p.merge (cs ++ ds) := by
  cases p <;>
    simp only [merge, sortedSet_sortedSet_append, lifetimesOn_append, boundsOn_append,
      List.append_assoc]

theorem merge_append_silent (h : Silent p.name ds) : p.merge (cs ++ ds) = p.merge cs := by
  cases p with
  | lifetime name bounds =>
    have none : lifetimesOn name ds = [] := h.lifetimesOn
    rw [merge, lifetimesOn_append, none, List.append_nil, merge]
  | type name bounds default =>
    have none : boundsOn name ds = [] := h.boundsOn
    rw [merge, boundsOn_append, none, List.append_nil, merge]

theorem merge_silent_append (h : Silent p.name cs) : p.merge (cs ++ ds) = p.merge ds := by
  cases p with
  | lifetime name bounds =>
    have none : lifetimesOn name cs = [] := h.lifetimesOn
    rw [merge, lifetimesOn_append, none, List.nil_append, merge]
  | type name bounds default =>
    have none : boundsOn name cs = [] := h.boundsOn
    rw [merge, boundsOn_append, none, List.nil_append, merge]

theorem constrain_eq_merge (h : q.label = item.label) :
    constrain q item = .ok (q.merge item.constraints) := by
  cases q <;> cases item <;> cases h
  · rw [constrain, merge, lifetimesOn_constraints]
  · rw [constrain, merge, boundsOn_constraints]

theorem constrainIn_eq_map (distinct : (qs.map name).Nodup) (found : item.label ∈ qs.map label) :
    constrainIn item qs = .ok (qs.map (merged [item])) := by
  induction qs with
  | nil => cases found
  | cons q qs ih =>
    obtain ⟨new, distinct⟩ := List.nodup_cons.1 distinct
    rw [constrainIn, List.map_cons, merged_singleton]
    by_cases named : q.name = item.name
    · have others : qs.map (merged [item]) = qs := by
        refine (List.map_congr_left fun r mem => ?_).trans (List.map_id qs)
        refine (merged_singleton item r).trans (if_neg fun same => ?_)
        exact new (List.mem_map.2 ⟨r, mem, same.trans named.symm⟩)
      have same : q.label = item.label := by
        rcases List.mem_cons.1 found with same | later
        · exact same.symm
        · obtain ⟨r, mem, same⟩ := List.mem_map.1 later
          exact absurd (List.mem_map.2 ⟨r, mem, (Prod.mk.inj same).1.trans named.symm⟩) new
      rw [if_pos named, if_pos named, constrain_eq_merge same, others]
      rfl
    · have later : item.label ∈ qs.map label := by
        refine (List.mem_cons.1 found).resolve_left fun same => ?_
        exact named (Prod.mk.inj same).1.symm
      rw [if_neg named, if_neg named, ih distinct later]
      rfl

theorem merged_merged (item : Param) (items : List Param) (q : Param) :
    merged items (merged [item] q) = merged (item :: items) q := by
  have name_merge : (q.merge item.constraints).name = q.name :=
    congrArg Prod.fst (label_merge item.constraints q)
  rw [merged_singleton]
  unfold merged
  simp only [List.map_cons, List.mem_cons, List.flatMap_cons]
  by_cases first : q.name = item.name <;> by_cases later : q.name ∈ items.map name
  · rw [if_pos first, name_merge, if_pos later, if_pos (.inl first), merge_merge]
  · rw [if_pos first, name_merge, if_neg later, if_pos (.inl first),
      merge_append_silent (silent_of_unnamed later)]
  · have silent : Silent q.name item.constraints := fun c mem same =>
      first (same.symm.trans (congrArg Prod.fst (label_of_mem_constraints mem)))
    rw [if_neg first, if_pos later, if_pos (.inr later), merge_silent_append silent]
  · rw [if_neg first, if_neg later, if_neg (by simp [first, later])]

/-- A where clause whose items fit parameters of different names adds all its bounds to them. -/
theorem constrainAll_eq_map (distinct : (qs.map name).Nodup)
    (fits : ∀ item ∈ items, item.label ∈ qs.map label) :
    constrainAll qs items = .ok (qs.map (merged items)) := by
  induction items generalizing qs with
  | nil =>
    have same : qs.map (merged []) = qs :=
      (List.map_congr_left fun _ _ => if_neg List.not_mem_nil).trans (List.map_id qs)
    rw [constrainAll, same]
  | cons item items ih =>
    obtain ⟨first, rest⟩ := List.forall_mem_cons.1 fits
    have kept : (qs.map (merged [item])).map label = qs.map label := by
      rw [List.map_map]
      exact List.map_congr_left fun q _ => label_merged [item] q
    rw [constrainAll, constrainIn_eq_map distinct first]
    dsimp only
    rw [ih (by rwa [names_of_labels kept]) (by rwa [kept]), List.map_map]
    exact congrArg _ (List.map_congr_left fun q _ => merged_merged item items q)

/- Parameters that differ in the choice of bounds that are equal in the order. -/

/-- The same parameter, with the same lifetimes for bounds or with bounds that are equal in the
order one by one. -/
inductive Alike : Param → Param → Prop
  | lifetime (name : String) (bounds : List String) :
      Alike (.lifetime name bounds) (.lifetime name bounds)
  | type {bounds bounds' : List Bound} (name : String) (default : Option Ty)
      (each : EqualEach Bound.order bounds bounds') :
      Alike (.type name bounds default) (.type name bounds' default)

theorem Alike.refl : (p : Param) → Alike p p
  | .lifetime name bounds => .lifetime name bounds
  | .type name bounds default => .type name default (equalEach_refl bounds)

theorem eq_of_equalEach {xs ys : List String} (h : EqualEach compare xs ys) : xs = ys := by
  induction h with
  | nil => rfl
  | cons equal _ ih => rw [Std.compare_eq_iff_eq.1 equal, ih]

theorem alike_merge (label : p.label = q.label) (given : p.default? = q.default?)
    (same : ∀ c : Constraint, c.label = p.label →
      (c ∈ p.constraints ++ cs ↔ c ∈ q.constraints ++ ds)) :
    Alike (p.merge cs) (q.merge ds) := by
  cases p with
  | lifetime name bounds =>
    cases q <;> cases label
    rename_i bounds'
    have members : ∀ l, l ∈ bounds ++ lifetimesOn name cs ↔ l ∈ bounds' ++ lifetimesOn name ds := by
      intro l
      simpa [constraints, mem_lifetimesOn] using same (.lifetime name l) rfl
    have equal : sortedSet compare (bounds ++ lifetimesOn name cs) =
        sortedSet compare (bounds' ++ lifetimesOn name ds) :=
      eq_of_equalEach (equalEach_sortedSet members)
    rw [merge, merge, equal]
    exact .lifetime name _
  | type name bounds default =>
    cases q <;> cases label
    cases given
    rename_i bounds'
    have members : ∀ b, b ∈ bounds ++ boundsOn name cs ↔ b ∈ bounds' ++ boundsOn name ds := by
      intro b
      simpa [constraints, mem_boundsOn] using same (.type name b) rfl
    exact .type name default (equalEach_sortedSet members)

/- Declared parameters and the parameters of a form. -/

/-- What a where clause makes of a declared parameter: if an item names it, a list that stands for
its own bounds and those of the items, in this order. -/
inductive Merged (items : List Param) : Param → Param → Prop
  | untouched {p : Param} (unnamed : p.name ∉ items.map name) : Merged items p p
  | lifetime {name : String} {bounds all : List String} (named : name ∈ items.map Param.name)
      (stands : Represents compare (bounds ++ lifetimesOn name (items.flatMap constraints)) all) :
      Merged items (.lifetime name bounds) (.lifetime name all)
  | type {name : String} {bounds all : List Bound} {default : Option Ty}
      (named : name ∈ items.map Param.name)
      (stands : Represents Bound.order (bounds ++ boundsOn name (items.flatMap constraints)) all) :
      Merged items (.type name bounds default) (.type name all default)

theorem merged_of_merge (items : List Param) (p : Param) : Merged items p (merged items p) := by
  unfold merged
  split
  · rename_i named
    cases p with
    | lifetime name bounds => exact .lifetime named (represents_sortedSet _)
    | type name bounds default => exact .type named (represents_sortedSet _)
  · exact .untouched ‹_›

theorem labels_subset (saying : ∀ item ∈ items, item.constraints ≠ [])
    (within : ∀ c ∈ items.flatMap constraints, c ∈ others.flatMap constraints) :
    ∀ item ∈ items, item.label ∈ others.map label := by
  intro item mem
  obtain ⟨c, said⟩ := List.exists_mem_of_ne_nil _ (saying item mem)
  have found := within c (List.mem_flatMap.2 ⟨item, mem, said⟩)
  obtain ⟨other, listed, said'⟩ := List.mem_flatMap.1 found
  rw [← label_of_mem_constraints said, label_of_mem_constraints said']
  exact List.mem_map_of_mem listed

theorem names_subset (within : ∀ item ∈ items, item.label ∈ others.map label) {name : String}
    (h : name ∈ items.map Param.name) : name ∈ others.map Param.name := by
  obtain ⟨item, mem, rfl⟩ := List.mem_map.1 h
  obtain ⟨other, listed, same⟩ := List.mem_map.1 (within item mem)
  exact List.mem_map.2 ⟨other, listed, (Prod.mk.inj same).1⟩

/-- Items that say the same make the same of a parameter, up to bounds that are equal in the
order. -/
theorem alike_merged (said : ∀ item ∈ items, item.constraints ≠ [])
    (said' : ∀ item ∈ others, item.constraints ≠ [])
    (same : ∀ c, c ∈ items.flatMap constraints ↔ c ∈ others.flatMap constraints) (p : Param) :
    Alike (merged items p) (merged others p) := by
  have named : p.name ∈ items.map name ↔ p.name ∈ others.map name :=
    ⟨names_subset (labels_subset said fun c => (same c).1),
      names_subset (labels_subset said' fun c => (same c).2)⟩
  unfold merged
  by_cases h : p.name ∈ items.map name
  · rw [if_pos h, if_pos (named.1 h)]
    exact alike_merge rfl rfl fun c _ => by rw [List.mem_append, List.mem_append, same c]
  · rw [if_neg h, if_neg (mt named.2 h)]
    exact .refl p

end Param

namespace CanonicalForm

open Param

variable {s : Signature} {f g : CanonicalForm}

theorem canonicalRenaming_congr {ps qs : List Param} (same : typeNames ps = typeNames qs) :
    canonicalRenaming ps = canonicalRenaming qs := by
  funext name
  rw [canonicalRenaming, canonicalRenaming, same]

/-- A signature whose items fit has the declared parameters with all the bounds. -/
theorem ofSignature_eq_ok_iff :
    ofSignature s = .ok f ↔
      (∀ item ∈ s.whereClause.getD [], item.label ∈ (declareAll s.generics).map label) ∧
      f = {
        params := (declareAll s.generics).map (merged (s.whereClause.getD []))
        negated := s.negated
        traitRef := s.traitRef.map (TypePath.rename (canonicalRenaming (declareAll s.generics)))
        selfTy := s.selfTy.rename (canonicalRenaming (declareAll s.generics)) } := by
  have distinct := nodup_names_declareAll s.generics
  have names {items : List Param} : canonicalRenaming ((declareAll s.generics).map (merged items)) =
      canonicalRenaming (declareAll s.generics) := by
    refine canonicalRenaming_congr ?_
    rw [typeNames_eq_labels, typeNames_eq_labels, List.map_map]
    simp only [Function.comp_def, label_merged]
  rw [ofSignature_eq_ok]
  constructor
  · rintro ⟨params, fits, rfl⟩
    have found := (labels_constrainAll fits).2
    obtain rfl := Except.ok.inj ((constrainAll_eq_map distinct found).symm.trans fits)
    exact ⟨found, by rw [names]⟩
  · rintro ⟨found, rfl⟩
    exact ⟨_, constrainAll_eq_map distinct found, by rw [names]⟩

theorem exists_ofSignature_iff :
    (∃ f, ofSignature s = .ok f) ↔
      ∀ item ∈ s.whereClause.getD [], item.label ∈ (declareAll s.generics).map label := by
  simp only [ofSignature_eq_ok_iff, exists_and_left, exists_eq, and_true]

/-- Where clauses of the same bounds, whatever the order, the grouping and the repetition of their
items, fit the same signatures and give the same form up to bounds that are equal in the order. Of
the bounds on a parameter that an item names, the form holds one of each class, the first to be
written, in strictly increasing order. -/
theorem where_clause_counts_as_set :
    (∀ (s : Signature) (w w' : Option (List Param)),
      (∀ item ∈ w.getD [] ++ w'.getD [], item.constraints ≠ []) →
      (∀ c, c ∈ (w.getD []).flatMap constraints ↔ c ∈ (w'.getD []).flatMap constraints) →
      ((∃ f, ofSignature { s with whereClause := w } = .ok f) ↔
        ∃ g, ofSignature { s with whereClause := w' } = .ok g) ∧
      ∀ f g, ofSignature { s with whereClause := w } = .ok f →
        ofSignature { s with whereClause := w' } = .ok g →
        f.negated = g.negated ∧ f.traitRef = g.traitRef ∧ f.selfTy = g.selfTy ∧
          List.Forall₂ Alike f.params g.params) ∧
    ∀ s f, ofSignature s = .ok f →
      List.Forall₂ (Merged (s.whereClause.getD [])) (declareAll s.generics) f.params := by
  constructor
  · intro s w w' said same
    obtain ⟨first, second⟩ := List.forall_mem_append.1 said
    constructor
    · rw [exists_ofSignature_iff, exists_ofSignature_iff]
      have subset {v v' : List Param} (within : ∀ item ∈ v, item.label ∈ v'.map label)
          (fits : ∀ item ∈ v', item.label ∈ (declareAll s.generics).map label) :
          ∀ item ∈ v, item.label ∈ (declareAll s.generics).map label := by
        intro item mem
        obtain ⟨other, listed, equal⟩ := List.mem_map.1 (within item mem)
        exact equal ▸ fits other listed
      exact ⟨subset (labels_subset second fun c => (same c).2),
        subset (labels_subset first fun c => (same c).1)⟩
    · intro f g formed formed'
      obtain ⟨_, rfl⟩ := ofSignature_eq_ok_iff.1 formed
      obtain ⟨_, rfl⟩ := ofSignature_eq_ok_iff.1 formed'
      refine ⟨rfl, rfl, rfl, ?_⟩
      rw [List.forall₂_map_left_iff, List.forall₂_map_right_iff]
      exact List.forall₂_same.2 fun p _ => alike_merged first second same p
  · intro s f formed
    obtain ⟨_, rfl⟩ := ofSignature_eq_ok_iff.1 formed
    rw [List.forall₂_map_right_iff]
    exact List.forall₂_same.2 fun p _ => merged_of_merge _ p

/-- Two items of one bound each, or one item with both the other way round. Lifetimes among the
arguments are not read, so the bounds are equal in the order and the first to be written stays. -/
theorem first_written_bound_stays :
    let borrowed (l : String) : Bound := .trait (.mk false (.plain "A" (some [.lifetime l])))
    let required : Bound := .trait (.mk false (.plain "B" none))
    let header (w : Option (List Param)) : Signature :=
      { generics := [.lifetime "'x" [], .type "T" [required] none]
        isUnsafe := false
        negated := false
        traitRef := some (.plain "C" none)
        selfTy := .path (.plain "T" none)
        whereClause := w }
    let apart := some [.type "T" [borrowed "'x"] none, .type "T" [borrowed "'y"] none]
    let together := some [.type "T" [borrowed "'y", borrowed "'x"] none]
    ∃ f g, ofSignature (header apart) = .ok f ∧ ofSignature (header together) = .ok g ∧
      f.params = [.lifetime "'x" [], .type "T" [borrowed "'x", required] none] ∧
      g.params = [.lifetime "'x" [], .type "T" [borrowed "'y", required] none] ∧
      List.Forall₂ Alike f.params g.params ∧
      List.Forall₂ (Merged (together.getD [])) (header together).generics g.params := by
  intro borrowed required header apart together
  obtain ⟨clauses, forms⟩ := where_clause_counts_as_set
  let form (l : String) : CanonicalForm :=
    { params := [.lifetime "'x" [], .type "T" [borrowed l, required] none]
      negated := false
      traitRef := some (.plain "C" none)
      selfTy := .path (.plain "T0" none) }
  have first : ofSignature (header apart) = .ok (form "'x") := by cbv
  have second : ofSignature (header together) = .ok (form "'y") := by cbv
  have said : ∀ item ∈ apart.getD [] ++ together.getD [], item.constraints ≠ [] := by
    simp [apart, together, constraints]
  have same : ∀ c, c ∈ (apart.getD []).flatMap constraints ↔
      c ∈ (together.getD []).flatMap constraints := by
    intro c
    simp [apart, together, constraints, or_comm]
  have alike := ((clauses (header none) apart together said same).2 _ _ first second).2.2.2
  exact ⟨form "'x", form "'y", first, second, rfl, rfl, alike, forms _ _ second⟩

end CanonicalForm

end ImplFamilies
