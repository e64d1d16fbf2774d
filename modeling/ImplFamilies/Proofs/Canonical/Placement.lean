import ImplFamilies.Grammar.SyntaxError
import ImplFamilies.Proofs.Canonical.Merging
import Mathlib.Data.List.Nodup

/-!
Where bounds are written: with the declaration of a parameter, or in an item of the where clause.
Only an item puts the bounds of its parameter in order, so a bound that is moved from the one place
to the other may change the order of a list, and take repetitions out of it. The list stays the same
if an item named the parameter before, and else if the list was in order.
-/

namespace ImplFamilies

open Sequence

namespace Param

open Constraint

variable {p p' : Param} {ps ps' items items' : List Param} {c : Constraint} {l : String × Bool}

/-- The same parameter with part of its bounds. -/
inductive Keeps : Param → Param → Prop
  | lifetime {name : String} {bounds part : List String} (sub : part.Sublist bounds) :
      Keeps (.lifetime name bounds) (.lifetime name part)
  | type {name : String} {bounds part : List Bound} {default : Option Ty}
      (sub : part.Sublist bounds) : Keeps (.type name bounds default) (.type name part default)

def Ordered : Param → Prop
  | .lifetime _ bounds => Ascending compare bounds
  | .type _ bounds _ => Ascending Bound.order bounds

theorem Keeps.label_eq (h : Keeps p p') : p'.label = p.label := by
  cases h <;> rfl

theorem default?_merged (items : List Param) (p : Param) :
    (merged items p).default? = p.default? := by
  unfold merged
  split
  · cases p <;> rfl
  · rfl

theorem Keeps.default?_eq (h : Keeps p p') : p'.default? = p.default? := by
  cases h <;> rfl

theorem Keeps.eq_of_length (h : Keeps p p') (all : p.constraints.length ≤ p'.constraints.length) :
    p' = p := by
  cases h with
  | lifetime sub =>
    rw [sub.eq_of_length_le (by simpa [constraints] using all)]
  | type sub =>
    rw [sub.eq_of_length_le (by simpa [constraints] using all)]

theorem labels_of_keeps (h : List.Forall₂ Keeps ps ps') : ps'.map label = ps.map label := by
  induction h with
  | nil => rfl
  | cons first _ ih => rw [List.map_cons, List.map_cons, first.label_eq, ih]

/- What is said of one parameter. -/

def saidOf (l : String × Bool) (ps : List Param) : List Constraint :=
  (ps.flatMap constraints).filter (·.label = l)

theorem mem_saidOf : c ∈ saidOf l ps ↔ c ∈ ps.flatMap constraints ∧ c.label = l := by
  simp [saidOf]

theorem saidOf_cons (p : Param) (ps : List Param) :
    saidOf l (p :: ps) = (if p.label = l then p.constraints else []) ++ saidOf l ps := by
  rw [saidOf, List.flatMap_cons, List.filter_append, saidOf]
  congr 1
  split
  · rename_i same
    exact List.filter_eq_self.2 fun c mem => by simpa [label_of_mem_constraints mem] using same
  · rename_i other
    exact List.filter_eq_nil_iff.2 fun c mem => by simpa [label_of_mem_constraints mem] using other

theorem saidOf_of_unnamed (unnamed : l.1 ∉ ps.map name) : saidOf l ps = [] := by
  refine List.eq_nil_iff_forall_not_mem.2 fun c said => ?_
  obtain ⟨listed, same⟩ := mem_saidOf.1 said
  exact silent_of_unnamed unnamed c listed (congrArg Prod.fst same)

theorem saidOf_of_mem (distinct : (ps.map name).Nodup) (mem : p ∈ ps) :
    saidOf p.label ps = p.constraints := by
  induction ps with
  | nil => cases mem
  | cons q ps ih =>
    obtain ⟨new, distinct⟩ := List.nodup_cons.1 distinct
    rw [saidOf_cons]
    rcases List.mem_cons.1 mem with rfl | later
    · rw [if_pos rfl, saidOf_of_unnamed new, List.append_nil]
    · have other : q.label ≠ p.label := fun same =>
        new (List.mem_map.2 ⟨p, later, (Prod.mk.inj same).1.symm⟩)
      rw [if_neg other, List.nil_append, ih distinct later]

/- Merging what no item named. -/

theorem merge_of_ordered (ordered : p.Ordered) : p.merge [] = p := by
  cases p with
  | lifetime name bounds =>
    have whole : bounds ++ lifetimesOn name [] = bounds := List.append_nil bounds
    rw [merge, whole, sortedSet_of_ascending ordered]
  | type name bounds default =>
    have whole : bounds ++ boundsOn name [] = bounds := List.append_nil bounds
    rw [merge, whole, sortedSet_of_ascending ordered]

theorem ordered_of_alike {cs : List Constraint} (h : Alike p (p'.merge cs)) : p.Ordered := by
  generalize merging : p'.merge cs = q at h
  cases h with
  | lifetime name bounds =>
    cases p' <;> cases merging
    exact ascending_sortedSet _
  | type name default each =>
    cases p' <;> cases merging
    exact each.ascending (ascending_sortedSet _)

end Param

open Param

namespace Signature

/-- The second signature is the first with bounds moved from the generic list into where items for
the same parameters, new ones or old. -/
structure MovesBounds (d d' : Signature) : Prop where
  negated : d'.negated = d.negated
  traitRef : d'.traitRef = d.traitRef
  selfTy : d'.selfTy = d.selfTy
  keeps : List.Forall₂ Keeps d.generics d'.generics
  /-- No bound is lost or made. -/
  conserved : ((d'.generics ++ d'.whereClause.getD []).flatMap constraints).Perm
    ((d.generics ++ d.whereClause.getD []).flatMap constraints)
  /-- The items that were there are there still. -/
  stays : ∀ item ∈ d.whereClause.getD [], item.label ∈ (d'.whereClause.getD []).map label
  /-- An item for a parameter that had none says something. -/
  saying : ∀ item ∈ d'.whereClause.getD [],
    item.label ∈ (d.whereClause.getD []).map label ∨ item.constraints ≠ []

/-- An item names the parameter, or its declaration is not touched, or its bounds are in order. -/
def Settled (d d' : Signature) (n : String) : Prop :=
  n ∈ (d.whereClause.getD []).map name ∨
    ∀ p ∈ d.generics, p.name = n → p ∈ d'.generics ∨ p.Ordered

namespace MovesBounds

variable {d d' : Signature} (h : MovesBounds d d') {p p' : Param}
include h

theorem fits (fit : ∀ item ∈ d.whereClause.getD [], item.label ∈ d.generics.map label) :
    ∀ item ∈ d'.whereClause.getD [], item.label ∈ d'.generics.map label := by
  intro item mem
  rw [labels_of_keeps h.keeps]
  rcases h.saying item mem with old | some
  · obtain ⟨other, listed, same⟩ := List.mem_map.1 old
    exact same ▸ fit other listed
  · obtain ⟨c, said⟩ := List.exists_mem_of_ne_nil _ some
    have here : c ∈ (d'.generics ++ d'.whereClause.getD []).flatMap constraints :=
      List.mem_flatMap.2 ⟨item, List.mem_append_right _ mem, said⟩
    obtain ⟨source, listed, said'⟩ := List.mem_flatMap.1 (h.conserved.mem_iff.1 here)
    rw [← label_of_mem_constraints said, label_of_mem_constraints said']
    rcases List.mem_append.1 listed with declared | old
    · exact List.mem_map_of_mem declared
    · exact fit source old

theorem names : d'.generics.map name = d.generics.map name :=
  names_of_labels (labels_of_keeps h.keeps)

section Parameter

variable (distinct : (d.generics.map name).Nodup) (declared : p ∈ d.generics)
  (declared' : p' ∈ d'.generics) (keeps : Keeps p p')
include distinct declared declared' keeps

theorem said_perm :
    (p'.constraints ++ saidOf p.label (d'.whereClause.getD [])).Perm
      (p.constraints ++ saidOf p.label (d.whereClause.getD [])) := by
  have distinct' : (d'.generics.map name).Nodup := h.names ▸ distinct
  have said := saidOf_of_mem distinct declared
  have said' := saidOf_of_mem distinct' declared'
  rw [keeps.label_eq] at said'
  have whole := h.conserved.filter (·.label = p.label)
  rw [List.flatMap_append, List.flatMap_append, List.filter_append, List.filter_append] at whole
  rw [← said, ← said']
  exact whole

theorem mem_said_iff (c : Constraint) (own : c.label = p.label) :
    c ∈ p.constraints ++ (d.whereClause.getD []).flatMap constraints ↔
      c ∈ p'.constraints ++ (d'.whereClause.getD []).flatMap constraints := by
  have same := (h.said_perm distinct declared declared' keeps).mem_iff (a := c)
  simpa [mem_saidOf, own] using same.symm

/-- A declaration that no item completed is completed now, or is as it was. -/
theorem untouched_iff (unnamed : p.name ∉ (d.whereClause.getD []).map name)
    (fit : ∀ item ∈ d'.whereClause.getD [], item.label ∈ d'.generics.map label) :
    p.name ∉ (d'.whereClause.getD []).map name ↔ p' = p := by
  have silent : saidOf p.label (d.whereClause.getD []) = [] := saidOf_of_unnamed unnamed
  have count := (h.said_perm distinct declared declared' keeps).length_eq
  rw [silent, List.append_nil, List.length_append] at count
  constructor
  · intro unnamed'
    have silent' : saidOf p.label (d'.whereClause.getD []) = [] := saidOf_of_unnamed unnamed'
    rw [silent', List.length_nil, Nat.add_zero] at count
    exact keeps.eq_of_length (Nat.le_of_eq count.symm)
  · rintro rfl named
    have silent' : saidOf p'.label (d'.whereClause.getD []) = [] := by
      refine List.eq_nil_of_length_eq_zero ?_
      omega
    obtain ⟨item, mem, same⟩ := List.mem_map.1 named
    have own : item.label = p'.label := by
      have distinct' : (d'.generics.map name).Nodup := h.names ▸ distinct
      obtain ⟨q, declared, label⟩ := List.mem_map.1 (fit item mem)
      have found : q = p' := List.inj_on_of_nodup_map distinct' declared declared'
        ((congrArg Prod.fst label).trans same)
      exact found ▸ label.symm
    rcases h.saying item mem with old | some
    · obtain ⟨other, listed, label⟩ := List.mem_map.1 old
      exact unnamed (List.mem_map.2 ⟨other, listed, congrArg Prod.fst (label.trans own)⟩)
    · obtain ⟨c, said⟩ := List.exists_mem_of_ne_nil _ some
      have listed := List.mem_flatMap.2 ⟨item, mem, said⟩
      have spoken : c ∈ saidOf p'.label (d'.whereClause.getD []) :=
        mem_saidOf.2 ⟨listed, (label_of_mem_constraints said).trans own⟩
      rw [silent'] at spoken
      cases spoken

/-- Moving bounds leaves a parameter as it is, up to bounds equal in the order, if it is settled. -/
theorem alike_iff_settled
    (fit : ∀ item ∈ d'.whereClause.getD [], item.label ∈ d'.generics.map label) :
    Alike (merged (d.whereClause.getD []) p) (merged (d'.whereClause.getD []) p') ↔
      Settled d d' p.name := by
  have distinct' : (d'.generics.map name).Nodup := h.names ▸ distinct
  have same_name : p'.name = p.name := congrArg Prod.fst keeps.label_eq
  have merging : Alike (p.merge ((d.whereClause.getD []).flatMap constraints))
      (p'.merge ((d'.whereClause.getD []).flatMap constraints)) :=
    alike_merge keeps.label_eq.symm keeps.default?_eq.symm
      (h.mem_said_iff distinct declared declared' keeps)
  unfold merged
  rw [same_name]
  by_cases named : p.name ∈ (d.whereClause.getD []).map name
  · rw [if_pos named, if_pos (names_subset h.stays named)]
    exact iff_of_true merging (.inl named)
  · rw [if_neg named]
    have untouched := h.untouched_iff distinct declared declared' keeps named fit
    have only {q : Param} (mem : q ∈ d.generics) (same : q.name = p.name) : q = p :=
      List.inj_on_of_nodup_map distinct mem declared same
    by_cases named' : p.name ∈ (d'.whereClause.getD []).map name
    · rw [if_pos named']
      constructor
      · intro alike
        exact .inr fun q mem same => .inr (only mem same ▸ ordered_of_alike alike)
      · intro settled
        rcases (settled.resolve_left named) p declared rfl with kept | ordered
        · have found := List.inj_on_of_nodup_map distinct' declared' kept same_name
          exact absurd named' (untouched.2 found)
        · have alone : p.merge ((d.whereClause.getD []).flatMap constraints ++ []) = p.merge [] :=
            merge_silent_append (silent_of_unnamed named)
          rw [List.append_nil, merge_of_ordered ordered] at alone
          rwa [alone] at merging
    · have found : p' = p := untouched.1 named'
      rw [if_neg named', found]
      exact iff_of_true (.refl p) (.inr fun q mem same => .inl (only mem same ▸ found ▸ declared'))

end Parameter

end MovesBounds

end Signature

namespace CanonicalForm

open Signature

/-- Where bounds of declared parameters are moved into items for them, the signature has a form
still, with the same trait and type and the same parameters. The bounds of a parameter are the same,
up to bounds equal in the order, exactly if an item named it before, or its declaration stays as it
was, or it declared its bounds in order and without repetitions. -/
theorem settled_parameters_keep_bounds (d d' : Signature) (f : CanonicalForm)
    (distinct : (d.generics.map name).Nodup) (formed : ofSignature d = .ok f)
    (moved : MovesBounds d d') :
    ∃ f', ofSignature d' = .ok f' ∧
      f'.negated = f.negated ∧ f'.traitRef = f.traitRef ∧ f'.selfTy = f.selfTy ∧
      List.Forall₂ (fun q q' => q.label = q'.label ∧ q.default? = q'.default? ∧
        (Alike q q' ↔ Settled d d' q.name)) f.params f'.params := by
  have distinct' : (d'.generics.map name).Nodup := moved.names ▸ distinct
  obtain ⟨fit, rfl⟩ := ofSignature_eq_ok_iff.1 formed
  rw [declareAll_of_nodup distinct] at fit
  have fit' := moved.fits fit
  have renamed : canonicalRenaming d'.generics = canonicalRenaming d.generics := by
    refine canonicalRenaming_congr ?_
    rw [typeNames_eq_labels, typeNames_eq_labels, labels_of_keeps moved.keeps]
  refine ⟨_, ofSignature_eq_ok_iff.2 ⟨by rwa [declareAll_of_nodup distinct'], rfl⟩,
    moved.negated, ?_, ?_, ?_⟩
  · rw [declareAll_of_nodup distinct, declareAll_of_nodup distinct', renamed, moved.traitRef]
  · rw [declareAll_of_nodup distinct, declareAll_of_nodup distinct', renamed, moved.selfTy]
  · rw [declareAll_of_nodup distinct, declareAll_of_nodup distinct', List.forall₂_map_left_iff,
      List.forall₂_map_right_iff]
    obtain ⟨long, each⟩ := List.forall₂_iff_zip.1 moved.keeps
    refine List.forall₂_iff_zip.2 ⟨long, fun {p p'} mem => ?_⟩
    have keeps := each mem
    obtain ⟨declared, declared'⟩ := List.of_mem_zip mem
    refine ⟨?_, ?_, ?_⟩
    · rw [label_merged, label_merged, keeps.label_eq]
    · rw [default?_merged, default?_merged, keeps.default?_eq]
    · have same_name : (merged (d.whereClause.getD []) p).name = p.name :=
        congrArg Prod.fst (label_merged _ p)
      rw [same_name]
      exact moved.alike_iff_settled distinct declared declared' keeps fit'

/-- One parameter declares its only bounds in order, the other one not, but an item names it. -/
theorem bounds_moved_alike :
    let bound (n : String) : Bound := .trait (.mk false (.plain n none))
    let header (generics items : List Param) : Signature :=
      { generics
        isUnsafe := false
        negated := false
        traitRef := some (.plain "Foo" none)
        selfTy := .tuple [.path (.plain "T" none), .path (.plain "U" none)]
        whereClause := some items }
    let d := header [.type "T" [bound "A", bound "B"] none, .type "U" [bound "B", bound "A"] none]
      [.type "U" [bound "C"] none]
    let d' := header [.type "T" [bound "B"] none, .type "U" [bound "A"] none]
      [.type "U" [bound "C", bound "B"] none, .type "T" [bound "A"] none]
    Signature.ofText "impl<T: A + B, U: B + A> Foo for (T, U) where U: C" = .ok d ∧
      Signature.ofText "impl<T: B, U: A> Foo for (T, U) where U: C + B, T: A" = .ok d' ∧
      ∃ f f', ofSignature d = .ok f ∧ ofSignature d' = .ok f' ∧
        List.Forall₂ Alike f.params f'.params := by
  intro bound header d d'
  let merged : List Param :=
    [.type "T" [bound "A", bound "B"] none, .type "U" [bound "A", bound "B", bound "C"] none]
  have formed : ofSignature d = .ok
      { params := merged
        negated := false
        traitRef := some (.plain "Foo" none)
        selfTy := .tuple [.path (.plain "T0" none), .path (.plain "T1" none)] } := by cbv
  have moved : MovesBounds d d' :=
    { negated := rfl
      traitRef := rfl
      selfTy := rfl
      keeps := .cons (.type (by decide +kernel)) (.cons (.type (by decide +kernel)) .nil)
      conserved := by decide +kernel
      stays := by decide +kernel
      saying := by decide +kernel }
  obtain ⟨f', formed', _, _, _, each⟩ :=
    settled_parameters_keep_bounds d d' _ (by decide) formed moved
  have ordered : Param.Ordered (.type "T" [bound "A", bound "B"] none) :=
    List.pairwise_pair.2 (by cbv)
  have declared : ∀ p ∈ d.generics, p.name = "T" → p ∈ d'.generics ∨ p.Ordered :=
    List.forall_mem_cons.2 ⟨fun _ => .inr ordered,
      List.forall_mem_singleton.2 fun same => absurd same (by decide)⟩
  have named : "U" ∈ (d.whereClause.getD []).map name := by decide
  refine ⟨rfl, rfl, _, f', formed, formed', ?_⟩
  generalize f'.params = params at each ⊢
  obtain - | ⟨first, - | ⟨second, - | _⟩⟩ := each
  exact .cons (first.2.2.2 (.inr declared)) (.cons (second.2.2.2 (.inl named)) .nil)

/-- Bounds that are out of order, and on a parameter that no item names, stay so until they are
moved. -/
theorem unordered_bounds_put_in_order :
    ∃ d d' f f', Signature.ofText "impl<T: Send + Clone> Foo for T" = .ok d ∧
      Signature.ofText "impl<T> Foo for T where T: Send + Clone" = .ok d' ∧
      (d.generics.map name).Nodup ∧ MovesBounds d d' ∧
      ofSignature d = .ok f ∧ ofSignature d' = .ok f' ∧
      ¬ List.Forall₂ Alike f.params f'.params := by
  let bound (n : String) : Bound := .trait (.mk false (.plain n none))
  let header (bounds : List Bound) (items : Option (List Param)) : Signature :=
    { generics := [.type "T" bounds none]
      isUnsafe := false
      negated := false
      traitRef := some (.plain "Foo" none)
      selfTy := .path (.plain "T" none)
      whereClause := items }
  let form (bounds : List Bound) : CanonicalForm :=
    { params := [.type "T" bounds none]
      negated := false
      traitRef := some (.plain "Foo" none)
      selfTy := .path (.plain "T0" none) }
  let written := [bound "Send", bound "Clone"]
  have moved : MovesBounds (header written none) (header [] (some [.type "T" written none])) :=
    { negated := rfl
      traitRef := rfl
      selfTy := rfl
      keeps := .cons (.type (List.nil_sublist _)) .nil
      conserved := .refl _
      stays := List.forall_mem_nil _
      saying := by decide +kernel }
  have formed : ofSignature (header written none) = .ok (form written) := by cbv
  have formed' : ofSignature (header [] (some [.type "T" written none])) =
      .ok (form [bound "Clone", bound "Send"]) := by cbv
  refine ⟨_, _, _, _, rfl, rfl, by decide, moved, formed, formed', fun alike => ?_⟩
  cases alike with
  | cons first _ =>
    cases first with
    | type _ _ each =>
      have equal := (List.forall₂_cons.1 each).1
      exact absurd equal (by decide +kernel)

end CanonicalForm

end ImplFamilies
