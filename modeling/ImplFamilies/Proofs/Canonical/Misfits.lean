import ImplFamilies.Canonical.Form
import ImplFamilies.Proofs.Canonical.Declared
import ImplFamilies.Proofs.Grammar.WellFormed

/-!
Why a signature has no canonical form. A where item fits when the last declaration of its name is
of its own kind; the first item that does not fit decides what is told. In a signature that is read
from a text no name is that of a type and of a lifetime, so there only a missing declaration is.
-/

namespace ImplFamilies

namespace Param

/-- No later parameter of the list has the same name. -/
def LastDeclared (generics : List Param) (p : Param) : Prop :=
  ∃ before after, generics = before ++ p :: after ∧ p.name ∉ after.map name

/-- A where item that does not fit a generic list, and why. -/
inductive Misfit (generics : List Param) (item : Param) : Violation → Prop
  | undeclared (unknown : item.name ∉ generics.map name) :
      Misfit generics item (.undeclared item.name)
  | kindMismatch {p : Param} (declared : LastDeclared generics p) (named : p.name = item.name)
      (kind : p.isLifetime ≠ item.isLifetime) : Misfit generics item (.kindMismatch item.name)

variable {p q r item : Param} {ps qs rs items : List Param} {v : Violation}

theorem LastDeclared.mem (h : LastDeclared ps p) : p ∈ ps := by
  obtain ⟨before, after, rfl, -⟩ := h
  exact List.mem_append_right _ List.mem_cons_self

theorem lastDeclared_concat :
    LastDeclared (ps ++ [r]) p ↔ p = r ∨ LastDeclared ps p ∧ p.name ≠ r.name := by
  constructor
  · rintro ⟨before, after, split, last⟩
    rcases List.eq_nil_or_concat after with rfl | ⟨after, a, rfl⟩
    · have tail := (List.append_inj' split rfl).2
      exact .inl (List.singleton_inj.1 tail).symm
    · rw [List.concat_eq_append, ← List.cons_append, ← List.append_assoc] at split
      obtain ⟨rfl, tail⟩ := List.append_inj' split rfl
      obtain rfl := List.singleton_inj.1 tail
      rw [List.concat_eq_append, List.map_append, List.mem_append, not_or] at last
      refine .inr ⟨⟨before, after, rfl, last.1⟩, fun same => last.2 ?_⟩
      exact List.mem_singleton.2 same
  · rintro (rfl | ⟨⟨before, after, rfl, last⟩, other⟩)
    · exact ⟨ps, [], rfl, List.not_mem_nil⟩
    · refine ⟨before, after ++ [r], by rw [List.append_assoc, List.cons_append], ?_⟩
      rw [List.map_append, List.mem_append, not_or]
      exact ⟨last, fun same => other (List.mem_singleton.1 same)⟩

theorem mem_declare_iff (distinct : (qs.map name).Nodup) :
    p ∈ declare r qs ↔ p = r ∨ p ∈ qs ∧ p.name ≠ r.name := by
  induction qs with
  | nil => simp [declare]
  | cons q qs ih =>
    obtain ⟨new, distinct⟩ := List.nodup_cons.1 distinct
    by_cases same : q.name = r.name
    · have others : p ∈ qs → p.name ≠ r.name := by
        intro mem named
        exact new (List.mem_map.2 ⟨p, mem, named.trans same.symm⟩)
      rw [declare, if_pos same, List.mem_cons, List.mem_cons]
      refine or_congr_right ⟨fun mem => ⟨.inr mem, others mem⟩, ?_⟩
      rintro ⟨rfl | mem, other⟩
      · exact absurd same other
      · exact mem
    · rw [declare, if_neg same, List.mem_cons, ih distinct, List.mem_cons]
      constructor
      · rintro (rfl | rfl | ⟨mem, other⟩)
        · exact .inr ⟨.inl rfl, same⟩
        · exact .inl rfl
        · exact .inr ⟨.inr mem, other⟩
      · rintro (rfl | ⟨rfl | mem, other⟩)
        · exact .inr (.inl rfl)
        · exact .inl rfl
        · exact .inr (.inr ⟨mem, other⟩)

/-- The parameters that are declared are the last declarations of their names. -/
theorem mem_declareAll_iff : p ∈ declareAll ps ↔ LastDeclared ps p := by
  induction ps using List.reverseRecOn with
  | nil =>
    exact ⟨fun mem => absurd mem List.not_mem_nil,
      fun declared => absurd declared.mem List.not_mem_nil⟩
  | append_singleton ps r ih =>
    rw [declareAll_concat, mem_declare_iff (nodup_names_declareAll ps), lastDeclared_concat, ih]

theorem mem_labels {n : String} {kind : Bool} :
    (n, kind) ∈ qs.map label ↔ ∃ q ∈ qs, q.name = n ∧ q.isLifetime = kind := by
  simp [label]

/- Where items against declared parameters, of which a step changes no name and no kind. -/

theorem except_map_eq_error {ε α β : Type} {f : α → β} {x : Except ε α} {e : ε} :
    x.map f = .error e ↔ x = .error e := by
  cases x <;> simp [Except.map]

theorem constrain_eq_error :
    constrain q item = .error v ↔
      q.isLifetime = !item.isLifetime ∧ v = .kindMismatch item.name := by
  cases q <;> cases item <;> simp [constrain, isLifetime, eq_comm]

theorem constrainIn_eq_error (distinct : (qs.map name).Nodup) :
    constrainIn item qs = .error v ↔
      item.name ∉ qs.map name ∧ v = .undeclared item.name ∨
        (item.name, !item.isLifetime) ∈ qs.map label ∧ v = .kindMismatch item.name := by
  induction qs with
  | nil => simp [constrainIn, eq_comm]
  | cons q qs ih =>
    obtain ⟨new, distinct⟩ := List.nodup_cons.1 distinct
    simp only [constrainIn, List.map_cons, List.mem_cons, label, Prod.mk.injEq]
    by_cases named : q.name = item.name
    · have unmatched : (item.name, !item.isLifetime) ∉ qs.map label := by
        rw [mem_labels]
        rintro ⟨r, mem, same, -⟩
        exact new (List.mem_map.2 ⟨r, mem, same.trans named.symm⟩)
      rw [if_pos named, except_map_eq_error, constrain_eq_error]
      simp [named, unmatched, eq_comm]
    · rw [if_neg named, except_map_eq_error, ih distinct]
      simp [Ne.symm named]

theorem constrainIn_eq_error_iff_misfit (kept : qs.map label = (declareAll ps).map label) :
    constrainIn item qs = .error v ↔ Misfit ps item v := by
  have names := names_of_labels kept
  have distinct : (qs.map name).Nodup := by
    rw [names]
    exact nodup_names_declareAll ps
  rw [constrainIn_eq_error distinct, names, kept, mem_names_declareAll, mem_labels]
  constructor
  · rintro (⟨unknown, rfl⟩ | ⟨⟨p, declared, named, kind⟩, rfl⟩)
    · exact .undeclared unknown
    · exact .kindMismatch (mem_declareAll_iff.1 declared) named (by simp [kind])
  · rintro (unknown | ⟨declared, named, kind⟩)
    · exact .inl ⟨unknown, rfl⟩
    · exact .inr ⟨⟨_, mem_declareAll_iff.2 declared, named, Bool.eq_not.2 kind⟩, rfl⟩

theorem not_misfit_of_constrainIn (kept : qs.map label = (declareAll ps).map label)
    (fits : constrainIn item qs = .ok rs) (w : Violation) : ¬ Misfit ps item w := by
  intro misfit
  have told := (constrainIn_eq_error_iff_misfit kept).2 misfit
  cases fits.symm.trans told

theorem not_misfit_of_constrainAll (kept : qs.map label = (declareAll ps).map label)
    (fits : constrainAll qs items = .ok rs) : ∀ item ∈ items, ∀ w, ¬ Misfit ps item w := by
  induction items generalizing qs with
  | nil => exact List.forall_mem_nil _
  | cons item items ih =>
    rw [constrainAll] at fits
    split at fits
    · rename_i between step
      have same := (labels_constrainIn step).1.trans kept
      exact List.forall_mem_cons.2 ⟨not_misfit_of_constrainIn kept step, ih same fits⟩
    · cases fits

/-- The first item that does not fit decides. -/
theorem constrainAll_eq_error_iff (kept : qs.map label = (declareAll ps).map label) :
    constrainAll qs items = .error v ↔ ∃ before item after, items = before ++ item :: after ∧
      (∀ i ∈ before, ∀ w, ¬ Misfit ps i w) ∧ Misfit ps item v := by
  induction items generalizing qs with
  | nil => simp [constrainAll]
  | cons item items ih =>
    rw [constrainAll]
    cases step : constrainIn item qs with
    | ok between =>
      have fits := not_misfit_of_constrainIn kept step
      rw [ih ((labels_constrainIn step).1.trans kept)]
      constructor
      · rintro ⟨before, misfit, after, rfl, fit, told⟩
        exact ⟨item :: before, misfit, after, rfl, List.forall_mem_cons.2 ⟨fits, fit⟩, told⟩
      · rintro ⟨before, misfit, after, split, fit, told⟩
        rcases List.cons_eq_append_iff.1 split with ⟨rfl, found⟩ | ⟨before, rfl, rfl⟩
        · obtain ⟨rfl, -⟩ := List.cons.inj found
          exact absurd told (fits v)
        · exact ⟨before, misfit, after, rfl, (List.forall_mem_cons.1 fit).2, told⟩
    | error w =>
      have misfit : Misfit ps item w := (constrainIn_eq_error_iff_misfit kept).1 step
      constructor
      · intro told
        obtain rfl := Except.error.inj told
        exact ⟨[], item, items, rfl, List.forall_mem_nil _, misfit⟩
      · rintro ⟨before, other, after, split, fit, told⟩
        rcases List.cons_eq_append_iff.1 split with ⟨rfl, found⟩ | ⟨before, rfl, rfl⟩
        · obtain ⟨rfl, -⟩ := List.cons.inj found
          exact step.symm.trans ((constrainIn_eq_error_iff_misfit kept).2 told)
        · exact absurd misfit ((List.forall_mem_cons.1 fit).1 w)

end Param

namespace CanonicalForm

open Param

variable {s : Signature} {v : Violation}

theorem ofSignature_eq_error :
    ofSignature s = .error v ↔
      constrainAll (declareAll s.generics) (s.whereClause.getD []) = .error v := by
  rw [ofSignature]
  cases constrainAll (declareAll s.generics) (s.whereClause.getD []) <;> simp

theorem ofSignature_eq_error_iff :
    ofSignature s = .error v ↔ ∃ before item after,
      s.whereClause.getD [] = before ++ item :: after ∧
      (∀ i ∈ before, ∀ w, ¬ Misfit s.generics i w) ∧ Misfit s.generics item v := by
  rw [ofSignature_eq_error, constrainAll_eq_error_iff rfl]

theorem exists_error_iff :
    (∃ v, ofSignature s = .error v) ↔
      ∃ item ∈ s.whereClause.getD [], ∃ v, Misfit s.generics item v := by
  constructor
  · rintro ⟨v, told⟩
    obtain ⟨before, item, after, split, -, misfit⟩ := ofSignature_eq_error_iff.1 told
    exact ⟨item, by simp [split], v, misfit⟩
  · rintro ⟨item, mem, v, misfit⟩
    cases run : constrainAll (declareAll s.generics) (s.whereClause.getD []) with
    | ok params => exact absurd misfit (not_misfit_of_constrainAll rfl run item mem v)
    | error w => exact ⟨w, ofSignature_eq_error.2 run⟩

theorem ofText_kinds {text : String} (parsed : Signature.ofText text = .ok s) (n : String) :
    ofSignature s ≠ .error (.kindMismatch n) := by
  intro told
  obtain ⟨before, item, after, split, -, misfit⟩ := ofSignature_eq_error_iff.1 told
  have wellNamed := Grammar.wellNamed_of_parsed parsed
  cases misfit with
  | @kindMismatch p declared named kind =>
    have first := wellNamed p (List.mem_append_left _ declared.mem)
    have second := wellNamed item (List.mem_append_right _ (by simp [split]))
    cases p <;> cases item
    · exact kind rfl
    · obtain rfl := named
      exact second.not_lifetime first
    · obtain rfl := named
      exact first.not_lifetime second
    · exact kind rfl

/-- A signature has no canonical form exactly when an item of its where clause does not fit its
generic list, and the first such item is told. In a signature that is read from a text the name of
that item is never declared as the other kind. -/
theorem first_misfit_decides :
    (∀ s : Signature, (∃ v, ofSignature s = .error v) ↔
      ∃ item ∈ s.whereClause.getD [], ∃ v, Misfit s.generics item v) ∧
    (∀ (s : Signature) (v : Violation), ofSignature s = .error v ↔ ∃ before item after,
      s.whereClause.getD [] = before ++ item :: after ∧
      (∀ i ∈ before, ∀ w, ¬ Misfit s.generics i w) ∧ Misfit s.generics item v) ∧
    ∀ (text : String) (s : Signature), Signature.ofText text = .ok s →
      ∀ n, ofSignature s ≠ .error (.kindMismatch n) :=
  ⟨fun _ => exists_error_iff, fun _ _ => ofSignature_eq_error_iff, fun _ _ => ofText_kinds⟩

/-- Two items of a text name nothing that is declared, and the first is told; a tree can declare
one name as both kinds, and the last declaration counts. -/
theorem misfits_told :
    let text := "impl<T, 'a, U> A for T where U: B, V: C, 'b: 'a"
    let tree : Signature :=
      { generics := [.lifetime "T" [], .type "T" [] none]
        isUnsafe := false
        negated := false
        traitRef := none
        selfTy := .never
        whereClause := some [.type "T" [] none, .lifetime "T" [], .type "U" [] none] }
    (∃ s, Signature.ofText text = .ok s ∧ ofSignature s = .error (.undeclared "V") ∧
      ∀ n, ofSignature s ≠ .error (.kindMismatch n)) ∧
    ofSignature tree = .error (.kindMismatch "T") := by
  intro text tree
  obtain ⟨_, decides, kinds⟩ := first_misfit_decides
  let bound (n : String) : Bound := .trait (.mk false (.plain n none))
  let s : Signature :=
    { generics := [.type "T" [] none, .lifetime "'a" [], .type "U" [] none]
      isUnsafe := false
      negated := false
      traitRef := some (.plain "A" none)
      selfTy := .path (.plain "T" none)
      whereClause := some [.type "U" [bound "B"] none, .type "V" [bound "C"] none,
        .lifetime "'b" ["'a"]] }
  have parsed : Signature.ofText text = .ok s := by decide +kernel
  refine ⟨⟨s, parsed, rfl, kinds text s parsed⟩, (decides tree _).2 ?_⟩
  have last : LastDeclared tree.generics (.type "T" [] none) :=
    ⟨[.lifetime "T" []], [], rfl, List.not_mem_nil⟩
  have fits : ∀ w, ¬ Misfit tree.generics (.type "T" [] none) w :=
    not_misfit_of_constrainIn rfl rfl
  exact ⟨[.type "T" [] none], .lifetime "T" [], [.type "U" [] none], rfl,
    List.forall_mem_singleton.2 fits, .kindMismatch last rfl (by decide)⟩

end CanonicalForm

end ImplFamilies
