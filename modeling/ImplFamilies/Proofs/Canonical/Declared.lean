import ImplFamilies.Canonical.Params
import Mathlib.Data.List.Induction

/-!
The declared parameters, seen by their names and kinds alone. A where clause changes neither, and
it fits exactly when each of its items finds a parameter of its name and kind.
-/

namespace ImplFamilies.Param

def label (p : Param) : String × Bool :=
  (p.name, p.isLifetime)

variable {p q item : Param} {ps qs rs items : List Param}

theorem typeNames_eq_labels (ps : List Param) :
    typeNames ps = ((ps.map label).filter (!·.2)).map Prod.fst := by
  rw [typeNames, List.filter_map, List.map_map]
  rfl

theorem mem_typeNames {n : String} : n ∈ typeNames ps ↔ (n, false) ∈ ps.map label := by
  simp [typeNames, label, and_assoc, and_comm]

/- Declarations, one per name. -/

theorem mem_declare (h : q ∈ declare p qs) : q = p ∨ q ∈ qs := by
  induction qs with
  | nil => exact .inl (List.mem_singleton.1 h)
  | cons r qs ih =>
    rw [declare] at h
    split at h
    · rcases List.mem_cons.1 h with rfl | mem
      · exact .inl rfl
      · exact .inr (List.mem_cons_of_mem _ mem)
    · rcases List.mem_cons.1 h with rfl | mem
      · exact .inr List.mem_cons_self
      · exact (ih mem).imp_right (List.mem_cons_of_mem _)

theorem declareAll_concat (ps : List Param) (p : Param) :
    declareAll (ps ++ [p]) = declare p (declareAll ps) := by
  rw [declareAll, List.foldl_append]
  rfl

theorem mem_of_mem_declareAll (h : q ∈ declareAll ps) : q ∈ ps := by
  induction ps using List.reverseRecOn with
  | nil => cases h
  | append_singleton ps p ih =>
    rw [declareAll_concat] at h
    rcases mem_declare h with rfl | mem
    · exact List.mem_append_right _ (List.mem_singleton.2 rfl)
    · exact List.mem_append_left _ (ih mem)

theorem mem_names_declareAll {n : String} :
    n ∈ (declareAll ps).map name ↔ n ∈ ps.map name := by
  induction ps using List.reverseRecOn with
  | nil => rfl
  | append_singleton ps p ih =>
    rw [declareAll_concat, names_declare, List.map_append, List.map_singleton, List.mem_append,
      ← ih]
    split
    · rename_i declared
      refine ⟨.inl, fun h => h.elim id fun last => ?_⟩
      rwa [List.mem_singleton.1 last]
    · exact List.mem_append

theorem nodup_names_declareAll (ps : List Param) : ((declareAll ps).map name).Nodup := by
  induction ps using List.reverseRecOn with
  | nil => exact .nil
  | append_singleton ps p ih =>
    rw [declareAll_concat, names_declare]
    split
    · exact ih
    · rename_i new
      refine List.nodup_append.2 ⟨ih, List.pairwise_singleton _ _, fun m known n last => ?_⟩
      rintro rfl
      exact new (List.mem_singleton.1 last ▸ known)

theorem declare_of_not_mem (h : p.name ∉ qs.map name) : declare p qs = qs ++ [p] := by
  induction qs with
  | nil => rfl
  | cons q qs ih =>
    rw [List.map_cons, List.mem_cons, not_or] at h
    rw [declare, if_neg (Ne.symm h.1), ih h.2, List.cons_append]

theorem declareAll_of_nodup (h : (ps.map name).Nodup) : declareAll ps = ps := by
  induction ps using List.reverseRecOn with
  | nil => rfl
  | append_singleton ps p ih =>
    rw [List.map_append, List.nodup_append] at h
    obtain ⟨earlier, _, apart⟩ := h
    have new : p.name ∉ ps.map name := fun mem => apart _ mem _ (List.mem_singleton_self _) rfl
    rw [declareAll_concat, ih earlier, declare_of_not_mem new]

theorem declare_map {f : Param → Param}
    (apart : ∀ q ∈ qs, (f q).name = (f p).name ↔ q.name = p.name) :
    declare (f p) (qs.map f) = (declare p qs).map f := by
  induction qs with
  | nil => rfl
  | cons q qs ih =>
    obtain ⟨first, rest⟩ := List.forall_mem_cons.1 apart
    by_cases same : q.name = p.name
    · rw [declare, if_pos same, List.map_cons, declare, if_pos (first.2 same), List.map_cons]
    · rw [declare, if_neg same, List.map_cons, declare, if_neg (mt first.1 same), ih rest,
        List.map_cons]

theorem declareAll_map {f : Param → Param}
    (apart : ∀ q ∈ ps, ∀ p ∈ ps, (f q).name = (f p).name ↔ q.name = p.name) :
    declareAll (ps.map f) = (declareAll ps).map f := by
  induction ps using List.reverseRecOn with
  | nil => rfl
  | append_singleton ps p ih =>
    have earlier {q : Param} (mem : q ∈ ps) : q ∈ ps ++ [p] := List.mem_append_left _ mem
    have last : p ∈ ps ++ [p] := List.mem_append_right _ (List.mem_singleton.2 rfl)
    rw [List.map_append, List.map_singleton, declareAll_concat, declareAll_concat,
      ih fun q hq r hr => apart q (earlier hq) r (earlier hr)]
    exact declare_map fun q mem => apart q (earlier (mem_of_mem_declareAll mem)) p last

/- Where clauses. -/

theorem constrain_ok (h : constrain q item = .ok p) :
    p.label = q.label ∧ q.isLifetime = item.isLifetime := by
  cases q <;> cases item <;> simp only [constrain, Except.ok.injEq, reduceCtorEq] at h <;>
    subst h <;> exact ⟨rfl, rfl⟩

theorem constrain_of_same_kind (h : q.isLifetime = item.isLifetime) :
    ∃ p, constrain q item = .ok p := by
  cases q <;> cases item <;> first | exact ⟨_, rfl⟩ | exact nomatch h

theorem except_map_eq_ok {ε α β : Type} {f : α → β} {x : Except ε α} {b : β} :
    x.map f = .ok b ↔ ∃ a, x = .ok a ∧ f a = b := by
  cases x <;> simp [Except.map]

theorem labels_constrainIn (h : constrainIn item qs = .ok rs) :
    rs.map label = qs.map label ∧ item.label ∈ qs.map label := by
  induction qs generalizing rs with
  | nil => cases h
  | cons q qs ih =>
    rw [constrainIn] at h
    split at h
    · rename_i named
      obtain ⟨p, fits, rfl⟩ := except_map_eq_ok.1 h
      obtain ⟨same, kind⟩ := constrain_ok fits
      have found : item.label = q.label := Prod.ext named.symm kind.symm
      rw [List.map_cons, List.map_cons, same, found]
      exact ⟨rfl, List.mem_cons_self⟩
    · obtain ⟨others, fits, rfl⟩ := except_map_eq_ok.1 h
      obtain ⟨same, found⟩ := ih fits
      rw [List.map_cons, List.map_cons, same]
      exact ⟨rfl, List.mem_cons_of_mem _ found⟩

theorem constrainIn_of_mem (distinct : (qs.map name).Nodup) (h : item.label ∈ qs.map label) :
    ∃ rs, constrainIn item qs = .ok rs := by
  induction qs with
  | nil => cases h
  | cons q qs ih =>
    obtain ⟨new, distinct⟩ := List.nodup_cons.1 distinct
    rw [constrainIn]
    rcases List.mem_cons.1 h with same | later
    · obtain ⟨named, kind⟩ := Prod.mk.inj same
      obtain ⟨p, fits⟩ := constrain_of_same_kind kind.symm
      rw [if_pos named.symm, fits]
      exact ⟨_, rfl⟩
    · have other : q.name ≠ item.name := by
        obtain ⟨r, mem, same⟩ := List.mem_map.1 later
        intro named
        exact new (List.mem_map.2 ⟨r, mem, (Prod.mk.inj same).1.trans named.symm⟩)
      obtain ⟨others, fits⟩ := ih distinct later
      rw [if_neg other, fits]
      exact ⟨_, rfl⟩

theorem names_of_labels (h : rs.map label = qs.map label) : rs.map name = qs.map name := by
  have names := congrArg (List.map Prod.fst) h
  rwa [List.map_map, List.map_map] at names

theorem labels_constrainAll (h : constrainAll qs items = .ok rs) :
    rs.map label = qs.map label ∧ ∀ item ∈ items, item.label ∈ qs.map label := by
  induction items generalizing qs with
  | nil =>
    obtain rfl := Except.ok.inj h
    exact ⟨rfl, fun _ mem => nomatch mem⟩
  | cons item items ih =>
    rw [constrainAll] at h
    split at h
    · rename_i between fits
      obtain ⟨kept, found⟩ := labels_constrainIn fits
      obtain ⟨same, others⟩ := ih h
      rw [kept] at same others
      exact ⟨same, List.forall_mem_cons.2 ⟨found, others⟩⟩
    · cases h

theorem constrainAll_of_mem (distinct : (qs.map name).Nodup)
    (h : ∀ item ∈ items, item.label ∈ qs.map label) : ∃ rs, constrainAll qs items = .ok rs := by
  induction items generalizing qs with
  | nil => exact ⟨qs, rfl⟩
  | cons item items ih =>
    obtain ⟨first, rest⟩ := List.forall_mem_cons.1 h
    obtain ⟨between, fits⟩ := constrainIn_of_mem distinct first
    have kept := (labels_constrainIn fits).1
    rw [constrainAll, fits]
    exact ih (by rwa [names_of_labels kept]) (by rwa [kept])

/-- A where clause fits a generic list exactly when each item finds a parameter of its name and
kind. -/
theorem constrainAll_declareAll_iff :
    (∃ rs, constrainAll (declareAll ps) items = .ok rs) ↔
      ∀ item ∈ items, item.label ∈ (declareAll ps).map label :=
  ⟨fun ⟨_, fits⟩ => (labels_constrainAll fits).2, constrainAll_of_mem (nodup_names_declareAll ps)⟩

theorem typeNames_constrainAll (h : constrainAll qs items = .ok rs) :
    typeNames rs = typeNames qs := by
  rw [typeNames_eq_labels, typeNames_eq_labels, (labels_constrainAll h).1]

end ImplFamilies.Param
