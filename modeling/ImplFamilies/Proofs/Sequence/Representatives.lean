import ImplFamilies.Sequence.SortedSet
import Mathlib.Data.List.Forall2
import Mathlib.Data.List.Induction

/-!
What a sorted set keeps of its items: of each class of items that the order calls equal the one that
comes first, and these in strictly increasing order. So it depends on the classes of the items only,
up to the choice of a representative, and building it again changes nothing.
-/

namespace ImplFamilies.Sequence

variable {α : Type} {cmp : α → α → Ordering} {x y z : α} {xs ys items : List α}

def Ascending (cmp : α → α → Ordering) (xs : List α) : Prop :=
  xs.Pairwise fun x y => cmp x y = .lt

def firstEqual? (cmp : α → α → Ordering) (x : α) (items : List α) : Option α :=
  items.find? (cmp x · == .eq)

def EqualEach (cmp : α → α → Ordering) (xs ys : List α) : Prop :=
  List.Forall₂ (fun x y => cmp x y = .eq) xs ys

/-- A list that stands for the items in order: each item is equal to one of it alone, which is the
first such item. -/
structure Represents (cmp : α → α → Ordering) (items sorted : List α) : Prop where
  ascending : Ascending cmp sorted
  drawn : ∀ y ∈ sorted, y ∈ items
  first : ∀ x ∈ items, ∃ y, firstEqual? cmp x items = some y ∧ y ∈ sorted ∧
    ∀ z ∈ sorted, cmp x z = .eq → z = y

theorem sortedSet_append (cmp : α → α → Ordering) (xs ys : List α) :
    sortedSet cmp (xs ++ ys) = ys.foldl (fun sorted y => insertNew cmp y sorted)
      (sortedSet cmp xs) := by
  rw [sortedSet, List.foldl_append, sortedSet]

theorem EqualEach.partner (h : EqualEach cmp xs ys) : ∀ x ∈ xs, ∃ y ∈ ys, cmp x y = .eq := by
  induction h with
  | nil => exact List.forall_mem_nil _
  | @cons x y xs ys equal others ih =>
    refine List.forall_mem_cons.2 ⟨⟨y, List.mem_cons_self, equal⟩, fun z mem => ?_⟩
    obtain ⟨w, found, same⟩ := ih z mem
    exact ⟨w, List.mem_cons_of_mem _ found, same⟩

section Steps

variable [Std.TransCmp cmp]

theorem mem_insertNew_iff (ordered : Ascending cmp ys) :
    y ∈ insertNew cmp x ys ↔ y ∈ ys ∨ y = x ∧ ∀ z ∈ ys, cmp x z ≠ .eq := by
  induction ys with
  | nil => simp [insertNew]
  | cons z zs ih =>
    obtain ⟨below, ordered⟩ := List.pairwise_cons.1 ordered
    rw [insertNew]
    cases place : cmp x z with
    | lt =>
      have apart : ∀ w ∈ z :: zs, cmp x w ≠ .eq := by
        refine List.forall_mem_cons.2 ⟨by simp [place], fun w mem => ?_⟩
        rw [Std.TransCmp.lt_trans place (below w mem)]
        decide
      rw [List.mem_cons, or_comm, and_iff_left apart]
    | eq =>
      have taken : ¬ ∀ w ∈ z :: zs, cmp x w ≠ .eq := fun apart =>
        apart z List.mem_cons_self place
      rw [or_iff_left (fun new => taken new.2)]
    | gt =>
      rw [List.mem_cons, ih ordered, List.mem_cons, List.forall_mem_cons,
        and_iff_right (by simp [place] : cmp x z ≠ .eq), or_assoc]

theorem ascending_insertNew (ordered : Ascending cmp ys) (x : α) :
    Ascending cmp (insertNew cmp x ys) := by
  induction ys with
  | nil => exact List.pairwise_singleton _ _
  | cons z zs ih =>
    obtain ⟨below, rest⟩ := List.pairwise_cons.1 ordered
    rw [insertNew]
    cases place : cmp x z with
    | lt =>
      refine List.pairwise_cons.2 ⟨List.forall_mem_cons.2 ⟨place, fun w mem => ?_⟩, ordered⟩
      exact Std.TransCmp.lt_trans place (below w mem)
    | eq => exact ordered
    | gt =>
      refine List.pairwise_cons.2 ⟨fun w mem => ?_, ih rest⟩
      rcases mem_insertNew mem with rfl | known
      · exact Std.OrientedCmp.gt_iff_lt.1 place
      · exact below w known

theorem insertNew_of_greater (greater : ∀ z ∈ ys, cmp z x = .lt) :
    insertNew cmp x ys = ys ++ [x] := by
  induction ys with
  | nil => rfl
  | cons z zs ih =>
    obtain ⟨first, rest⟩ := List.forall_mem_cons.1 greater
    rw [insertNew, Std.OrientedCmp.gt_of_lt first, ih rest, List.cons_append]

end Steps

/- The whole list. -/

section Whole

variable [Std.TransCmp cmp]

theorem ascending_sortedSet (items : List α) : Ascending cmp (sortedSet cmp items) := by
  induction items using List.reverseRecOn with
  | nil => exact .nil
  | append_singleton items x ih =>
    rw [sortedSet_concat]
    exact ascending_insertNew ih x

theorem exists_equal_sortedSet_iff :
    (∃ z ∈ sortedSet cmp items, cmp x z = .eq) ↔ ∃ z ∈ items, cmp x z = .eq := by
  induction items using List.reverseRecOn with
  | nil => simp
  | append_singleton items w ih =>
    rw [sortedSet_concat]
    simp only [mem_insertNew_iff (ascending_sortedSet items), List.mem_append,
      List.mem_singleton, or_and_right, exists_or, ih, exists_eq_left]
    refine or_congr_right' fun other => ?_
    constructor
    · rintro ⟨_, ⟨rfl, _⟩, equal⟩
      exact equal
    · intro equal
      refine ⟨w, ⟨rfl, fun z mem same => other ?_⟩, equal⟩
      exact ih.1 ⟨z, mem, (Std.TransCmp.congr_left equal).trans same⟩

/-- What is kept is the first of its class. -/
theorem mem_sortedSet_iff : y ∈ sortedSet cmp items ↔ firstEqual? cmp y items = some y := by
  induction items using List.reverseRecOn with
  | nil => simp [firstEqual?]
  | append_singleton items w ih =>
    have unmatched : (∀ z ∈ sortedSet cmp items, cmp w z ≠ .eq) ↔
        firstEqual? cmp w items = none := by
      have classes : (∃ z ∈ sortedSet cmp items, cmp w z = .eq) ↔ ∃ z ∈ items, cmp w z = .eq :=
        exists_equal_sortedSet_iff
      simpa [firstEqual?] using not_congr classes
    rw [sortedSet_concat, mem_insertNew_iff (ascending_sortedSet items), ih, unmatched]
    unfold firstEqual?
    rw [List.find?_append, Option.or_eq_some_iff]
    refine or_congr_right ⟨?_, ?_⟩
    · rintro ⟨rfl, new⟩
      exact ⟨new, by simp [Std.ReflCmp.compare_self]⟩
    · rintro ⟨new, last⟩
      have same : w = y := by
        have found := List.mem_of_find?_eq_some last
        exact (List.mem_singleton.1 found).symm
      exact ⟨same.symm, same ▸ new⟩

theorem firstEqual?_congr (equal : cmp x y = .eq) (items : List α) :
    firstEqual? cmp x items = firstEqual? cmp y items := by
  have same : (cmp x · == .eq) = (cmp y · == .eq) := by
    funext z
    rw [Std.TransCmp.congr_left equal]
  rw [firstEqual?, firstEqual?, same]

theorem Ascending.eq_of_equal (ordered : Ascending cmp xs) (hy : y ∈ xs) (hz : z ∈ xs)
    (equal : cmp y z = .eq) : y = z := by
  induction xs with
  | nil => cases hy
  | cons x xs ih =>
    obtain ⟨below, rest⟩ := List.pairwise_cons.1 ordered
    rcases List.mem_cons.1 hy with rfl | laterY <;> rcases List.mem_cons.1 hz with rfl | laterZ
    · rfl
    · exact nomatch equal.symm.trans (below z laterZ)
    · exact nomatch equal.symm.trans (Std.OrientedCmp.gt_of_lt (below y laterY))
    · exact ih rest laterY laterZ

theorem represents_sortedSet (items : List α) : Represents cmp items (sortedSet cmp items) where
  ascending := ascending_sortedSet items
  drawn y mem := List.mem_of_find?_eq_some (mem_sortedSet_iff.1 mem)
  first x mem := by
    have some : (firstEqual? cmp x items).isSome := by
      rw [firstEqual?, List.find?_isSome]
      exact ⟨x, mem, by simp [Std.ReflCmp.compare_self]⟩
    obtain ⟨y, found⟩ := Option.isSome_iff_exists.1 some
    have equal : cmp x y = .eq := by simpa using List.find?_some found
    have kept : y ∈ sortedSet cmp items :=
      mem_sortedSet_iff.2 ((firstEqual?_congr equal items).symm.trans found)
    refine ⟨y, found, kept, fun z hz same => ?_⟩
    refine (ascending_sortedSet items).eq_of_equal hz kept ?_
    rw [Std.TransCmp.congr_left (Std.OrientedCmp.eq_symm same)]
    exact equal

theorem sortedSet_of_ascending (ordered : Ascending cmp xs) : sortedSet cmp xs = xs := by
  induction xs using List.reverseRecOn with
  | nil => rfl
  | append_singleton xs x ih =>
    obtain ⟨earlier, _, below⟩ := List.pairwise_append.1 ordered
    rw [sortedSet_concat, ih earlier]
    exact insertNew_of_greater fun z mem => below z mem x (List.mem_singleton_self x)

/-- Items may be sorted before more of them come. -/
theorem sortedSet_sortedSet_append (xs ys : List α) :
    sortedSet cmp (sortedSet cmp xs ++ ys) = sortedSet cmp (xs ++ ys) := by
  rw [sortedSet_append, sortedSet_of_ascending (ascending_sortedSet xs), sortedSet_append]

/- Lists of the same classes. -/

theorem equalEach_refl (xs : List α) : EqualEach cmp xs xs :=
  List.forall₂_same.2 fun _ _ => Std.ReflCmp.compare_self

theorem EqualEach.ascending (h : EqualEach cmp xs ys) (ordered : Ascending cmp ys) :
    Ascending cmp xs := by
  induction h with
  | nil => exact .nil
  | @cons x y xs ys equal others ih =>
    obtain ⟨below, rest⟩ := List.pairwise_cons.1 ordered
    refine List.pairwise_cons.2 ⟨fun z mem => ?_, ih rest⟩
    obtain ⟨w, found, same⟩ := EqualEach.partner others z mem
    rw [Std.TransCmp.congr_left equal, Std.TransCmp.congr_right same]
    exact below w found

theorem equalEach_of_classes (hx : Ascending cmp xs) (hy : Ascending cmp ys)
    (forth : ∀ x ∈ xs, ∃ y ∈ ys, cmp x y = .eq) (back : ∀ y ∈ ys, ∃ x ∈ xs, cmp x y = .eq) :
    EqualEach cmp xs ys := by
  induction xs generalizing ys with
  | nil =>
    cases ys with
    | nil => exact .nil
    | cons y ys => obtain ⟨_, mem, _⟩ := back y List.mem_cons_self; cases mem
  | cons x xs ih =>
    cases ys with
    | nil => obtain ⟨_, mem, _⟩ := forth x List.mem_cons_self; cases mem
    | cons y ys =>
      obtain ⟨belowX, hx'⟩ := List.pairwise_cons.1 hx
      obtain ⟨belowY, hy'⟩ := List.pairwise_cons.1 hy
      -- a first item behind the other's class would leave that class without a partner
      have heads : cmp x y = .eq := by
        obtain ⟨y', memY, equalY⟩ := forth x List.mem_cons_self
        obtain ⟨x', memX, equalX⟩ := back y List.mem_cons_self
        rcases List.mem_cons.1 memY with rfl | memY
        · exact equalY
        rcases List.mem_cons.1 memX with rfl | memX
        · exact equalX
        have above : cmp x y = .gt := by
          rw [Std.TransCmp.congr_left equalY]
          exact Std.OrientedCmp.gt_of_lt (belowY y' memY)
        have under : cmp x y = .lt := by
          rw [← Std.TransCmp.congr_right equalX]
          exact belowX x' memX
        exact nomatch above.symm.trans under
      refine .cons heads (ih hx' hy' (fun z mem => ?_) fun z mem => ?_)
      · obtain ⟨w, found, equal⟩ := forth z (List.mem_cons_of_mem _ mem)
        rcases List.mem_cons.1 found with rfl | found
        · have less := belowX z mem
          rw [Std.TransCmp.congr_right equal, heads] at less
          cases less
        · exact ⟨w, found, equal⟩
      · obtain ⟨w, found, equal⟩ := back z (List.mem_cons_of_mem _ mem)
        rcases List.mem_cons.1 found with rfl | found
        · have less := belowY z mem
          rw [← Std.TransCmp.congr_left heads, equal] at less
          cases less
        · exact ⟨w, found, equal⟩

/-- Sorted sets of the same items, in whatever order and number, are equal item by item. -/
theorem equalEach_sortedSet (same : ∀ x, x ∈ xs ↔ x ∈ ys) :
    EqualEach cmp (sortedSet cmp xs) (sortedSet cmp ys) := by
  have forth {xs ys : List α} (within : ∀ x, x ∈ xs → x ∈ ys) :
      ∀ x ∈ sortedSet cmp xs, ∃ y ∈ sortedSet cmp ys, cmp x y = .eq := fun x mem =>
    exists_equal_sortedSet_iff.2
      ⟨x, within x ((represents_sortedSet xs).drawn x mem), Std.ReflCmp.compare_self⟩
  refine equalEach_of_classes (ascending_sortedSet xs) (ascending_sortedSet ys)
    (forth fun x => (same x).1) fun y mem => ?_
  obtain ⟨x, found, equal⟩ := forth (fun x => (same x).2) y mem
  exact ⟨x, found, Std.OrientedCmp.eq_symm equal⟩

end Whole

end ImplFamilies.Sequence
