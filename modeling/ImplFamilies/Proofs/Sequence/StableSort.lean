import ImplFamilies.Proofs.Order.Preorder
import ImplFamilies.Proofs.Sequence.Representatives
import Mathlib.Data.List.Destutter
import Mathlib.Data.List.Sort

/-!
Sorted sets of bounds and of types. Sorting stably and then dropping each item equal to the one kept
before it leaves the same list as putting items in one by one: the sort brings every class together
with its first item in front, so looking at neighbours finds all repetitions.
-/

namespace ImplFamilies

namespace Sequence

variable {α : Type} {cmp : α → α → Ordering} {a x y : α} {xs ys kept items : List α}

/-- Items in order, and equal ones as they came. -/
def stableSort (cmp : α → α → Ordering) (items : List α) : List α :=
  items.mergeSort fun x y => (cmp x y).isLE

def dropRepeats (cmp : α → α → Ordering) (items : List α) : List α :=
  items.destutter fun kept x => cmp x kept ≠ .eq

section Sorting

variable [Std.TransCmp cmp]

theorem isLE_total (x y : α) : ((cmp x y).isLE || (cmp y x).isLE) = true := by
  have swapped : cmp y x = (cmp x y).swap := Std.OrientedCmp.eq_swap
  rw [swapped]
  cases cmp x y <;> rfl

theorem pairwise_stableSort (items : List α) :
    (stableSort cmp items).Pairwise fun x y => (cmp x y).isLE = true :=
  List.pairwise_mergeSort (fun _ _ _ => Std.TransCmp.isLE_trans) isLE_total items

theorem filter_stableSort (x : α) (items : List α) :
    (stableSort cmp items).filter (cmp x · == .eq) = items.filter (cmp x · == .eq) := by
  have alike : (items.filter (cmp x · == .eq)).Pairwise fun y z => (cmp y z).isLE = true := by
    refine List.pairwise_of_forall_mem_list fun y hy z hz => ?_
    have equal : cmp x y = .eq := eq_of_beq (List.mem_filter.1 hy).2
    have equal' : cmp x z = .eq := eq_of_beq (List.mem_filter.1 hz).2
    rw [← Std.TransCmp.congr_left equal, equal']
    rfl
  have found : (items.filter (cmp x · == .eq)).Sublist (stableSort cmp items) :=
    List.sublist_mergeSort (fun _ _ _ => Std.TransCmp.isLE_trans) isLE_total alike
      List.filter_sublist
  have within := found.filter (cmp x · == .eq)
  rw [List.filter_filter] at within
  simp only [Bool.and_self] at within
  exact (within.eq_of_length ((List.mergeSort_perm items _).filter _).length_eq.symm).symm

/-- A stable sort keeps the first item of each class in front. -/
theorem firstEqual?_stableSort (x : α) (items : List α) :
    firstEqual? cmp x (stableSort cmp items) = firstEqual? cmp x items := by
  rw [firstEqual?, firstEqual?, ← List.head?_filter, filter_stableSort, List.head?_filter]

theorem sortedSet_congr (same : ∀ x, firstEqual? cmp x xs = firstEqual? cmp x ys) :
    sortedSet cmp xs = sortedSet cmp ys := by
  have irrefl : Std.Irrefl fun x y : α => cmp x y = .lt :=
    ⟨fun x less => nomatch less.symm.trans Std.ReflCmp.compare_self⟩
  have antisymm : Std.Antisymm fun x y : α => cmp x y = .lt :=
    ⟨fun x y less less' => nomatch less'.symm.trans (Std.OrientedCmp.gt_of_lt less)⟩
  refine List.Pairwise.eq_of_mem_iff (ascending_sortedSet xs) (ascending_sortedSet ys) fun y => ?_
  rw [mem_sortedSet_iff, mem_sortedSet_iff, same]

/- Items that come in order are either equal to the last one or go behind it. -/

theorem insertNew_of_last (behind : ∀ z ∈ kept, cmp z x = .lt) (equal : cmp x a = .eq) :
    insertNew cmp x (kept ++ [a]) = kept ++ [a] := by
  induction kept with
  | nil => simp [insertNew, equal]
  | cons z kept ih =>
    obtain ⟨first, rest⟩ := List.forall_mem_cons.1 behind
    rw [List.cons_append, insertNew, Std.OrientedCmp.gt_of_lt first, ih rest]

theorem foldl_insertNew (behind : ∀ z ∈ kept, cmp z a = .lt)
    (ordered : (a :: xs).Pairwise fun x y => (cmp x y).isLE = true) :
    xs.foldl (fun sorted x => insertNew cmp x sorted) (kept ++ [a]) =
      kept ++ xs.destutter' (fun kept x => cmp x kept ≠ .eq) a := by
  induction xs generalizing kept a with
  | nil => rfl
  | cons y ys ih =>
    obtain ⟨first, rest⟩ := List.pairwise_cons.1 ordered
    obtain ⟨above, others⟩ := List.forall_mem_cons.1 first
    rw [List.foldl_cons]
    by_cases equal : cmp y a = .eq
    · have beyond : ∀ z ∈ kept, cmp z y = .lt := fun z mem => by
        rw [Std.TransCmp.congr_right equal]
        exact behind z mem
      rw [insertNew_of_last beyond equal, List.destutter'_cons_neg _ (not_not_intro equal)]
      exact ih behind (List.pairwise_cons.2 ⟨others, (List.pairwise_cons.1 rest).2⟩)
    · have greater : cmp a y = .lt := by
        have apart : cmp a y ≠ .eq := fun same => equal (Std.OrientedCmp.eq_symm same)
        cases place : cmp a y with
        | lt => rfl
        | eq => exact absurd place apart
        | gt => rw [place] at above; cases above
      have beyond : ∀ z ∈ kept ++ [a], cmp z y = .lt := by
        intro z mem
        rcases List.mem_append.1 mem with before | last
        · exact Std.TransCmp.lt_trans (behind z before) greater
        · rwa [List.mem_singleton.1 last]
      rw [insertNew_of_greater beyond, ih beyond rest, List.destutter'_cons_pos _ equal,
        List.append_assoc, List.singleton_append]

theorem sortedSet_of_ordered (ordered : xs.Pairwise fun x y => (cmp x y).isLE = true) :
    sortedSet cmp xs = dropRepeats cmp xs := by
  cases xs with
  | nil => rfl
  | cons x xs =>
    have behind : ∀ z ∈ ([] : List α), cmp z x = .lt := List.forall_mem_nil _
    exact foldl_insertNew behind ordered

/-- Putting items in one by one is sorting them stably and dropping equal neighbours. -/
theorem sortedSet_eq_dropRepeats (items : List α) :
    sortedSet cmp items = dropRepeats cmp (stableSort cmp items) := by
  rw [← sortedSet_of_ordered (pairwise_stableSort items)]
  exact sortedSet_congr fun x => (firstEqual?_stableSort x items).symm

end Sorting

/-- What sorting and dropping neighbours leaves of the items: the first item of each class, in
order. That is the sorted set; doing it again changes nothing, and items that come in another order
leave as many, equal to these position by position. -/
structure LeavesFirsts (cmp : α → α → Ordering) (items : List α) : Prop where
  sorted : dropRepeats cmp (stableSort cmp items) = sortedSet cmp items
  represents : Represents cmp items (sortedSet cmp items)
  again : sortedSet cmp (sortedSet cmp items) = sortedSet cmp items
  rearranged : ∀ others, others.Perm items →
    (sortedSet cmp others).length = (sortedSet cmp items).length ∧
      EqualEach cmp (sortedSet cmp others) (sortedSet cmp items)

theorem leavesFirsts [Std.TransCmp cmp] (items : List α) : LeavesFirsts cmp items where
  sorted := (sortedSet_eq_dropRepeats items).symm
  represents := represents_sortedSet items
  again := sortedSet_of_ascending (ascending_sortedSet items)
  rearranged others perm := by
    have each : EqualEach cmp (sortedSet cmp others) (sortedSet cmp items) :=
      equalEach_sortedSet fun x => perm.mem_iff
    exact ⟨List.Forall₂.length_eq each, each⟩

end Sequence

/-- Lists of bounds and lists of types, sorted and without repetitions, hold the first item of every
class and depend on the classes only. -/
theorem sorted_sets_leave_firsts :
    (∀ bounds : List Bound, Sequence.LeavesFirsts Bound.order bounds) ∧
      ∀ types : List Ty, Sequence.LeavesFirsts Ty.order types :=
  ⟨Sequence.leavesFirsts, Sequence.leavesFirsts⟩

end ImplFamilies
