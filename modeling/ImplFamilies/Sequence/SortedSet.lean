/-!
Sorted lists without repetitions. Of several items that an order calls equal the first to arrive
stays, which is what sorting stably and then dropping equal neighbours leaves.
-/

namespace ImplFamilies.Sequence

variable {α : Type}

/-- Puts an item in its place, unless an equal one is there. -/
def insertNew (cmp : α → α → Ordering) (x : α) : List α → List α
  | [] => [x]
  | y :: ys =>
    match cmp x y with
    | .lt => x :: y :: ys
    | .eq => y :: ys
    | .gt => y :: insertNew cmp x ys

/-- The items in order, each class of equal ones stood for by its first. -/
def sortedSet (cmp : α → α → Ordering) (items : List α) : List α :=
  items.foldl (fun sorted x => insertNew cmp x sorted) []

@[simp] theorem sortedSet_nil (cmp : α → α → Ordering) : sortedSet cmp [] = [] := rfl

theorem sortedSet_concat (cmp : α → α → Ordering) (items : List α) (x : α) :
    sortedSet cmp (items ++ [x]) = insertNew cmp x (sortedSet cmp items) := by
  simp [sortedSet]

theorem mem_insertNew {cmp : α → α → Ordering} {x y : α} {ys : List α}
    (h : y ∈ insertNew cmp x ys) : y = x ∨ y ∈ ys := by
  induction ys with
  | nil => simpa [insertNew] using h
  | cons z zs ih =>
    simp only [insertNew] at h
    split at h
    · simpa using h
    · exact Or.inr h
    · rcases List.mem_cons.mp h with rfl | h
      · simp
      · rcases ih h with rfl | h <;> simp [*]

end ImplFamilies.Sequence
