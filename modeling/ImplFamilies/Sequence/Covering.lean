/-!
When one list covers another position by position: each shared position is covered, the first list
is at least as long, and an empty list is covered by nothing but an empty one.
-/

namespace ImplFamilies.Sequence

variable {α : Type}

/-- Every position of the second list is covered by the same position of the first. -/
def coversEach (r : α → α → Bool) : List α → List α → Bool
  | _, [] => true
  | [], _ :: _ => false
  | x :: xs, y :: ys => r x y && coversEach r xs ys

/-- An empty list is matched by an empty one only. -/
def emptyFits (xs ys : List α) : Bool :=
  xs.isEmpty || !ys.isEmpty

def covers (r : α → α → Bool) (xs ys : List α) : Bool :=
  emptyFits xs ys && coversEach r xs ys

end ImplFamilies.Sequence
