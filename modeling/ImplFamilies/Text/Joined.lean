/-!
Items written one after the other with a separator between neighbours.
-/

namespace ImplFamilies.Text

def joined (separator : String) (items : List (List Char)) : List Char :=
  separator.toList.intercalate items

@[simp] theorem joined_nil (separator : String) : joined separator [] = [] := rfl

@[simp] theorem joined_singleton (separator : String) (item : List Char) :
    joined separator [item] = item := by
  simp [joined]

theorem joined_cons_cons (separator : String) (x y : List Char) (items : List (List Char)) :
    joined separator (x :: y :: items) =
      x ++ separator.toList ++ joined separator (y :: items) := by
  simp [joined, List.intercalate, List.intersperse]

end ImplFamilies.Text
