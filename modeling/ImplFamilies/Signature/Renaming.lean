import ImplFamilies.Signature.Tree

/-!
Renaming of type parameters. Only the leading segment of a plain path can name one: with `T`
renamed to `T0`, the path `T::Output` becomes `T0::Output`, while names of function paths and
lifetimes stay.
-/

namespace ImplFamilies

/-- The new names, where there are any. -/
abbrev Renaming := String → Option String

/-- A leading segment, and what follows from the first `::` on. -/
def splitSegment : List Char → List Char × List Char
  | [] => ([], [])
  | [c] => ([c], [])
  | c :: d :: rest =>
    if c = ':' ∧ d = ':' then ([], c :: d :: rest)
    else
      match splitSegment (d :: rest) with
      | (head, tail) => (c :: head, tail)

theorem splitSegment_append (cs : List Char) : (splitSegment cs).1 ++ (splitSegment cs).2 = cs := by
  fun_induction splitSegment cs with
  | case1 => rfl
  | case2 c => rfl
  | case3 c d rest h => rfl
  | case4 c d rest h head tail heq ih => simpa [heq] using ih

def renameSegments (ρ : Renaming) (segments : String) : String :=
  match splitSegment segments.toList with
  | (head, tail) =>
    match ρ (String.ofList head) with
    | some name => name ++ String.ofList tail
    | none => segments

mutual

def Ty.rename (ρ : Renaming) : Ty → Ty
  | .never => .never
  | .path p => .path (p.rename ρ)
  | .tuple xs => .tuple (Ty.renameEach ρ xs)
  | .array x size => .array (x.rename ρ) size
  | .slice x => .slice (x.rename ρ)
  | .pointer m x => .pointer m (x.rename ρ)
  | .reference l m x => .reference l m (x.rename ρ)
  | .single o b => .single o (b.rename ρ)
  | .bounded o bs => .bounded o (Bound.renameEach ρ bs)

def Ty.renameEach (ρ : Renaming) : List Ty → List Ty
  | [] => []
  | x :: xs => x.rename ρ :: Ty.renameEach ρ xs

def TypePath.rename (ρ : Renaming) : TypePath → TypePath
  | .plain s none => .plain (renameSegments ρ s) none
  | .plain s (some as) => .plain (renameSegments ρ s) (some (Arg.renameEach ρ as))
  | .fn m n xs none => .fn m n (Ty.renameEach ρ xs) none
  | .fn m n xs (some x) => .fn m n (Ty.renameEach ρ xs) (some (x.rename ρ))

def Arg.rename (ρ : Renaming) : Arg → Arg
  | .lifetime l => .lifetime l
  | .type x => .type (x.rename ρ)

def Arg.renameEach (ρ : Renaming) : List Arg → List Arg
  | [] => []
  | a :: as => a.rename ρ :: Arg.renameEach ρ as

def Bound.rename (ρ : Renaming) : Bound → Bound
  | .lifetime l => .lifetime l
  | .trait b => .trait (b.rename ρ)

def Bound.renameEach (ρ : Renaming) : List Bound → List Bound
  | [] => []
  | b :: bs => b.rename ρ :: Bound.renameEach ρ bs

def TraitBound.rename (ρ : Renaming) : TraitBound → TraitBound
  | .mk optional p => .mk optional (p.rename ρ)

end

@[simp] theorem Ty.renameEach_eq_map (ρ : Renaming) (xs : List Ty) :
    Ty.renameEach ρ xs = xs.map (Ty.rename ρ) := by
  induction xs with
  | nil => rfl
  | cons x xs ih => simp [Ty.renameEach, ih]

@[simp] theorem Arg.renameEach_eq_map (ρ : Renaming) (as : List Arg) :
    Arg.renameEach ρ as = as.map (Arg.rename ρ) := by
  induction as with
  | nil => rfl
  | cons a as ih => simp [Arg.renameEach, ih]

@[simp] theorem Bound.renameEach_eq_map (ρ : Renaming) (bs : List Bound) :
    Bound.renameEach ρ bs = bs.map (Bound.rename ρ) := by
  induction bs with
  | nil => rfl
  | cons b bs ih => simp [Bound.renameEach, ih]

end ImplFamilies
