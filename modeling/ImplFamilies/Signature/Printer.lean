import ImplFamilies.Signature.Tree
import ImplFamilies.Text.Joined

/-!
The canonical text of a signature: one space where the notation wants one, no parentheses of its
own, and a trailing comma in a tuple of one element.
-/

namespace ImplFamilies

open Text

/-- The word after the star of a pointer. -/
def pointerWord (mutable : Bool) : String :=
  if mutable then "mut" else "const"

/-- A function path without its output. -/
def spellCall (modifiers name : String) (inputs : List (List Char)) : List Char :=
  (if modifiers = "" then [] else modifiers.toList ++ [' ']) ++ name.toList ++
    ['('] ++ joined ", " inputs ++ [')']

mutual

def Ty.spell : Ty → List Char
  | .never => ['!']
  | .path p => p.spell
  | .tuple xs =>
      ['('] ++ joined ", " (Ty.spellEach xs) ++ (if xs.length = 1 then [',', ')'] else [')'])
  | .array x size => ['['] ++ x.spell ++ [';', ' '] ++ Nat.toDigits 10 size.toNat ++ [']']
  | .slice x => ['['] ++ x.spell ++ [']']
  | .pointer m x => ['*'] ++ (pointerWord m).toList ++ [' '] ++ x.spell
  | .reference l m x =>
      ['&'] ++ (match l with | some name => name.toList ++ [' '] | none => []) ++
        (if m then "mut ".toList else []) ++ x.spell
  | .single o b => o.word.toList ++ [' '] ++ b.spell
  | .bounded o bs => o.word.toList ++ [' '] ++ joined " + " (Bound.spellEach bs)

def Ty.spellEach : List Ty → List (List Char)
  | [] => []
  | x :: xs => x.spell :: Ty.spellEach xs

def TypePath.spell : TypePath → List Char
  | .plain segments none => segments.toList
  | .plain segments (some args) =>
      segments.toList ++ ['<'] ++ joined ", " (Arg.spellEach args) ++ ['>']
  | .fn modifiers name inputs none => spellCall modifiers name (Ty.spellEach inputs)
  | .fn modifiers name inputs (some output) =>
      spellCall modifiers name (Ty.spellEach inputs) ++ " -> ".toList ++ output.spell

def Arg.spell : Arg → List Char
  | .lifetime name => name.toList
  | .type x => x.spell

def Arg.spellEach : List Arg → List (List Char)
  | [] => []
  | a :: as => a.spell :: Arg.spellEach as

def Bound.spell : Bound → List Char
  | .lifetime name => name.toList
  | .trait b => b.spell

def Bound.spellEach : List Bound → List (List Char)
  | [] => []
  | b :: bs => b.spell :: Bound.spellEach bs

def TraitBound.spell : TraitBound → List Char
  | .mk optional p => (if optional then ['?'] else []) ++ p.spell

end

@[simp] theorem Ty.spellEach_eq_map (xs : List Ty) : Ty.spellEach xs = xs.map Ty.spell := by
  induction xs with
  | nil => rfl
  | cons x xs ih => simp [Ty.spellEach, ih]

@[simp] theorem Arg.spellEach_eq_map (as : List Arg) : Arg.spellEach as = as.map Arg.spell := by
  induction as with
  | nil => rfl
  | cons a as ih => simp [Arg.spellEach, ih]

@[simp] theorem Bound.spellEach_eq_map (bs : List Bound) :
    Bound.spellEach bs = bs.map Bound.spell := by
  induction bs with
  | nil => rfl
  | cons b bs ih => simp [Bound.spellEach, ih]

namespace Param

/-- Bounds after a colon; nothing when there are none. -/
def spellBounds : List (List Char) → List Char
  | [] => []
  | bounds => [':', ' '] ++ joined " + " bounds

def spell : Param → List Char
  | .lifetime name bounds => name.toList ++ spellBounds (bounds.map String.toList)
  | .type name bounds default =>
      name.toList ++ spellBounds (bounds.map Bound.spell) ++
        (match default with | some ty => " = ".toList ++ ty.spell | none => [])

end Param

namespace Signature

/-- The generic list in angle brackets; an empty one is not written. -/
def spellGenerics : List Param → List Char
  | [] => []
  | params => ['<'] ++ joined ", " (params.map Param.spell) ++ ['>']

def spell (s : Signature) : List Char :=
  (if s.isUnsafe then "unsafe ".toList else []) ++ "impl".toList ++ spellGenerics s.generics ++
    [' '] ++
    (match s.traitRef with
      | some path => (if s.negated then ['!'] else []) ++ path.spell ++ " for ".toList
      | none => []) ++
    s.selfTy.spell ++
    (match s.whereClause with
      | some items => " where ".toList ++ joined ", " (items.map Param.spell)
      | none => [])

def render (s : Signature) : String :=
  String.ofList s.spell

end Signature

def Ty.render (ty : Ty) : String :=
  String.ofList ty.spell

def TypePath.render (path : TypePath) : String :=
  String.ofList path.spell

def Bound.render (bound : Bound) : String :=
  String.ofList bound.spell

def Param.render (param : Param) : String :=
  String.ofList param.spell

end ImplFamilies
