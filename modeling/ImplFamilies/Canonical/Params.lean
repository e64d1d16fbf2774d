import ImplFamilies.Sequence.SortedSet
import ImplFamilies.Signature.Order

/-!
The parameters that a signature declares, one per name in the order of first declaration, and the
bounds that a where clause adds to them. A later declaration of a name replaces the earlier one in
its place.
-/

namespace ImplFamilies

/-- Why a where clause does not fit the declared parameters. -/
inductive Violation
  | undeclared (name : String)
  /-- A lifetime constrained as a type, or a type as a lifetime. -/
  | kindMismatch (name : String)
deriving DecidableEq, Repr

namespace Violation

def name : Violation → String
  | .undeclared name => name
  | .kindMismatch name => name

def message : Violation → String
  | .undeclared name => "where-clause refers to undeclared generic parameter `" ++ name ++ "`"
  | .kindMismatch name =>
      "where-clause bound on `" ++ name ++ "` does not match the parameter's kind"

def code : Violation → String
  | .undeclared _ => "implfold_types::undeclared_parameter"
  | .kindMismatch _ => "implfold_types::parameter_kind_mismatch"

def help : Violation → Option String
  | .undeclared _ => some "declare the parameter in the impl's generic list"
  | .kindMismatch _ => none

end Violation

namespace Param

/-- Puts a declaration in the place of one with the same name, or at the end. -/
def declare (p : Param) : List Param → List Param
  | [] => [p]
  | q :: qs => if q.name = p.name then p :: qs else q :: declare p qs

theorem names_declare (p : Param) (qs : List Param) :
    (declare p qs).map name =
      if p.name ∈ qs.map name then qs.map name else qs.map name ++ [p.name] := by
  induction qs with
  | nil => simp [declare]
  | cons q qs ih =>
    by_cases h : q.name = p.name
    · simp [declare, h]
    · have hn : ¬ p.name = q.name := fun e => h e.symm
      by_cases hm : p.name ∈ qs.map name
      · simp [declare, h, ih, hm]
      · simp only [declare, if_neg h, List.map_cons, ih, if_neg hm, List.mem_cons, hn, false_or]
        rfl

/-- The declarations of a generic list, one per name. -/
def declareAll (params : List Param) : List Param :=
  params.foldl (fun declared p => declare p declared) []

/-- A parameter with the bounds of a where item added; the bounds are then in order. -/
def constrain : Param → Param → Except Violation Param
  | .lifetime name bounds, .lifetime _ more =>
      .ok (.lifetime name (Sequence.sortedSet compare (bounds ++ more)))
  | .type name bounds default, .type _ more _ =>
      .ok (.type name (Sequence.sortedSet Bound.order (bounds ++ more)) default)
  | _, item => .error (.kindMismatch item.name)

/-- Adds the bounds of one where item to the parameter it names. -/
def constrainIn (item : Param) : List Param → Except Violation (List Param)
  | [] => .error (.undeclared item.name)
  | q :: qs =>
    if q.name = item.name then (constrain q item).map (· :: qs)
    else (constrainIn item qs).map (q :: ·)

/-- Adds the bounds of where items one after the other; the first that does not fit ends it. -/
def constrainAll (declared : List Param) : List Param → Except Violation (List Param)
  | [] => .ok declared
  | item :: items =>
    match constrainIn item declared with
    | .ok declared => constrainAll declared items
    | .error violation => .error violation

/-- The names of the type parameters in order. -/
def typeNames (params : List Param) : List String :=
  (params.filter (fun p => !p.isLifetime)).map name

end Param

end ImplFamilies
