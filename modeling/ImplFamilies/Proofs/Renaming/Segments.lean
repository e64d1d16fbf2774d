import ImplFamilies.Proofs.Renaming.Heads
import ImplFamilies.Proofs.Signature.WellFormed
import Mathlib.Data.List.Infix

/-!
When renaming tells apart the paths that are different. A new leading segment must not be divided
by `::`, or it would not be read as one. Even then it may run together with what follows: a new name
that ends in a colon in front of `::` reads like a name without it in front of `:::`.
-/

namespace ImplFamilies

/- The plain paths of a tree, in the order in which they stand. -/

mutual

def Ty.paths : Ty → List String
  | .never => []
  | .path p => p.paths
  | .tuple xs => Ty.pathsEach xs
  | .array x _ => x.paths
  | .slice x => x.paths
  | .pointer _ x => x.paths
  | .reference _ _ x => x.paths
  | .single _ b => b.paths
  | .bounded _ bs => Bound.pathsEach bs

def Ty.pathsEach : List Ty → List String
  | [] => []
  | x :: xs => x.paths ++ Ty.pathsEach xs

def TypePath.paths : TypePath → List String
  | .plain s none => [s]
  | .plain s (some as) => s :: Arg.pathsEach as
  | .fn _ _ xs none => Ty.pathsEach xs
  | .fn _ _ xs (some x) => Ty.pathsEach xs ++ x.paths

def Arg.pathsEach : List Arg → List String
  | [] => []
  | .lifetime _ :: as => Arg.pathsEach as
  | .type x :: as => x.paths ++ Arg.pathsEach as

def Bound.pathsEach : List Bound → List String
  | [] => []
  | .lifetime _ :: bs => Bound.pathsEach bs
  | .trait b :: bs => b.paths ++ Bound.pathsEach bs

def TraitBound.paths : TraitBound → List String
  | .mk _ p => p.paths

end

@[simp] theorem Ty.pathsEach_eq_flatMap (xs : List Ty) :
    Ty.pathsEach xs = xs.flatMap Ty.paths := by
  induction xs with
  | nil => rfl
  | cons x xs ih => rw [Ty.pathsEach, ih, List.flatMap_cons]

theorem Arg.pathsEach_eq_flatMap (as : List Arg) :
    Arg.pathsEach as = (typeArgs as).flatMap Ty.paths := by
  induction as with
  | nil => rfl
  | cons a as ih => cases a <;> simp [Arg.pathsEach, typeArgs, ih]

theorem TraitBound.paths_eq (b : TraitBound) : b.paths = b.path.paths := by
  cases b
  rfl

@[simp] theorem Bound.pathsEach_eq_flatMap (bs : List Bound) :
    Bound.pathsEach bs = (traitBounds bs).flatMap fun b => b.path.paths := by
  induction bs with
  | nil => rfl
  | cons b bs ih => cases b <;> simp [Bound.pathsEach, traitBounds, TraitBound.paths_eq, ih]

theorem TypePath.paths_plain (s : String) (as : Option (List Arg)) :
    (TypePath.plain s as).paths = s :: (argTypes as).flatMap Ty.paths := by
  cases as with
  | none => rfl
  | some as => rw [TypePath.paths, Arg.pathsEach_eq_flatMap]; rfl

theorem TypePath.paths_fn (m n : String) (xs : List Ty) (x : Option Ty) :
    (TypePath.fn m n xs x).paths = xs.flatMap Ty.paths ++ x.toList.flatMap Ty.paths := by
  cases x <;> simp [TypePath.paths]

/- How a path is divided. -/

theorem not_divided_before (cs : List Char) :
    ¬ [':', ':'] <:+: (splitSegment cs).1 ++ (splitSegment cs).2.take 1 := by
  fun_induction splitSegment cs with
  | case1 => decide
  | case2 c =>
    intro colons
    exact absurd colons.length_le (by simp)
  | case3 c d rest h =>
    intro colons
    exact absurd colons.length_le (by simp)
  | case4 c d rest h head tail heq ih =>
    have whole : head ++ tail = d :: rest := by simpa [heq] using splitSegment_append (d :: rest)
    intro colons
    rw [heq] at ih
    rcases List.infix_cons_iff.1 colons with here | later
    · obtain ⟨rfl, first⟩ := List.cons_prefix_cons.1 here
      have next : [':'] <+: d :: rest := by
        rw [← whole]
        exact first.trans (List.prefix_append_right_inj head |>.2 (List.take_prefix 1 tail))
      exact h ⟨rfl, (List.cons_prefix_cons.1 next).1.symm⟩
    · exact ih later

/-- The place where a text is divided moves only over a colon, from in front of `:::` to behind the
first of them. -/
theorem nil_of_trails (name : List Char) {moved tail : List Char}
    (before : Trails (moved ++ tail)) (behind : Trails tail)
    (undivided : ¬ [':', ':'] <:+: name ++ moved)
    (apart : tail ≠ [] → [':'] <:+ name ++ moved → ¬ [':', ':', ':'] <+: moved ++ tail) :
    moved = [] := by
  match moved with
  | [] => rfl
  | [c] =>
    obtain empty | ⟨rest, colons⟩ := before
    · cases empty
    · obtain ⟨rfl, rfl⟩ := List.cons.inj colons
      obtain empty | ⟨rest', colons'⟩ := behind
      · cases empty
      · obtain ⟨-, rfl⟩ := List.cons.inj colons'
        exact absurd ⟨rest', rfl⟩ (apart (List.cons_ne_nil _ _) (List.suffix_append _ _))
  | c :: d :: moved =>
    obtain empty | ⟨rest, colons⟩ := before
    · cases empty
    · obtain ⟨rfl, others⟩ := List.cons.inj colons
      obtain ⟨rfl, -⟩ := List.cons.inj others
      exact absurd ⟨name, moved, by simp⟩ undivided

namespace Renaming

/-- No new name has `::` in it, different leading segments of the paths stay different, and no new
name ends in a colon if a leading segment is followed by `:::`. -/
structure KeepsApart (ρ : Renaming) (paths : List String) : Prop where
  undivided ⦃name new : String⦄ : ρ name = some new → ¬ [':', ':'] <:+: new.toList
  heads : ∀ s ∈ paths, ∀ t ∈ paths,
    ρ.apply (leading s) = ρ.apply (leading t) → leading s = leading t
  ends : (∃ name new, ρ name = some new ∧ [':'] <:+ new.toList) →
    ∀ s ∈ paths, ¬ [':', ':', ':'] <+: (trailing s).toList

namespace KeepsApart

variable {ρ : Renaming} {paths : List String} {s t : String}

theorem undivided_apply (h : ρ.KeepsApart paths) (s : String) :
    ¬ [':', ':'] <:+: (ρ.apply (leading s)).toList := by
  rw [apply]
  cases known : ρ (leading s) with
  | some new => exact h.undivided known
  | none =>
    rw [Option.getD_none, leading, String.toList_ofList]
    exact fun colons => not_divided_before s.toList (colons.trans (List.prefix_append _ _).isInfix)

/-- In front of `::` there is a colon only where a new name ends in one. -/
theorem exists_of_colon (followed : (trailing s).toList ≠ [])
    (colon : [':'] <:+ (ρ.apply (leading s)).toList) :
    ∃ name new, ρ name = some new ∧ [':'] <:+ new.toList := by
  rw [apply] at colon
  cases known : ρ (leading s) with
  | some new => exact ⟨_, new, known, by simpa [known] using colon⟩
  | none =>
    rw [known, Option.getD_none, leading, String.toList_ofList] at colon
    rw [trailing, String.toList_ofList] at followed
    obtain ⟨front, shape⟩ := colon
    obtain ⟨rest, tail⟩ := (trails_splitSegment s.toList).resolve_left followed
    refine absurd ⟨front, [], ?_⟩ (not_divided_before s.toList)
    rw [tail, ← shape]
    simp

theorem moved_eq_nil (h : ρ.KeepsApart paths) (hs : s ∈ paths) {moved : List Char}
    (longer : (ρ.apply (leading t)).toList = (ρ.apply (leading s)).toList ++ moved)
    (shorter : (trailing s).toList = moved ++ (trailing t).toList) : moved = [] := by
  have trails (u : String) : Trails (trailing u).toList := by
    rw [trailing, String.toList_ofList]
    exact trails_splitSegment u.toList
  refine nil_of_trails (ρ.apply (leading s)).toList (shorter ▸ trails s) (trails t) ?_ ?_
  · exact longer ▸ h.undivided_apply t
  · intro followed colon
    rw [← longer] at colon
    exact shorter ▸ h.ends (exists_of_colon followed colon) s hs

/-- Different paths have different new paths. -/
theorem renameSegments_inj (h : ρ.KeepsApart paths) (hs : s ∈ paths) (ht : t ∈ paths) :
    renameSegments ρ s = renameSegments ρ t ↔ s = t := by
  refine ⟨fun same => ?_, congrArg _⟩
  rw [renameSegments_eq, renameSegments_eq] at same
  have chars := congrArg String.toList same
  rw [String.toList_append, String.toList_append] at chars
  have split : (ρ.apply (leading s)).toList = (ρ.apply (leading t)).toList ∧
      (trailing s).toList = (trailing t).toList := by
    rcases List.append_eq_append_iff.1 chars with ⟨moved, longer, less⟩ | ⟨moved, longer, less⟩
    · obtain rfl := h.moved_eq_nil hs longer less
      rw [List.append_nil] at longer
      rw [List.nil_append] at less
      exact ⟨longer.symm, less⟩
    · obtain rfl := h.moved_eq_nil ht longer less
      rw [List.append_nil] at longer
      rw [List.nil_append] at less
      exact ⟨longer, less.symm⟩
  rw [← leading_append_trailing s, ← leading_append_trailing t,
    h.heads s hs t ht (String.toList_injective split.1), String.toList_injective split.2]

end KeepsApart

end Renaming

/- Well-formed trees. -/

open Grammar (IsIdentifier joinedWords)

theorem joined_cons (separator : String) (word : List Char) (words : List (List Char)) :
    ∃ rest, Text.joined separator (word :: words) = word ++ rest := by
  cases words with
  | nil => exact ⟨[], by rw [Text.joined_singleton, List.append_nil]⟩
  | cons next words => exact ⟨_, (Text.joined_cons_cons ..).trans (List.append_assoc ..)⟩

theorem exists_of_identifier {name : String} (h : IsIdentifier name) :
    ∃ c cs, name.toList = c :: cs ∧ c ≠ ':' := by
  have whole := h.no_colon
  cases chars : name.toList with
  | nil =>
    rcases h with word | rfl
    · exact absurd chars word.1
    · cases chars
  | cons c cs =>
    rw [chars, List.mem_cons, not_or] at whole
    exact ⟨c, cs, rfl, Ne.symm whole.1⟩

theorem Segmented.not_followed {parts : List String} {text : String} (h : Segmented parts text) :
    ¬ [':', ':', ':'] <+: (trailing text).toList := by
  obtain ⟨some, each, joined⟩ := h
  obtain ⟨first, others, rfl⟩ := List.exists_cons_of_ne_nil some
  have whole := (each first List.mem_cons_self).no_colon
  rw [joined, joinedWords, trailing, String.toList_ofList, String.toList_ofList, List.map_cons]
  cases others with
  | nil =>
    have split := splitSegment_of_trails whole (.inl rfl)
    rw [List.append_nil] at split
    rw [List.map_nil, Text.joined_singleton, split]
    exact fun colons => absurd colons.length_le (by simp)
  | cons second others =>
    obtain ⟨rest, behind⟩ := joined_cons "::" second.toList (others.map String.toList)
    obtain ⟨c, cs, chars, other⟩ := exists_of_identifier (each second (by simp))
    have split := splitSegment_of_trails whole (.inr ⟨second.toList ++ rest, rfl⟩)
    rw [List.map_cons, Text.joined_cons_cons, behind, List.append_assoc]
    intro colons
    have third : [':', ':', ':'] <+: ':' :: ':' :: (second.toList ++ rest) := by
      simpa [split] using colons
    rw [chars] at third
    simp only [List.cons_append, List.cons_prefix_cons] at third
    exact other third.2.2.1.symm

theorem segmented_compositional : Compositional
    (fun a => a.WellFormed → ∀ s ∈ a.paths, ∃ parts, Segmented parts s)
    (fun p => p.WellFormed → ∀ s ∈ p.paths, ∃ parts, Segmented parts s) where
  never _ _ mem := nomatch mem
  path p ih formed := by
    cases formed with
    | path formed => exact ih formed
  tuple xs ih formed := by
    cases formed with
    | tuple each =>
      rw [Ty.paths, Ty.pathsEach_eq_flatMap]
      exact List.forall_mem_flatMap.2 fun x hx => ih x hx (each x hx)
  array x size ih formed := by
    cases formed with
    | array element => exact ih element
  slice x ih formed := by
    cases formed with
    | slice element => exact ih element
  pointer m x ih formed := by
    cases formed with
    | pointer element _ => exact ih element
  reference l m x ih formed := by
    cases formed with
    | reference _ element _ => exact ih element
  single o b ih formed := by
    cases formed with
    | single bound =>
      cases bound with
      | mk path => exact ih path
  bounded o bs ih formed := by
    cases formed with
    | bounded _ _ each =>
      rw [Ty.paths, Bound.pathsEach_eq_flatMap]
      refine List.forall_mem_flatMap.2 fun b hb => ih b hb ?_
      cases each _ (mem_traitBounds.1 hb) with
      | trait bound =>
        cases bound with
        | mk path => exact path
  plain s as ih formed := by
    cases formed with
    | plain segments each =>
      rw [TypePath.paths_plain]
      refine List.forall_mem_cons.2 ⟨⟨_, segments⟩, ?_⟩
      refine List.forall_mem_flatMap.2 fun x hx => ih x hx ?_
      cases as with
      | none => cases hx
      | some as =>
        cases each as rfl _ (mem_typeArgs.1 hx) with
        | type formed => exact formed
  fn m n xs x each output formed := by
    cases formed with
    | fn _ _ _ inputs result =>
      rw [TypePath.paths_fn, List.forall_mem_append]
      refine ⟨List.forall_mem_flatMap.2 fun y hy => each y hy (inputs y hy), ?_⟩
      refine List.forall_mem_flatMap.2 fun y hy => ?_
      rw [Option.mem_toList] at hy
      exact output y hy (result y hy)

/-- In well-formed types a renaming keeps the paths apart if it keeps the leading segments apart. -/
theorem Renaming.KeepsApart.of_wellFormed {ρ : Renaming} {a b : Ty} (ha : a.WellFormed)
    (hb : b.WellFormed)
    (undivided : ∀ ⦃name new : String⦄, ρ name = some new → ¬ [':', ':'] <:+: new.toList)
    (heads : ∀ s ∈ a.paths ++ b.paths, ∀ t ∈ a.paths ++ b.paths,
      ρ.apply (leading s) = ρ.apply (leading t) → leading s = leading t) :
    ρ.KeepsApart (a.paths ++ b.paths) where
  undivided := undivided
  heads := heads
  ends _ s mem := by
    have segmented : ∃ parts, Segmented parts s := (List.mem_append.1 mem).elim
      (segmented_compositional.ty a ha s) (segmented_compositional.ty b hb s)
    obtain ⟨parts, segments⟩ := segmented
    exact segments.not_followed

end ImplFamilies
