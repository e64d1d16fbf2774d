import ImplFamilies.Proofs.Order.Preorder
import ImplFamilies.Signature.Renaming

/-!
The names that renaming reads: the leading segments of plain paths, in the order in which they
stand. A tree is renamed by what becomes of these, so renamings that agree on them give the same
tree, and renaming twice is renaming once by the two one after the other. A new name must have no
colon, so that it stays the leading segment of its path.
-/

namespace ImplFamilies

namespace Renaming

def apply (ρ : Renaming) (name : String) : String :=
  (ρ name).getD name

def keep : Renaming := fun _ => none

def Whole (ρ : Renaming) : Prop :=
  ∀ ⦃name new⦄, ρ name = some new → ':' ∉ new.toList

@[simp] theorem apply_keep (name : String) : keep.apply name = name := rfl

end Renaming

/- Leading segments. -/

def leading (segments : String) : String :=
  String.ofList (splitSegment segments.toList).1

/-- What follows the leading segment, from the first `::` on. -/
def trailing (segments : String) : String :=
  String.ofList (splitSegment segments.toList).2

theorem leading_append_trailing (s : String) : leading s ++ trailing s = s := by
  rw [leading, trailing, ← String.ofList_append, splitSegment_append, String.ofList_toList]

theorem renameSegments_eq (ρ : Renaming) (s : String) :
    renameSegments ρ s = ρ.apply (leading s) ++ trailing s := by
  have whole := leading_append_trailing s
  simp only [renameSegments, Renaming.apply, leading, trailing] at whole ⊢
  cases ρ (String.ofList (splitSegment s.toList).1) with
  | none => exact whole.symm
  | some name => rfl

def Trails (tail : List Char) : Prop :=
  tail = [] ∨ ∃ rest, tail = ':' :: ':' :: rest

theorem trails_splitSegment (cs : List Char) : Trails (splitSegment cs).2 := by
  fun_induction splitSegment cs with
  | case1 => exact .inl rfl
  | case2 c => exact .inl rfl
  | case3 c d rest h => exact .inr ⟨rest, by rw [h.1, h.2]⟩
  | case4 c d rest h head tail heq ih => simpa [heq] using ih

theorem splitSegment_of_trails {name tail : List Char} (whole : ':' ∉ name)
    (trails : Trails tail) : splitSegment (name ++ tail) = (name, tail) := by
  induction name with
  | nil => rcases trails with rfl | ⟨rest, rfl⟩ <;> simp [splitSegment]
  | cons c cs ih =>
    rw [List.mem_cons, not_or] at whole
    have split := ih whole.2
    rw [List.cons_append]
    cases more : cs ++ tail with
    | nil =>
      obtain ⟨rfl, rfl⟩ := List.append_eq_nil_iff.1 more
      rfl
    | cons d rest =>
      rw [more] at split
      have other : ¬ (c = ':' ∧ d = ':') := fun colons => whole.1 colons.1.symm
      rw [splitSegment, if_neg other, split]

theorem leading_renameSegments {ρ : Renaming} (whole : ρ.Whole) (s : String) :
    leading (renameSegments ρ s) = ρ.apply (leading s) ∧
      trailing (renameSegments ρ s) = trailing s := by
  rw [renameSegments_eq, Renaming.apply]
  cases known : ρ (leading s) with
  | none =>
    rw [Option.getD_none, leading_append_trailing]
    exact ⟨rfl, rfl⟩
  | some name =>
    have split : splitSegment (name ++ trailing s).toList =
        (name.toList, (splitSegment s.toList).2) := by
      rw [String.toList_append, trailing, String.toList_ofList]
      exact splitSegment_of_trails (whole known) (trails_splitSegment s.toList)
    constructor
    · rw [Option.getD_some, leading, split, String.ofList_toList]
    · rw [Option.getD_some, trailing, split, trailing]

/- The leading segments of the plain paths of a tree. -/

mutual

def Ty.heads : Ty → List String
  | .never => []
  | .path p => p.heads
  | .tuple xs => Ty.headsEach xs
  | .array x _ => x.heads
  | .slice x => x.heads
  | .pointer _ x => x.heads
  | .reference _ _ x => x.heads
  | .single _ b => b.heads
  | .bounded _ bs => Bound.headsEach bs

def Ty.headsEach : List Ty → List String
  | [] => []
  | x :: xs => x.heads ++ Ty.headsEach xs

def TypePath.heads : TypePath → List String
  | .plain s none => [leading s]
  | .plain s (some as) => leading s :: Arg.headsEach as
  | .fn _ _ xs none => Ty.headsEach xs
  | .fn _ _ xs (some x) => Ty.headsEach xs ++ x.heads

def Arg.headsEach : List Arg → List String
  | [] => []
  | .lifetime _ :: as => Arg.headsEach as
  | .type x :: as => x.heads ++ Arg.headsEach as

def Bound.headsEach : List Bound → List String
  | [] => []
  | .lifetime _ :: bs => Bound.headsEach bs
  | .trait b :: bs => b.heads ++ Bound.headsEach bs

def TraitBound.heads : TraitBound → List String
  | .mk _ p => p.heads

end

@[simp] theorem Ty.headsEach_eq_flatMap (xs : List Ty) :
    Ty.headsEach xs = xs.flatMap Ty.heads := by
  induction xs with
  | nil => rfl
  | cons x xs ih => rw [Ty.headsEach, ih, List.flatMap_cons]

theorem Arg.headsEach_eq_flatMap (as : List Arg) :
    Arg.headsEach as = (typeArgs as).flatMap Ty.heads := by
  induction as with
  | nil => rfl
  | cons a as ih => cases a <;> simp [Arg.headsEach, typeArgs, ih]

theorem TraitBound.heads_eq (b : TraitBound) : b.heads = b.path.heads := by
  cases b
  rfl

@[simp] theorem Bound.headsEach_eq_flatMap (bs : List Bound) :
    Bound.headsEach bs = (traitBounds bs).flatMap fun b => b.path.heads := by
  induction bs with
  | nil => rfl
  | cons b bs ih => cases b <;> simp [Bound.headsEach, traitBounds, TraitBound.heads_eq, ih]

theorem mem_typeArgs {as : List Arg} {x : Ty} : x ∈ typeArgs as ↔ .type x ∈ as := by
  induction as with
  | nil => simp [typeArgs]
  | cons a as ih => cases a <;> simp [typeArgs, ih]

theorem TypePath.heads_plain (s : String) (as : Option (List Arg)) :
    (TypePath.plain s as).heads = leading s :: (argTypes as).flatMap Ty.heads := by
  cases as with
  | none => rfl
  | some as => rw [TypePath.heads, Arg.headsEach_eq_flatMap]; rfl

theorem TypePath.heads_fn (m n : String) (xs : List Ty) (x : Option Ty) :
    (TypePath.fn m n xs x).heads = xs.flatMap Ty.heads ++ x.toList.flatMap Ty.heads := by
  cases x <;> simp [TypePath.heads]

/- Renaming, in the same terms. -/

section Parts

variable (ρ : Renaming)

theorem TypePath.rename_plain (s : String) (as : Option (List Arg)) :
    (TypePath.plain s as).rename ρ =
      .plain (renameSegments ρ s) (as.map (List.map (Arg.rename ρ))) := by
  cases as <;> simp [TypePath.rename]

theorem TypePath.rename_fn (m n : String) (xs : List Ty) (x : Option Ty) :
    (TypePath.fn m n xs x).rename ρ =
      .fn m n (xs.map (Ty.rename ρ)) (x.map (Ty.rename ρ)) := by
  cases x <;> simp [TypePath.rename]

theorem argTypes_rename (as : Option (List Arg)) :
    argTypes (as.map (List.map (Arg.rename ρ))) = (argTypes as).map (Ty.rename ρ) := by
  cases as with
  | none => rfl
  | some as =>
    simp only [argTypes, Option.map_some, Option.getD_some]
    induction as with
    | nil => rfl
    | cons a as ih => cases a <;> simp [Arg.rename, typeArgs, ih]

theorem TraitBound.path_rename (b : TraitBound) : (b.rename ρ).path = b.path.rename ρ := by
  cases b
  rfl

theorem traitBounds_rename (bs : List Bound) :
    traitBounds (bs.map (Bound.rename ρ)) = (traitBounds bs).map (TraitBound.rename ρ) := by
  induction bs with
  | nil => rfl
  | cons b bs ih => cases b <;> simp [Bound.rename, traitBounds, ih]

end Parts

theorem flatMap_heads_map {α β : Type} {f : α → β} {g : β → List String} {h : α → List String}
    {r : String → String} {xs : List α} (each : ∀ x ∈ xs, g (f x) = (h x).map r) :
    (xs.map f).flatMap g = (xs.flatMap h).map r := by
  induction xs with
  | nil => rfl
  | cons x xs ih =>
    obtain ⟨first, rest⟩ := List.forall_mem_cons.1 each
    rw [List.map_cons, List.flatMap_cons, List.flatMap_cons, List.map_append, first, ih rest]

/-- Each leading segment is renamed in its place, and nothing else becomes one. -/
theorem heads_rename_compositional {ρ : Renaming} (whole : ρ.Whole) : Compositional
    (fun a => (a.rename ρ).heads = a.heads.map ρ.apply)
    (fun p => (p.rename ρ).heads = p.heads.map ρ.apply) where
  never := rfl
  path p ih := ih
  tuple xs ih := by simpa [Ty.rename, Ty.heads] using flatMap_heads_map ih
  array x n ih := ih
  slice x ih := ih
  pointer m x ih := ih
  reference l m x ih := ih
  single o b ih := by
    rw [Ty.rename, Ty.heads, Ty.heads, TraitBound.heads_eq, TraitBound.heads_eq,
      TraitBound.path_rename, ih]
  bounded o bs ih := by
    rw [Ty.rename, Ty.heads, Ty.heads, Bound.renameEach_eq_map, Bound.headsEach_eq_flatMap,
      Bound.headsEach_eq_flatMap, traitBounds_rename]
    exact flatMap_heads_map fun b mem => by rw [TraitBound.path_rename, ih b mem]
  plain s as ih := by
    rw [TypePath.rename_plain, TypePath.heads_plain, TypePath.heads_plain, argTypes_rename,
      (leading_renameSegments whole s).1, List.map_cons, flatMap_heads_map ih]
  fn m n xs x each output := by
    rw [TypePath.rename_fn, TypePath.heads_fn, TypePath.heads_fn, List.map_append,
      flatMap_heads_map each, Option.toList_map, flatMap_heads_map (by simpa using output)]

theorem renameSegments_renameSegments {ρ σ τ : Renaming} (whole : ρ.Whole) {s : String}
    (agree : σ.apply (ρ.apply (leading s)) = τ.apply (leading s)) :
    renameSegments σ (renameSegments ρ s) = renameSegments τ s := by
  obtain ⟨head, tail⟩ := leading_renameSegments whole s
  rw [renameSegments_eq σ, head, tail, agree, renameSegments_eq τ]

theorem map_map_of_heads {α : Type} {f g h : α → α} {heads : α → List String}
    {agree : String → Prop} {xs : List α}
    (each : ∀ x ∈ xs, (∀ name ∈ heads x, agree name) → g (f x) = h x)
    (all : ∀ name ∈ xs.flatMap heads, agree name) : (xs.map f).map g = xs.map h := by
  rw [List.map_map]
  refine List.map_congr_left fun x mem => each x mem fun name found => ?_
  exact all name (List.mem_flatMap.2 ⟨x, mem, found⟩)

theorem rename_rename_compositional {ρ σ τ : Renaming} (whole : ρ.Whole) : Compositional
    (fun a => (∀ name ∈ a.heads, σ.apply (ρ.apply name) = τ.apply name) →
      (a.rename ρ).rename σ = a.rename τ)
    (fun p => (∀ name ∈ p.heads, σ.apply (ρ.apply name) = τ.apply name) →
      (p.rename ρ).rename σ = p.rename τ) where
  never _ := rfl
  path p ih agree := by rw [Ty.rename, Ty.rename, ih agree, Ty.rename]
  tuple xs ih agree := by
    rw [Ty.heads, Ty.headsEach_eq_flatMap] at agree
    simpa [Ty.rename] using map_map_of_heads ih agree
  array x n ih agree := by rw [Ty.rename, Ty.rename, ih agree, Ty.rename]
  slice x ih agree := by rw [Ty.rename, Ty.rename, ih agree, Ty.rename]
  pointer m x ih agree := by rw [Ty.rename, Ty.rename, ih agree, Ty.rename]
  reference l m x ih agree := by rw [Ty.rename, Ty.rename, ih agree, Ty.rename]
  single o b ih agree := by
    obtain ⟨optional, p⟩ := b
    have path : (p.rename ρ).rename σ = p.rename τ := ih agree
    rw [Ty.rename, Ty.rename, Ty.rename, TraitBound.rename, TraitBound.rename, TraitBound.rename,
      path]
  bounded o bs ih agree := by
    have each : ∀ b ∈ bs, (b.rename ρ).rename σ = b.rename τ := by
      intro b mem
      match b with
      | .lifetime l => rfl
      | .trait (.mk optional p) =>
        have listed : TraitBound.mk optional p ∈ traitBounds bs := mem_traitBounds.2 mem
        rw [Ty.heads, Bound.headsEach_eq_flatMap] at agree
        have path : (p.rename ρ).rename σ = p.rename τ := ih _ listed fun name found =>
          agree name (List.mem_flatMap.2 ⟨_, listed, found⟩)
        simp only [Bound.rename, TraitBound.rename, path]
    simpa [Ty.rename] using each
  plain s as ih agree := by
    rw [TypePath.heads_plain, List.forall_mem_cons] at agree
    rw [TypePath.rename_plain, TypePath.rename_plain, TypePath.rename_plain,
      renameSegments_renameSegments whole agree.1]
    cases as with
    | none => rfl
    | some as =>
      have each : ∀ a ∈ as, (a.rename ρ).rename σ = a.rename τ := by
        intro a mem
        cases a with
        | lifetime l => rfl
        | type x =>
          have listed : x ∈ argTypes (some as) := mem_typeArgs.2 mem
          have type := ih x listed fun name found => agree.2 name
            (List.mem_flatMap.2 ⟨x, listed, found⟩)
          simp only [Arg.rename, type]
      simpa using each
  fn m n xs x each output agree := by
    rw [TypePath.heads_fn, List.forall_mem_append] at agree
    rw [TypePath.rename_fn, TypePath.rename_fn, TypePath.rename_fn,
      map_map_of_heads each agree.1]
    cases x with
    | none => rfl
    | some y =>
      have type := output y rfl (by simpa using agree.2)
      simp only [Option.map_some, type]

theorem rename_keep_compositional : Compositional
    (fun a => a.rename .keep = a) (fun p => p.rename .keep = p) where
  never := rfl
  path p ih := by rw [Ty.rename, ih]
  tuple xs ih := by simpa [Ty.rename] using List.map_congr_left (g := id) ih
  array x n ih := by rw [Ty.rename, ih]
  slice x ih := by rw [Ty.rename, ih]
  pointer m x ih := by rw [Ty.rename, ih]
  reference l m x ih := by rw [Ty.rename, ih]
  single o b ih := by
    obtain ⟨optional, p⟩ := b
    have path : p.rename .keep = p := ih
    rw [Ty.rename, TraitBound.rename, path]
  bounded o bs ih := by
    have each : ∀ b ∈ bs, b.rename .keep = id b := by
      intro b mem
      match b with
      | .lifetime l => rfl
      | .trait (.mk optional p) =>
        have path : p.rename .keep = p := ih _ (mem_traitBounds.2 mem)
        simp only [Bound.rename, TraitBound.rename, path, id]
    simpa [Ty.rename] using List.map_congr_left each
  plain s as ih := by
    have name : renameSegments .keep s = s := by
      rw [renameSegments_eq, Renaming.apply_keep, leading_append_trailing]
    rw [TypePath.rename_plain, name]
    cases as with
    | none => rfl
    | some as =>
      have each : ∀ a ∈ as, a.rename .keep = id a := by
        intro a mem
        cases a with
        | lifetime l => rfl
        | type x =>
          have type := ih x (mem_typeArgs.2 mem)
          simp only [Arg.rename, type, id]
      simpa using List.map_congr_left each
  fn m n xs x each output := by
    have inputs : xs.map (Ty.rename .keep) = xs := by
      simpa using List.map_congr_left (g := id) each
    rw [TypePath.rename_fn, inputs]
    cases x with
    | none => rfl
    | some y => rw [Option.map_some, output y rfl]

end ImplFamilies
