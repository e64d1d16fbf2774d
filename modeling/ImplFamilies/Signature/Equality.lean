import ImplFamilies.Signature.Tree

/-!
Equality of trees is decidable: two trees are walked side by side, and the walk succeeds exactly
on equal ones.
-/

namespace ImplFamilies

mutual

def Ty.same : Ty → Ty → Bool
  | .never, .never => true
  | .path p, .path q => p.same q
  | .tuple xs, .tuple ys => Ty.sameList xs ys
  | .array x m, .array y n => m == n && x.same y
  | .slice x, .slice y => x.same y
  | .pointer m x, .pointer n y => m == n && x.same y
  | .reference l m x, .reference k n y => l == k && m == n && x.same y
  | .single o b, .single q c => o == q && b.same c
  | .bounded o bs, .bounded q cs => o == q && Bound.sameList bs cs
  | _, _ => false

def Ty.sameList : List Ty → List Ty → Bool
  | [], [] => true
  | x :: xs, y :: ys => x.same y && Ty.sameList xs ys
  | _, _ => false

def TypePath.same : TypePath → TypePath → Bool
  | .plain s none, .plain t none => s == t
  | .plain s (some as), .plain t (some bs) => s == t && Arg.sameList as bs
  | .fn m n xs none, .fn k l ys none => m == k && n == l && Ty.sameList xs ys
  | .fn m n xs (some x), .fn k l ys (some y) =>
      m == k && n == l && Ty.sameList xs ys && x.same y
  | _, _ => false

def Arg.same : Arg → Arg → Bool
  | .lifetime l, .lifetime k => l == k
  | .type x, .type y => x.same y
  | _, _ => false

def Arg.sameList : List Arg → List Arg → Bool
  | [], [] => true
  | a :: as, b :: bs => a.same b && Arg.sameList as bs
  | _, _ => false

def Bound.same : Bound → Bound → Bool
  | .lifetime l, .lifetime k => l == k
  | .trait b, .trait c => b.same c
  | _, _ => false

def Bound.sameList : List Bound → List Bound → Bool
  | [], [] => true
  | b :: bs, c :: cs => b.same c && Bound.sameList bs cs
  | _, _ => false

def TraitBound.same : TraitBound → TraitBound → Bool
  | .mk o p, .mk q r => o == q && p.same r

end

mutual

theorem Ty.same_iff : (a b : Ty) → (a.same b = true ↔ a = b)
  | .never, b => by cases b <;> simp [Ty.same]
  | .path p, b => by cases b <;> simp [Ty.same, TypePath.same_iff p]
  | .tuple xs, b => by cases b <;> simp [Ty.same, Ty.sameList_iff xs]
  | .array x m, b => by cases b <;> simp [Ty.same, Ty.same_iff x, and_comm]
  | .slice x, b => by cases b <;> simp [Ty.same, Ty.same_iff x]
  | .pointer m x, b => by cases b <;> simp [Ty.same, Ty.same_iff x]
  | .reference l m x, b => by cases b <;> simp [Ty.same, Ty.same_iff x, and_assoc]
  | .single o p, b => by cases b <;> simp [Ty.same, TraitBound.same_iff p]
  | .bounded o bs, b => by cases b <;> simp [Ty.same, Bound.sameList_iff bs]

theorem Ty.sameList_iff : (xs ys : List Ty) → (Ty.sameList xs ys = true ↔ xs = ys)
  | [], ys => by cases ys <;> simp [Ty.sameList]
  | x :: xs, ys => by cases ys <;> simp [Ty.sameList, Ty.same_iff x, Ty.sameList_iff xs]

theorem TypePath.same_iff : (p q : TypePath) → (p.same q = true ↔ p = q)
  | .plain s none, q => by rcases q with ⟨t, _ | bs⟩ | ⟨k, l, ys, _ | y⟩ <;> simp [TypePath.same]
  | .plain s (some as), q => by
      rcases q with ⟨t, _ | bs⟩ | ⟨k, l, ys, _ | y⟩ <;>
        simp [TypePath.same, Arg.sameList_iff as]
  | .fn m n xs none, q => by
      rcases q with ⟨t, _ | bs⟩ | ⟨k, l, ys, _ | y⟩ <;>
        simp [TypePath.same, Ty.sameList_iff xs, and_assoc]
  | .fn m n xs (some x), q => by
      rcases q with ⟨t, _ | bs⟩ | ⟨k, l, ys, _ | y⟩ <;>
        simp [TypePath.same, Ty.sameList_iff xs, Ty.same_iff x, and_assoc]

theorem Arg.same_iff : (a b : Arg) → (a.same b = true ↔ a = b)
  | .lifetime l, b => by cases b <;> simp [Arg.same]
  | .type x, b => by cases b <;> simp [Arg.same, Ty.same_iff x]

theorem Arg.sameList_iff : (as bs : List Arg) → (Arg.sameList as bs = true ↔ as = bs)
  | [], bs => by cases bs <;> simp [Arg.sameList]
  | a :: as, bs => by cases bs <;> simp [Arg.sameList, Arg.same_iff a, Arg.sameList_iff as]

theorem Bound.same_iff : (a b : Bound) → (a.same b = true ↔ a = b)
  | .lifetime l, b => by cases b <;> simp [Bound.same]
  | .trait p, b => by cases b <;> simp [Bound.same, TraitBound.same_iff p]

theorem Bound.sameList_iff : (as bs : List Bound) → (Bound.sameList as bs = true ↔ as = bs)
  | [], bs => by cases bs <;> simp [Bound.sameList]
  | a :: as, bs => by cases bs <;> simp [Bound.sameList, Bound.same_iff a, Bound.sameList_iff as]

theorem TraitBound.same_iff : (a b : TraitBound) → (a.same b = true ↔ a = b)
  | .mk o p, .mk q r => by simp [TraitBound.same, TypePath.same_iff p]

end

instance : DecidableEq Ty := fun a b => decidable_of_iff _ (Ty.same_iff a b)
instance : DecidableEq TypePath := fun a b => decidable_of_iff _ (TypePath.same_iff a b)
instance : DecidableEq Arg := fun a b => decidable_of_iff _ (Arg.same_iff a b)
instance : DecidableEq Bound := fun a b => decidable_of_iff _ (Bound.same_iff a b)
instance : DecidableEq TraitBound := fun a b => decidable_of_iff _ (TraitBound.same_iff a b)

deriving instance DecidableEq for Param
deriving instance DecidableEq for Signature

end ImplFamilies
