import ImplFamilies.Family.Clustering

/-!
Folding a document: every group with more than one member is hidden behind its lead. The document
is known only by a node for each signature it lists, and by the changes that are asked of it.
-/

namespace ImplFamilies

/-- A control right after the anchor that shows the hidden nodes again. -/
structure Fold (ν : Type) where
  anchor : ν
  hidden : List ν
deriving DecidableEq, Repr

/-- A change of the document. -/
inductive Change (ν : Type)
  | hide (node : ν)
  | toggle (fold : Fold ν)
deriving DecidableEq, Repr

namespace Fold

variable {ν : Type}

/-- The fold of a group; a lone member is left alone. -/
def ofGroup? (nodes : List ν) (g : Group) : Option (Fold ν) :=
  if g.isSingleton then none
  else
    match g.lead? with
    | none => none
    | some lead =>
      nodes[lead.index]?.map fun anchor =>
        ⟨anchor, g.others.filterMap fun member => nodes[member.index]?⟩

/-- First the nodes are hidden in order, then the control is put in. -/
def changes (f : Fold ν) : List (Change ν) :=
  f.hidden.map Change.hide ++ [.toggle f]

end Fold

/-- A pass over a document: the nodes and the groups so far, and all changes asked so far. -/
structure FoldingPass (ν : Type) where
  nodes : List ν
  clustering : Clustering
  changes : List (Change ν)

namespace FoldingPass

variable {ν : Type}

def start : FoldingPass ν := ⟨[], .empty, []⟩

/-- Takes in candidates up to the first that is refused. -/
def take (pass : FoldingPass ν) : List (ν × String) → FoldingPass ν × Except Refusal Unit
  | [] => (pass, .ok ())
  | (node, text) :: candidates =>
    match pass.clustering.push text with
    | (clustering, .ok _) => take ⟨pass.nodes ++ [node], clustering, pass.changes⟩ candidates
    | (clustering, .error refusal) =>
      (⟨pass.nodes ++ [node], clustering, pass.changes⟩, .error refusal)

/-- Hides one group behind its lead. -/
def fold (pass : FoldingPass ν) (g : Group) : FoldingPass ν :=
  match Fold.ofGroup? pass.nodes g with
  | none => pass
  | some f => ⟨pass.nodes, pass.clustering, pass.changes ++ f.changes⟩

/-- The whole pass, and beside it whether it came to its end. -/
def run (candidates : List (ν × String)) : FoldingPass ν × Except Refusal Unit :=
  match start.take candidates with
  | (pass, .error refusal) => (pass, .error refusal)
  | (pass, .ok ()) => (pass.clustering.groups.foldl fold pass, .ok ())

end FoldingPass

/-- What folding gives: the groups, and the changes in the order they are to be made. -/
structure Folding (ν : Type) where
  groups : List Group
  changes : List (Change ν)

/-- Folds the signatures that a document lists; a text that is refused is the answer. -/
def Folding.ofCandidates {ν : Type} (candidates : List (ν × String)) :
    Except Refusal (Folding ν) :=
  match FoldingPass.run candidates with
  | (_, .error refusal) => .error refusal
  | (pass, .ok ()) => .ok ⟨pass.clustering.groups, pass.changes⟩

end ImplFamilies
