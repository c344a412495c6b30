import IndexedSequence.Tree.Basic

set_option autoImplicit false

namespace IndexedSequence

variable {α : Type}

/-- All leaves lie exactly this far below the node, and its branches cache their numbers of leaves. -/
def Node.WellFormed : Nat → Node α → Prop
  | 0, leaf _ => True
  | depth + 1, two size first second =>
    first.WellFormed depth ∧ second.WellFormed depth ∧
      size.toNat = first.toList.length + second.toList.length
  | depth + 1, three size first second third =>
    first.WellFormed depth ∧ second.WellFormed depth ∧ third.WellFormed depth ∧
      size.toNat = first.toList.length + second.toList.length + third.toList.length
  | _, _ => False

def Digit.WellFormed (depth : Nat) (digit : Digit α) : Prop :=
  ∀ node ∈ digit.nodes, node.WellFormed depth

/-- The nodes of the tree's own level are well formed at this depth, each level further in is so one
deeper, and each level caches its number of leaves. -/
def Tree.WellFormed : Nat → Tree α → Prop
  | _, empty => True
  | depth, single node => node.WellFormed depth
  | depth, deep size left middle right =>
    left.WellFormed depth ∧ middle.WellFormed (depth + 1) ∧ right.WellFormed depth ∧
      size.toNat = left.toList.length + middle.toList.length + right.toList.length

instance Node.decidableWellFormed : (depth : Nat) → (node : Node α) → Decidable (node.WellFormed depth)
  | 0, leaf _ => inferInstanceAs (Decidable True)
  | depth + 1, two _ first second =>
    have := first.decidableWellFormed depth
    have := second.decidableWellFormed depth
    inferInstanceAs (Decidable (_ ∧ _ ∧ _))
  | depth + 1, three _ first second third =>
    have := first.decidableWellFormed depth
    have := second.decidableWellFormed depth
    have := third.decidableWellFormed depth
    inferInstanceAs (Decidable (_ ∧ _ ∧ _ ∧ _))
  | 0, two .. => inferInstanceAs (Decidable False)
  | 0, three .. => inferInstanceAs (Decidable False)
  | _ + 1, leaf _ => inferInstanceAs (Decidable False)

instance Digit.decidableWellFormed (depth : Nat) (digit : Digit α) : Decidable (digit.WellFormed depth) :=
  inferInstanceAs (Decidable (∀ node ∈ digit.nodes, node.WellFormed depth))

instance Tree.decidableWellFormed : (depth : Nat) → (tree : Tree α) → Decidable (tree.WellFormed depth)
  | _, empty => inferInstanceAs (Decidable True)
  | depth, single node => node.decidableWellFormed depth
  | depth, deep _ _ middle _ =>
    have := middle.decidableWellFormed (depth + 1)
    inferInstanceAs (Decidable (_ ∧ _ ∧ _ ∧ _))

/-- The nodes of the tree's own level, front to back. -/
def Tree.nodes : Tree α → List (Node α)
  | empty => []
  | single node => [node]
  | deep _ left middle right => left.nodes ++ (middle.nodes.flatMap Node.children ++ right.nodes)

end IndexedSequence
