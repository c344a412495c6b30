import IndexedSequence.Tree.Basic

set_option autoImplicit false

namespace IndexedSequence

variable {α : Type}

namespace Node

/-- The number of edges down to each leaf, front to back. -/
def leafDepths : Node α → List Nat
  | leaf _ => [0]
  | two _ first second => (first.leafDepths ++ second.leafDepths).map (· + 1)
  | three _ first second third =>
    (first.leafDepths ++ (second.leafDepths ++ third.leafDepths)).map (· + 1)

/-- The branches in a node, each behind those below it. -/
def branches : Node α → List (Node α)
  | leaf _ => []
  | two size first second => first.branches ++ (second.branches ++ [two size first second])
  | three size first second third =>
    first.branches ++ (second.branches ++ (third.branches ++ [three size first second third]))

section

variable {size : UInt64} {first second third : Node α} {p : Node α → Prop}

theorem forall_branches_two : (∀ branch ∈ (two size first second).branches, p branch) ↔
    (∀ branch ∈ first.branches, p branch) ∧ (∀ branch ∈ second.branches, p branch) ∧
      p (two size first second) := by
  rw [branches, List.forall_mem_append, List.forall_mem_append, List.forall_mem_singleton]

theorem forall_branches_three : (∀ branch ∈ (three size first second third).branches, p branch) ↔
    (∀ branch ∈ first.branches, p branch) ∧ (∀ branch ∈ second.branches, p branch) ∧
      (∀ branch ∈ third.branches, p branch) ∧ p (three size first second third) := by
  rw [branches, List.forall_mem_append, List.forall_mem_append, List.forall_mem_append,
    List.forall_mem_singleton]

end

def cachedSum (nodes : List (Node α)) : Nat :=
  nodes.foldr (fun node sum => node.size.toNat + sum) 0

def SumsFit (node : Node α) : Prop :=
  ∀ branch ∈ node.branches, cachedSum branch.children < UInt64.size

theorem sumsFit_two {size : UInt64} {first second : Node α} : (two size first second).SumsFit ↔
    first.SumsFit ∧ second.SumsFit ∧ first.size.toNat + second.size.toNat < UInt64.size :=
  forall_branches_two

theorem sumsFit_three {size : UInt64} {first second third : Node α} :
    (three size first second third).SumsFit ↔ first.SumsFit ∧ second.SumsFit ∧ third.SumsFit ∧
      first.size.toNat + (second.size.toNat + third.size.toNat) < UInt64.size :=
  forall_branches_three

instance (node : Node α) : Decidable node.SumsFit :=
  inferInstanceAs (Decidable (∀ branch ∈ node.branches, _))

end Node

def Digit.SumsFit (digit : Digit α) : Prop :=
  ∀ node ∈ digit.nodes, node.SumsFit

instance (digit : Digit α) : Decidable digit.SumsFit :=
  inferInstanceAs (Decidable (∀ node ∈ digit.nodes, _))

namespace Tree

/-- The levels with two digits, the tree's own first. -/
def levels : Tree α → List (Tree α)
  | deep size left middle right => deep size left middle right :: middle.levels
  | _ => []

/-- Wherever sizes are added up to check a cached one, their sum is below 2^64. -/
def SumsFit : Tree α → Prop
  | empty => True
  | single node => node.SumsFit
  | deep _ left middle right =>
    left.SumsFit ∧ middle.SumsFit ∧ right.SumsFit ∧
      Node.cachedSum left.nodes + middle.size.toNat + Node.cachedSum right.nodes < UInt64.size

instance decidableSumsFit : (tree : Tree α) → Decidable tree.SumsFit
  | empty => inferInstanceAs (Decidable True)
  | single node => inferInstanceAs (Decidable node.SumsFit)
  | deep _ _ middle _ =>
    have := middle.decidableSumsFit
    inferInstanceAs (Decidable (_ ∧ _ ∧ _ ∧ _))

end Tree

end IndexedSequence
