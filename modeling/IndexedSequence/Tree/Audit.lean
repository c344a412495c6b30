import IndexedSequence.Tree.Basic

set_option autoImplicit false

namespace IndexedSequence

inductive Flaw where
  | unevenBranch
  | branchSize (cached counted : UInt64)
  | nodeDepth (actual expected : Nat)
  | treeSize (cached counted : UInt64)
  | deepHolding (size : UInt64)
  deriving DecidableEq

def Flaw.message : Flaw → String
  | .unevenBranch => "branch children live at different depths"
  | .branchSize cached counted => s!"cached branch size {cached} but counted {counted}"
  | .nodeDepth actual expected => s!"node at depth {actual} where depth {expected} was expected"
  | .treeSize cached counted => s!"cached tree size {cached} but counted {counted}"
  | .deepHolding size => s!"deep tree holding {size} element(s)"

def Flaw.unless (sound : Bool) (flaw : Flaw) : Except Flaw Unit :=
  if sound then .ok () else .error flaw

variable {α : Type}

/-- How far the leaves lie below the node, or the first flaw in it. -/
def Node.audit : Node α → Except Flaw Nat
  | leaf _ => .ok 0
  | two size first second => do
    let depth ← first.audit
    Flaw.unless (depth == (← second.audit)) .unevenBranch
    let counted := first.size + second.size
    Flaw.unless (counted == size) (.branchSize size counted)
    return depth + 1
  | three size first second third => do
    let depth ← first.audit
    Flaw.unless (depth == (← second.audit)) .unevenBranch
    Flaw.unless (depth == (← third.audit)) .unevenBranch
    let counted := first.size + second.size + third.size
    Flaw.unless (counted == size) (.branchSize size counted)
    return depth + 1

def Node.auditAt (depth : Nat) (node : Node α) : Except Flaw Unit := do
  let actual ← node.audit
  Flaw.unless (actual == depth) (.nodeDepth actual depth)

def Digit.auditAt (depth : Nat) (digit : Digit α) : Except Flaw Unit :=
  digit.nodes.forM (Node.auditAt depth)

/-- Checks a tree whose own nodes should have their leaves `depth` below them. -/
def Tree.audit (depth : Nat) : Tree α → Except Flaw Unit
  | empty => .ok ()
  | single node => node.auditAt depth
  | deep size left middle right => do
    left.auditAt depth
    right.auditAt depth
    middle.audit (depth + 1)
    let counted := left.size + middle.size + right.size
    Flaw.unless (counted == size) (.treeSize size counted)
    Flaw.unless (2 ≤ size) (.deepHolding size)

end IndexedSequence
