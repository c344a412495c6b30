import IndexedSequence.Grouping
import IndexedSequence.Tree.Ends

set_option autoImplicit false

namespace IndexedSequence.Tree

variable {α : Type}

/-- The nodes of `left`, then those `between`, then those of `right`. -/
def join : Tree α → List (Node α) → Tree α → Except Fault (Tree α)
  | empty, between, right => .ok (right.pushFrontAll between)
  | single node, between, empty => .ok ((single node).pushBackAll between)
  | left@(deep ..), between, empty => .ok (left.pushBackAll between)
  | single node, between, right => .ok ((right.pushFrontAll between).pushFront node)
  | left@(deep ..), between, single node => .ok ((left.pushBackAll between).pushBack node)
  | deep _ leftOuter leftMiddle leftInner, between, deep _ rightInner rightMiddle rightOuter => do
    let branches ← regroup (leftInner.nodes ++ (between ++ rightInner.nodes))
    return level leftOuter (← leftMiddle.join branches rightMiddle) rightOuter

def concat (left right : Tree α) : Except Fault (Tree α) :=
  left.join [] right

end IndexedSequence.Tree
