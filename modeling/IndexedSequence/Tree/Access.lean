import IndexedSequence.Tree.Basic

set_option autoImplicit false

namespace IndexedSequence.Tree

variable {α : Type} [Arithmetic]

def get? : Tree α → UInt64 → Except Fault (Option α)
  | empty, _ => .ok none
  | single node, index =>
    if index < node.size then some <$> node.lookup index else .ok none
  | deep size left middle right, index =>
    if index < size then
      if index < left.size then some <$> left.lookup index
      else do
        let pastLeft ← minus index left.size
        if pastLeft < middle.size then middle.get? pastLeft
        else some <$> right.lookup (← minus pastLeft middle.size)
    else .ok none

end IndexedSequence.Tree
