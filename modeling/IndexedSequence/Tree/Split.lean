import IndexedSequence.Tree.Build
import IndexedSequence.Tree.Ends

set_option autoImplicit false

namespace IndexedSequence.Tree

variable {α : Type} [Arithmetic]

/-- Cuts the tree around the node that holds `index`, if the cached size says there is one. -/
def split? : Tree α → UInt64 → Except Fault (Option (Cut (Tree α) α))
  | empty, _ => .ok none
  | single node, index =>
    .ok (if index < node.size then some ⟨empty, node, index, empty⟩ else none)
  | deep size left middle right, index =>
    if index < size then
      if index < left.size then do
        let cut ← left.split index
        return some ⟨build cut.before, cut.node, cut.offset, ← levelLeft cut.after middle right⟩
      else do
        let pastLeft ← minus index left.size
        if pastLeft < middle.size then
          match ← middle.split? pastLeft with
          | none => return none
          | some outer =>
            let cut ← (← Digit.ofBranch outer.node).split outer.offset
            return some ⟨← levelRight left outer.before cut.before, cut.node, cut.offset,
              ← levelLeft cut.after outer.after right⟩
        else
          let cut ← right.split (← minus pastLeft middle.size)
          return some ⟨← levelRight left middle cut.before, cut.node, cut.offset, build cut.after⟩
    else .ok none

end IndexedSequence.Tree
