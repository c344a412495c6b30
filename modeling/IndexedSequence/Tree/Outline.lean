import IndexedSequence.Tree.Basic

set_option autoImplicit false

namespace IndexedSequence

variable {α : Type}

/-- A branch is `SIZE(child child)`; a leaf is written by `leafText`. -/
def Node.outline (leafText : α → String) : Node α → String
  | leaf element => leafText element
  | two size first second =>
    s!"{size}(" ++ first.outline leafText ++ " " ++ second.outline leafText ++ ")"
  | three size first second third =>
    s!"{size}(" ++ first.outline leafText ++ " " ++ second.outline leafText ++ " " ++
      third.outline leafText ++ ")"

def Digit.outline (leafText : α → String) (digit : Digit α) : String :=
  " ".intercalate (digit.nodes.map (Node.outline leafText))

/-- The empty tree is `E`, a lone node `S node`, a level `DSIZE[left|middle|right]`. -/
def Tree.outline (leafText : α → String) : Tree α → String
  | empty => "E"
  | single node => "S " ++ node.outline leafText
  | deep size left middle right =>
    s!"D{size}[" ++ left.outline leafText ++ "|" ++ middle.outline leafText ++ "|" ++
      right.outline leafText ++ "]"

end IndexedSequence
