import IndexedSequence.Rendering.Scalars
import IndexedSequence.Tree.Basic

set_option autoImplicit false

namespace IndexedSequence

variable {α : Type} [Rendered α]

def Node.render : Node α → Rendering
  | leaf element => .tuple "Leaf" [rendering element]
  | two size first second =>
    .record "Branch2"
      [("size", rendering size), ("children", .list [first.render, second.render])] false
  | three size first second third =>
    .record "Branch3"
      [("size", rendering size), ("children", .list [first.render, second.render, third.render])]
      false

instance : Rendered (Node α) := ⟨Node.render⟩

def Digit.name : Digit α → String
  | one .. => "One"
  | two .. => "Two"
  | three .. => "Three"
  | four .. => "Four"

instance : Rendered (Digit α) := ⟨fun digit => .tuple digit.name (digit.nodes.map rendering)⟩

def Tree.render : Tree α → Rendering
  | empty => .atom "Empty"
  | single node => .tuple "Single" [rendering node]
  | deep size left middle right =>
    .record "Deep"
      [("left", rendering left), ("middle", middle.render), ("right", rendering right),
        ("size", rendering size)] false

instance : Rendered (Tree α) := ⟨Tree.render⟩

end IndexedSequence
