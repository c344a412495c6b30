import IndexedSequence.Digit

/-!
The tree: a spine of levels, each with a digit at either end and the rest of its nodes grouped into
branches one level further in. A level caches the number of elements below it. One type serves every
level, so that a node's own height says which level it belongs to; `toList` is what a tree means.
-/

set_option autoImplicit false

namespace IndexedSequence

inductive Tree (α : Type) where
  | empty
  | single (node : Node α)
  | deep (size : UInt64) (left : Digit α) (middle : Tree α) (right : Digit α)
  deriving DecidableEq

namespace Tree

variable {α : Type}

def size : Tree α → UInt64
  | empty => 0
  | single node => node.size
  | deep size _ _ _ => size

def isEmpty : Tree α → Bool
  | empty => true
  | _ => false

def level (left : Digit α) (middle : Tree α) (right : Digit α) : Tree α :=
  deep (left.size + middle.size + right.size) left middle right

def ofDigit : Digit α → Tree α
  | .one a => single a
  | .two a b => level (.one a) empty (.one b)
  | .three a b c => level (.two a b) empty (.one c)
  | .four a b c d => level (.two a b) empty (.two c d)

def toList : Tree α → List α
  | empty => []
  | single node => node.toList
  | deep _ left middle right => left.toList ++ (middle.toList ++ right.toList)

/-- The number of levels with two digits. -/
def height : Tree α → Nat
  | deep _ _ middle _ => middle.height + 1
  | _ => 0

/-- The tree read from behind. A level keeps its cached size; branches count theirs afresh. -/
def reversed : Tree α → Tree α
  | empty => empty
  | single node => single node.reversed
  | deep size left middle right => deep size right.reversed middle.reversed left.reversed

end Tree

end IndexedSequence
