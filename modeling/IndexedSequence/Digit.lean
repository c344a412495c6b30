import IndexedSequence.Node

set_option autoImplicit false

namespace IndexedSequence

/-- The one to four nodes at either end of a level. -/
inductive Digit (α : Type) where
  | one (a : Node α)
  | two (a b : Node α)
  | three (a b c : Node α)
  | four (a b c d : Node α)
  deriving DecidableEq

namespace Digit

variable {α : Type}

def nodes : Digit α → List (Node α)
  | one a => [a]
  | two a b => [a, b]
  | three a b c => [a, b, c]
  | four a b c d => [a, b, c, d]

def ofNodes? : List (Node α) → Option (Digit α)
  | [a] => some (one a)
  | [a, b] => some (two a b)
  | [a, b, c] => some (three a b c)
  | [a, b, c, d] => some (four a b c d)
  | _ => none

def ofBranch : Node α → Except Fault (Digit α)
  | .leaf _ => .error .leafUnpacked
  | .two _ a b => .ok (two a b)
  | .three _ a b c => .ok (three a b c)

def arity (digit : Digit α) : Nat :=
  digit.nodes.length

def size : Digit α → UInt64
  | one a => a.size
  | two a b => a.size + b.size
  | three a b c => a.size + b.size + c.size
  | four a b c d => a.size + b.size + c.size + d.size

def toList (digit : Digit α) : List α :=
  Node.elements digit.nodes

def get? (digit : Digit α) (position : Nat) : Option (Node α) :=
  digit.nodes[position]?

def head : Digit α → Node α
  | one a => a
  | two a _ => a
  | three a _ _ => a
  | four a _ _ _ => a

def last : Digit α → Node α
  | one a => a
  | two _ b => b
  | three _ _ c => c
  | four _ _ _ d => d

def prepend? : Digit α → Node α → Option (Digit α)
  | one a, node => some (two node a)
  | two a b, node => some (three node a b)
  | three a b c, node => some (four node a b c)
  | four .., _ => none

def append? : Digit α → Node α → Option (Digit α)
  | one a, node => some (two a node)
  | two a b, node => some (three a b node)
  | three a b c, node => some (four a b c node)
  | four .., _ => none

def popFront : Digit α → Node α × Option (Digit α)
  | one a => (a, none)
  | two a b => (a, some (one b))
  | three a b c => (a, some (two b c))
  | four a b c d => (a, some (three b c d))

def popBack : Digit α → Node α × Option (Digit α)
  | one a => (a, none)
  | two a b => (b, some (one a))
  | three a b c => (c, some (two a b))
  | four a b c d => (d, some (three a b c))

/-- Looks `index` up in a run of nodes that stands at the end of a digit asked for `asked`. -/
def lookupIn [Arithmetic] (asked : UInt64) : List (Node α) → UInt64 → Except Fault α
  | [], _ => .error (.beyondDigit asked)
  | node :: rest, index =>
    if index < node.size then node.lookup index
    else do lookupIn asked rest (← minus index node.size)

def lookup [Arithmetic] (digit : Digit α) (index : UInt64) : Except Fault α :=
  lookupIn index digit.nodes index

def split [Arithmetic] (digit : Digit α) (index : UInt64) : Except Fault (Cut (List (Node α)) α) :=
  Cut.ofNodes digit.nodes index

def reversed : Digit α → Digit α
  | one a => one a.reversed
  | two a b => two b.reversed a.reversed
  | three a b c => three c.reversed b.reversed a.reversed
  | four a b c d => four d.reversed c.reversed b.reversed a.reversed

end Digit

end IndexedSequence
