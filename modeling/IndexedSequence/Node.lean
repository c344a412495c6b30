import IndexedSequence.Arithmetic

/-!
The nodes a tree is made of: a leaf holds one element, a branch two or three nodes and the number of
elements below it. The cached size is plain data, so a node may carry a wrong one; `pair` and `triple`
compute it. `toList` is what a node means.
-/

set_option autoImplicit false

namespace IndexedSequence

inductive Node (α : Type) where
  | leaf (element : α)
  | two (size : UInt64) (first second : Node α)
  | three (size : UInt64) (first second third : Node α)
  deriving DecidableEq

namespace Node

variable {α : Type}

def size : Node α → UInt64
  | leaf _ => 1
  | two size _ _ => size
  | three size _ _ _ => size

def pair (first second : Node α) : Node α :=
  two (first.size + second.size) first second

def triple (first second third : Node α) : Node α :=
  three (first.size + second.size + third.size) first second third

def children : Node α → List (Node α)
  | leaf _ => []
  | two _ first second => [first, second]
  | three _ first second third => [first, second, third]

def element? : Node α → Option α
  | leaf element => some element
  | _ => none

def toList : Node α → List α
  | leaf element => [element]
  | two _ first second => first.toList ++ second.toList
  | three _ first second third => first.toList ++ (second.toList ++ third.toList)

def elements (nodes : List (Node α)) : List α :=
  nodes.flatMap toList

/-- The element at `index`. A leaf answers to every index; a branch passes on the index less the
cached sizes it skips. -/
def lookup [Arithmetic] : Node α → UInt64 → Except Fault α
  | leaf element, _ => .ok element
  | two _ first second, index =>
    if index < first.size then first.lookup index
    else do
      let pastFirst ← minus index first.size
      if pastFirst < second.size then second.lookup pastFirst
      else .error (.beyondNodes index)
  | three _ first second third, index =>
    if index < first.size then first.lookup index
    else do
      let pastFirst ← minus index first.size
      if pastFirst < second.size then second.lookup pastFirst
      else
        let pastSecond ← minus pastFirst second.size
        if pastSecond < third.size then third.lookup pastSecond
        else .error (.beyondNodes index)

/-- The same branches with children in reverse order and sizes counted afresh. -/
def reversed : Node α → Node α
  | leaf element => leaf element
  | two _ first second => pair second.reversed first.reversed
  | three _ first second third => triple third.reversed second.reversed first.reversed

end Node

structure Location where
  position : Nat
  offset : UInt64
  deriving DecidableEq

namespace Location

variable {α : Type} [Arithmetic]

def findIn (asked : UInt64) : List (Node α) → UInt64 → Except Fault Location
  | [], _ => .error (.beyondNodes asked)
  | node :: rest, index =>
    if index < node.size then .ok ⟨0, index⟩
    else do
      let found ← findIn asked rest (← minus index node.size)
      return { found with position := found.position + 1 }

/-- The first node whose cached sizes reach past `index`. Nodes of size zero are passed over. -/
def find (nodes : List (Node α)) (index : UInt64) : Except Fault Location :=
  findIn index nodes index

end Location

structure Cut (σ α : Type) where
  before : σ
  node : Node α
  offset : UInt64
  after : σ

namespace Cut

variable {α : Type} [Arithmetic]

def ofNodesIn (asked : UInt64) : List (Node α) → UInt64 → Except Fault (Cut (List (Node α)) α)
  | [], _ => .error (.beyondNodes asked)
  | node :: rest, index =>
    if index < node.size then .ok ⟨[], node, index, rest⟩
    else do
      let cut ← ofNodesIn asked rest (← minus index node.size)
      return { cut with before := node :: cut.before }

def ofNodes (nodes : List (Node α)) (index : UInt64) : Except Fault (Cut (List (Node α)) α) :=
  ofNodesIn index nodes index

end Cut

end IndexedSequence
