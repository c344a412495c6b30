import IndexedSequence.Grouping

/-!
Sizes with every sum and every difference checked. What is called checked does as its namesake does, and
gives a fault where a sum would wrap or a difference be negative. This is so for the sizes of nodes and
digits, and what is grouped into branches.
-/

set_option autoImplicit false

namespace IndexedSequence

def plus (a b : UInt64) : Except Fault UInt64 :=
  if a.toNat + b.toNat < UInt64.size then .ok (a + b) else .error .overflowingSum

def minusChecked (a b : UInt64) : Except Fault UInt64 :=
  Arithmetic.checked.minus a b

variable {α : Type}

namespace Node

def pairChecked (first second : Node α) : Except Fault (Node α) := do
  return two (← plus first.size second.size) first second

def tripleChecked (first second third : Node α) : Except Fault (Node α) := do
  return three (← plus (← plus first.size second.size) third.size) first second third

def lookupChecked (node : Node α) (index : UInt64) : Except Fault α :=
  @lookup α .checked node index

def reversedChecked : Node α → Except Fault (Node α)
  | leaf element => .ok (leaf element)
  | two _ first second => do pairChecked (← second.reversedChecked) (← first.reversedChecked)
  | three _ first second third => do
    tripleChecked (← third.reversedChecked) (← second.reversedChecked) (← first.reversedChecked)

def sumChecked : List (Node α) → UInt64 → Except Fault UInt64
  | [], total => .ok total
  | node :: rest, total => do sumChecked rest (← plus total node.size)

end Node

namespace Digit

def sizeChecked (digit : Digit α) : Except Fault UInt64 :=
  Node.sumChecked digit.nodes 0

def lookupChecked (digit : Digit α) (index : UInt64) : Except Fault α :=
  @lookup α .checked digit index

def splitChecked (digit : Digit α) (index : UInt64) : Except Fault (Cut (List (Node α)) α) :=
  @split α .checked digit index

def reversedChecked : Digit α → Except Fault (Digit α)
  | one a => do return one (← a.reversedChecked)
  | two a b => do return two (← b.reversedChecked) (← a.reversedChecked)
  | three a b c => do
    return three (← c.reversedChecked) (← b.reversedChecked) (← a.reversedChecked)
  | four a b c d => do
    return four (← d.reversedChecked) (← c.reversedChecked) (← b.reversedChecked)
      (← a.reversedChecked)

end Digit

namespace Buffer

def pushChecked (buffer : Buffer α) (node : Node α) : Except Fault (Buffer α × Option (Node α)) :=
  match buffer.pending with
  | none => .ok (⟨some (.one node)⟩, none)
  | some (.one a) => .ok (⟨some (.two a node)⟩, none)
  | some (.two a b) => .ok (⟨some (.three a b node)⟩, none)
  | some (.three a b c) => .ok (⟨some (.four a b c node)⟩, none)
  | some (.four a b c d) => do return (⟨some (.two d node)⟩, some (← Node.tripleChecked a b c))

def pushAllChecked (buffer : Buffer α) (emitted : List (Node α)) :
    List (Node α) → Except Fault (Buffer α × List (Node α))
  | [] => .ok (buffer, emitted)
  | node :: rest => do
    match ← buffer.pushChecked node with
    | (grown, none) => grown.pushAllChecked emitted rest
    | (grown, some branch) => grown.pushAllChecked (branch :: emitted) rest

def foldChecked (buffer : Buffer α) (nodes : List (Node α)) :
    Except Fault (Buffer α × List (Node α)) := do
  let pushed ← buffer.pushAllChecked [] nodes
  return (pushed.1, pushed.2.reverse)

def flushChecked (buffer : Buffer α) : Except Fault (List (Node α)) :=
  match buffer.pending with
  | none => .ok []
  | some (.one _) => .error .loneNode
  | some (.two a b) => do return [← Node.pairChecked a b]
  | some (.three a b c) => do return [← Node.tripleChecked a b c]
  | some (.four a b c d) => do return [← Node.pairChecked a b, ← Node.pairChecked c d]

theorem length_le_of_pushAllChecked {buffer pushed : Buffer α} {emitted given nodes : List (Node α)}
    (ran : buffer.pushAllChecked emitted nodes = .ok (pushed, given)) :
    given.length ≤ emitted.length + nodes.length := by
  induction nodes generalizing buffer emitted with
  | nil =>
    cases ran
    exact Nat.le_refl _
  | cons node rest ih =>
    rw [pushAllChecked] at ran
    cases step : buffer.pushChecked node with
    | error fault =>
      rw [step] at ran
      cases ran
    | ok taken =>
      rw [step] at ran
      obtain ⟨grown, _ | branch⟩ := taken
      · have := ih ran
        rw [List.length_cons]
        omega
      · have := ih ran
        rw [List.length_cons] at this ⊢
        omega

theorem length_le_of_foldChecked {buffer pushed : Buffer α} {given nodes : List (Node α)}
    (ran : buffer.foldChecked nodes = .ok (pushed, given)) : given.length ≤ nodes.length := by
  rw [foldChecked] at ran
  cases folded : buffer.pushAllChecked [] nodes with
  | error fault =>
    rw [folded] at ran
    cases ran
  | ok pair =>
    rw [folded] at ran
    cases ran
    have := length_le_of_pushAllChecked folded
    simpa using this

end Buffer

def regroupChecked (nodes : List (Node α)) : Except Fault (List (Node α)) := do
  let (buffer, emitted) ← Buffer.empty.foldChecked nodes
  (emitted ++ ·) <$> buffer.flushChecked

end IndexedSequence
