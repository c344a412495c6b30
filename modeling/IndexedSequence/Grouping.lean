import IndexedSequence.Digit

/-!
Grouping a stream of nodes into branches of the level above. A buffer keeps the last one to four nodes
and emits a ternary branch only when a fifth arrives, so that what stays behind is always enough for a
digit, or for one or two branches of its own.
-/

set_option autoImplicit false

namespace IndexedSequence

/-- The nodes not yet grouped: none, or as many as a digit holds. -/
structure Buffer (α : Type) where
  pending : Option (Digit α)

namespace Buffer

variable {α : Type}

def empty : Buffer α := ⟨none⟩

def nodes (buffer : Buffer α) : List (Node α) :=
  match buffer.pending with
  | none => []
  | some digit => digit.nodes

/-- Takes one node in. A full buffer groups its three oldest nodes and gives the branch out. -/
def push (buffer : Buffer α) (node : Node α) : Buffer α × Option (Node α) :=
  match buffer.pending with
  | none => (⟨some (.one node)⟩, none)
  | some (.one a) => (⟨some (.two a node)⟩, none)
  | some (.two a b) => (⟨some (.three a b node)⟩, none)
  | some (.three a b c) => (⟨some (.four a b c node)⟩, none)
  | some (.four a b c d) => (⟨some (.two d node)⟩, some (.triple a b c))

def pushAll (buffer : Buffer α) (emitted : List (Node α)) : List (Node α) → Buffer α × List (Node α)
  | [] => (buffer, emitted)
  | node :: rest =>
    match buffer.push node with
    | (grown, none) => grown.pushAll emitted rest
    | (grown, some branch) => grown.pushAll (branch :: emitted) rest

/-- The buffer after a stream of nodes, and the branches it gave out in order. -/
def fold (buffer : Buffer α) (nodes : List (Node α)) : Buffer α × List (Node α) :=
  let pushed := buffer.pushAll [] nodes
  (pushed.1, pushed.2.reverse)

/-- Groups what is pending. One node alone makes no branch. -/
def flush (buffer : Buffer α) : Except Fault (List (Node α)) :=
  match buffer.pending with
  | none => .ok []
  | some (.one _) => .error .loneNode
  | some (.two a b) => .ok [.pair a b]
  | some (.three a b c) => .ok [.triple a b c]
  | some (.four a b c d) => .ok [.pair a b, .pair c d]

theorem length_pushAll_le (buffer : Buffer α) (emitted nodes : List (Node α)) :
    (buffer.pushAll emitted nodes).2.length ≤ emitted.length + nodes.length := by
  induction nodes generalizing buffer emitted with
  | nil => simp [pushAll]
  | cons node rest ih =>
    simp only [pushAll, List.length_cons]
    split
    · exact Nat.le_trans (ih ..) (by omega)
    · exact Nat.le_trans (ih ..) (by simp only [List.length_cons]; omega)

theorem length_fold_le (buffer : Buffer α) (nodes : List (Node α)) :
    (buffer.fold nodes).2.length ≤ nodes.length := by
  simpa [fold] using buffer.length_pushAll_le [] nodes

end Buffer

def regroup {α : Type} (nodes : List (Node α)) : Except Fault (List (Node α)) :=
  let (buffer, emitted) := Buffer.empty.fold nodes
  buffer.flush.map (emitted ++ ·)

end IndexedSequence
