import IndexedSequence.Tree.Basic

/-!
Walking a tree from both ends without taking it apart. Each end keeps a stack of what is left to unfold;
the two know of each other only by the count of elements still to come, and the walk is over when that
reaches zero, which is when they meet.
-/

set_option autoImplicit false

namespace IndexedSequence

inductive End where
  | front
  | back
  deriving DecidableEq

namespace End

def opposite : End → End
  | front => back
  | back => front

/-- A run listed front to back, listed as it is met from this end. -/
def arrange {α : Type} : End → List α → List α
  | front, run => run
  | back, run => run.reverse

end End

variable {α : Type}

/-- The size of a node as a term, whatever it caches. -/
def Node.weight : Node α → Nat
  | leaf _ => 1
  | two _ first second => first.weight + second.weight + 1
  | three _ first second third => first.weight + second.weight + third.weight + 1

def Digit.weight : Digit α → Nat
  | one a => a.weight
  | two a b => a.weight + b.weight
  | three a b c => a.weight + b.weight + c.weight
  | four a b c d => a.weight + b.weight + c.weight + d.weight

def Tree.weight : Tree α → Nat
  | empty => 1
  | single node => node.weight + 1
  | deep _ left middle right => left.weight + middle.weight + right.weight + 1

inductive Frame (α : Type) where
  | tree (tree : Tree α)
  | node (node : Node α)

namespace Frame

def weight : Frame α → Nat
  | tree t => t.weight
  | node n => n.weight

/-- What a frame unfolds to, front to back. A leaf holds no further frames. -/
def parts : Frame α → List (Frame α)
  | tree .empty => []
  | tree (.single n) => [node n]
  | tree (.deep _ left middle right) =>
    left.nodes.map node ++ (tree middle :: right.nodes.map node)
  | node n => n.children.map node

def toList : Frame α → List α
  | tree t => t.toList
  | node n => n.toList

def stackWeight : List (Frame α) → Nat
  | [] => 0
  | frame :: rest => frame.weight + stackWeight rest

theorem stackWeight_append (upper lower : List (Frame α)) :
    stackWeight (upper ++ lower) = stackWeight upper + stackWeight lower := by
  induction upper with
  | nil => simp [stackWeight]
  | cons frame rest ih =>
    calc
      stackWeight (frame :: rest ++ lower) = frame.weight + (stackWeight rest + stackWeight lower) := by
        rw [List.cons_append, stackWeight, ih]
      _ = stackWeight (frame :: rest) + stackWeight lower := by rw [stackWeight, Nat.add_assoc]

theorem stackWeight_reverse (stack : List (Frame α)) :
    stackWeight stack.reverse = stackWeight stack := by
  induction stack with
  | nil => rfl
  | cons frame rest ih =>
    calc
      stackWeight (frame :: rest).reverse = stackWeight rest.reverse + stackWeight [frame] := by
        rw [List.reverse_cons, stackWeight_append]
      _ = stackWeight rest + frame.weight := by rw [ih, stackWeight, stackWeight, Nat.add_zero]
      _ = stackWeight (frame :: rest) := by rw [stackWeight, Nat.add_comm]

theorem stackWeight_arrange (e : End) (run : List (Frame α)) :
    stackWeight (e.arrange run) = stackWeight run := by
  cases e with
  | front => rfl
  | back => exact stackWeight_reverse run

theorem stackWeight_digit (digit : Digit α) :
    stackWeight (digit.nodes.map node) = digit.weight := by
  cases digit <;> simp [Digit.nodes, Digit.weight, stackWeight, weight, Nat.add_assoc]

theorem stackWeight_children_lt (n : Node α) : stackWeight (n.children.map node) < n.weight := by
  cases n with
  | leaf element => simp [Node.children, Node.weight, stackWeight]
  | two size first second =>
    simp only [Node.children, List.map_cons, List.map_nil, stackWeight, weight, Node.weight]
    omega
  | three size first second third =>
    simp only [Node.children, List.map_cons, List.map_nil, stackWeight, weight, Node.weight]
    omega

theorem stackWeight_parts_lt (frame : Frame α) : stackWeight frame.parts < frame.weight := by
  cases frame with
  | tree t =>
    cases t with
    | empty => simp [parts, stackWeight, weight, Tree.weight]
    | single n => simp [parts, stackWeight, weight, Tree.weight]
    | deep size left middle right =>
      rw [parts, stackWeight_append, stackWeight, stackWeight_digit, stackWeight_digit, weight, weight,
        Tree.weight]
      omega
  | node n => exact stackWeight_children_lt n

end Frame

/-- Unfolds a stack, whose top is what this end meets first, down to its next element. -/
def advance (e : End) : List (Frame α) → Option (α × List (Frame α))
  | [] => none
  | .node (.leaf element) :: rest => some (element, rest)
  | frame :: rest => advance e (e.arrange frame.parts ++ rest)
termination_by stack => Frame.stackWeight stack
decreasing_by
  rw [Frame.stackWeight_append, Frame.stackWeight_arrange, Frame.stackWeight]
  have := frame.stackWeight_parts_lt
  omega

/-- A walk: a stack for either end of the tree, how many elements are still to come, and the end that
the walk starts from. -/
structure Walk (α : Type) where
  front : List (Frame α)
  back : List (Frame α)
  remaining : UInt64
  near : End

namespace Walk

def ofTree (tree : Tree α) (near : End) : Walk α :=
  ⟨[.tree tree], [.tree tree], tree.size, near⟩

def takeFrom (walk : Walk α) : End → Option (α × Walk α)
  | .front =>
    if walk.remaining = 0 then none
    else (advance .front walk.front).map fun (element, rest) =>
      (element, { walk with front := rest, remaining := walk.remaining - 1 })
  | .back =>
    if walk.remaining = 0 then none
    else (advance .back walk.back).map fun (element, rest) =>
      (element, { walk with back := rest, remaining := walk.remaining - 1 })

def next (walk : Walk α) : Option (α × Walk α) :=
  walk.takeFrom walk.near

theorem remaining_takeFrom_lt {walk rest : Walk α} {e : End} {element : α}
    (h : walk.takeFrom e = some (element, rest)) : rest.remaining.toNat < walk.remaining.toNat := by
  have positive : walk.remaining ≠ 0 → (walk.remaining - 1).toNat < walk.remaining.toNat := by
    intro nonzero
    have : walk.remaining.toNat ≠ 0 := fun zero => nonzero (UInt64.toNat_inj.mp (by simpa using zero))
    rw [UInt64.toNat_sub_of_le]
    · simp; omega
    · rw [UInt64.le_iff_toNat_le]; simp; omega
  cases e <;>
    · simp only [takeFrom] at h
      split at h
      · simp at h
      · next nonzero =>
        obtain ⟨⟨_, _⟩, _, heq⟩ := Option.map_eq_some_iff.mp h
        simp only [Prod.mk.injEq] at heq
        rw [← heq.2]
        exact positive nonzero

def elementsOnto (walk : Walk α) (read : List α) : List α :=
  match _h : walk.next with
  | none => read.reverse
  | some (element, rest) => rest.elementsOnto (element :: read)
termination_by walk.remaining.toNat
decreasing_by exact remaining_takeFrom_lt _h

def elements (walk : Walk α) : List α :=
  walk.elementsOnto []

end Walk

end IndexedSequence
