import IndexedSequence.Tree.Basic

set_option autoImplicit false

namespace IndexedSequence.Tree

variable {α : Type}

def pushFront : Tree α → Node α → Tree α
  | empty, node => single node
  | single a, node => deep (node.size + a.size) (.one node) empty (.one a)
  | deep size (.one a) middle right, node => deep (size + node.size) (.two node a) middle right
  | deep size (.two a b) middle right, node => deep (size + node.size) (.three node a b) middle right
  | deep size (.three a b c) middle right, node =>
    deep (size + node.size) (.four node a b c) middle right
  | deep size (.four a b c d) middle right, node =>
    deep (size + node.size) (.two node a) (middle.pushFront (.triple b c d)) right

def pushBack : Tree α → Node α → Tree α
  | empty, node => single node
  | single a, node => deep (a.size + node.size) (.one a) empty (.one node)
  | deep size left middle (.one a), node => deep (size + node.size) left middle (.two a node)
  | deep size left middle (.two a b), node => deep (size + node.size) left middle (.three a b node)
  | deep size left middle (.three a b c), node =>
    deep (size + node.size) left middle (.four a b c node)
  | deep size left middle (.four a b c d), node =>
    deep (size + node.size) left (middle.pushBack (.triple a b c)) (.two d node)

/-- Pushes a run of nodes in front, so that it stands there in its own order. -/
def pushFrontAll (tree : Tree α) (nodes : List (Node α)) : Tree α :=
  nodes.foldr (fun node grown => grown.pushFront node) tree

def pushBackAll (tree : Tree α) (nodes : List (Node α)) : Tree α :=
  nodes.foldl pushBack tree

/-- A level that has lost its left digit: the first branch of the middle takes its place. -/
def refillLeft (popped : Option (Node α × Tree α)) (right : Digit α) : Except Fault (Tree α) :=
  match popped with
  | none => .ok (ofDigit right)
  | some (branch, middle) => do return level (← Digit.ofBranch branch) middle right

def refillRight (left : Digit α) (popped : Option (Node α × Tree α)) : Except Fault (Tree α) :=
  match popped with
  | none => .ok (ofDigit left)
  | some (branch, middle) => do return level left middle (← Digit.ofBranch branch)

section

variable [Arithmetic]

def popFront : Tree α → Except Fault (Option (Node α × Tree α))
  | empty => .ok none
  | single node => .ok (some (node, empty))
  | deep size left middle right =>
    match left.popFront with
    | (node, some rest) => do return some (node, deep (← minus size node.size) rest middle right)
    | (node, none) => do return some (node, ← refillLeft (← middle.popFront) right)

def popBack : Tree α → Except Fault (Option (Node α × Tree α))
  | empty => .ok none
  | single node => .ok (some (node, empty))
  | deep size left middle right =>
    match right.popBack with
    | (node, some rest) => do return some (node, deep (← minus size node.size) left middle rest)
    | (node, none) => do return some (node, ← refillRight left (← middle.popBack))

/-- A level whose left digit is what remains of one, which may be nothing. -/
def levelLeft (before : List (Node α)) (middle : Tree α) (right : Digit α) : Except Fault (Tree α) :=
  match Digit.ofNodes? before with
  | some left => .ok (level left middle right)
  | none => do refillLeft (← middle.popFront) right

def levelRight (left : Digit α) (middle : Tree α) (after : List (Node α)) : Except Fault (Tree α) :=
  match Digit.ofNodes? after with
  | some right => .ok (level left middle right)
  | none => do refillRight left (← middle.popBack)

def front? : Tree α → Except Fault (Option α)
  | empty => .ok none
  | single node => some <$> node.lookup 0
  | deep _ left _ _ => some <$> left.head.lookup 0

def back? : Tree α → Except Fault (Option α)
  | empty => .ok none
  | single node => do return some (← node.lookup (← minus node.size 1))
  | deep _ _ _ right => do return some (← right.last.lookup (← minus right.last.size 1))

end

end IndexedSequence.Tree
