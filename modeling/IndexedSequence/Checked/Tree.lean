import IndexedSequence.Checked.Node
import IndexedSequence.Tree.Access
import IndexedSequence.Tree.Audit
import IndexedSequence.Tree.Concat
import IndexedSequence.Tree.Split

set_option autoImplicit false

namespace IndexedSequence

variable {α : Type}

namespace Tree

def levelChecked (left : Digit α) (middle : Tree α) (right : Digit α) : Except Fault (Tree α) := do
  return deep (← plus (← plus (← left.sizeChecked) middle.size) (← right.sizeChecked)) left middle right

def ofDigitChecked : Digit α → Except Fault (Tree α)
  | .one a => .ok (single a)
  | .two a b => levelChecked (.one a) empty (.one b)
  | .three a b c => levelChecked (.two a b) empty (.one c)
  | .four a b c d => levelChecked (.two a b) empty (.two c d)

def reversedChecked : Tree α → Except Fault (Tree α)
  | empty => .ok empty
  | single node => do return single (← node.reversedChecked)
  | deep size left middle right => do
    return deep size (← right.reversedChecked) (← middle.reversedChecked) (← left.reversedChecked)

def pushFrontChecked : Tree α → Node α → Except Fault (Tree α)
  | empty, node => .ok (single node)
  | single a, node => do return deep (← plus node.size a.size) (.one node) empty (.one a)
  | deep size (.one a) middle right, node => do
    return deep (← plus size node.size) (.two node a) middle right
  | deep size (.two a b) middle right, node => do
    return deep (← plus size node.size) (.three node a b) middle right
  | deep size (.three a b c) middle right, node => do
    return deep (← plus size node.size) (.four node a b c) middle right
  | deep size (.four a b c d) middle right, node => do
    return deep (← plus size node.size) (.two node a)
      (← middle.pushFrontChecked (← Node.tripleChecked b c d)) right

def pushBackChecked : Tree α → Node α → Except Fault (Tree α)
  | empty, node => .ok (single node)
  | single a, node => do return deep (← plus a.size node.size) (.one a) empty (.one node)
  | deep size left middle (.one a), node => do
    return deep (← plus size node.size) left middle (.two a node)
  | deep size left middle (.two a b), node => do
    return deep (← plus size node.size) left middle (.three a b node)
  | deep size left middle (.three a b c), node => do
    return deep (← plus size node.size) left middle (.four a b c node)
  | deep size left middle (.four a b c d), node => do
    return deep (← plus size node.size) left
      (← middle.pushBackChecked (← Node.tripleChecked a b c)) (.two d node)

def pushFrontAllChecked (tree : Tree α) : List (Node α) → Except Fault (Tree α)
  | [] => .ok tree
  | node :: rest => do (← tree.pushFrontAllChecked rest).pushFrontChecked node

def pushBackAllChecked (tree : Tree α) : List (Node α) → Except Fault (Tree α)
  | [] => .ok tree
  | node :: rest => do (← tree.pushBackChecked node).pushBackAllChecked rest

def refillLeftChecked (popped : Option (Node α × Tree α)) (right : Digit α) :
    Except Fault (Tree α) :=
  match popped with
  | none => ofDigitChecked right
  | some (branch, middle) => do levelChecked (← Digit.ofBranch branch) middle right

def refillRightChecked (left : Digit α) (popped : Option (Node α × Tree α)) :
    Except Fault (Tree α) :=
  match popped with
  | none => ofDigitChecked left
  | some (branch, middle) => do levelChecked left middle (← Digit.ofBranch branch)

def popFrontChecked : Tree α → Except Fault (Option (Node α × Tree α))
  | empty => .ok none
  | single node => .ok (some (node, empty))
  | deep size left middle right =>
    match left.popFront with
    | (node, some rest) => do
      return some (node, deep (← minusChecked size node.size) rest middle right)
    | (node, none) => do return some (node, ← refillLeftChecked (← middle.popFrontChecked) right)

def popBackChecked : Tree α → Except Fault (Option (Node α × Tree α))
  | empty => .ok none
  | single node => .ok (some (node, empty))
  | deep size left middle right =>
    match right.popBack with
    | (node, some rest) => do
      return some (node, deep (← minusChecked size node.size) left middle rest)
    | (node, none) => do return some (node, ← refillRightChecked left (← middle.popBackChecked))

def levelLeftChecked (before : List (Node α)) (middle : Tree α) (right : Digit α) :
    Except Fault (Tree α) :=
  match Digit.ofNodes? before with
  | some left => levelChecked left middle right
  | none => do refillLeftChecked (← middle.popFrontChecked) right

def levelRightChecked (left : Digit α) (middle : Tree α) (after : List (Node α)) :
    Except Fault (Tree α) :=
  match Digit.ofNodes? after with
  | some right => levelChecked left middle right
  | none => do refillRightChecked left (← middle.popBackChecked)

def frontChecked? (tree : Tree α) : Except Fault (Option α) :=
  @front? α .checked tree

def backChecked? (tree : Tree α) : Except Fault (Option α) :=
  @back? α .checked tree

def buildChecked : List (Node α) → Except Fault (Tree α)
  | [] => .ok empty
  | [a] => ofDigitChecked (.one a)
  | [a, b] => ofDigitChecked (.two a b)
  | a :: b :: c :: rest =>
    match _ran : Buffer.empty.foldChecked rest with
    | .error fault => .error fault
    | .ok (buffer, branches) =>
      match buffer.pending with
      | none => ofDigitChecked (.three a b c)
      | some right => do levelChecked (.three a b c) (← buildChecked branches) right
termination_by nodes => nodes.length
decreasing_by
  have := Buffer.length_le_of_foldChecked _ran
  simp only [List.length_cons]
  omega

def joinChecked : Tree α → List (Node α) → Tree α → Except Fault (Tree α)
  | empty, between, right => right.pushFrontAllChecked between
  | single node, between, empty => (single node).pushBackAllChecked between
  | left@(deep ..), between, empty => left.pushBackAllChecked between
  | single node, between, right => do (← right.pushFrontAllChecked between).pushFrontChecked node
  | left@(deep ..), between, single node => do
    (← left.pushBackAllChecked between).pushBackChecked node
  | deep _ leftOuter leftMiddle leftInner, between, deep _ rightInner rightMiddle rightOuter => do
    let branches ← regroupChecked (leftInner.nodes ++ (between ++ rightInner.nodes))
    levelChecked leftOuter (← leftMiddle.joinChecked branches rightMiddle) rightOuter

def concatChecked (left right : Tree α) : Except Fault (Tree α) :=
  left.joinChecked [] right

def getChecked? : Tree α → UInt64 → Except Fault (Option α)
  | empty, _ => .ok none
  | single node, index =>
    if index < node.size then some <$> node.lookupChecked index else .ok none
  | deep size left middle right, index =>
    if index < size then do
      let leftSize ← left.sizeChecked
      if index < leftSize then some <$> left.lookupChecked index
      else
        let pastLeft ← minusChecked index leftSize
        if pastLeft < middle.size then middle.getChecked? pastLeft
        else some <$> right.lookupChecked (← minusChecked pastLeft middle.size)
    else .ok none

def splitChecked? : Tree α → UInt64 → Except Fault (Option (Cut (Tree α) α))
  | empty, _ => .ok none
  | single node, index =>
    .ok (if index < node.size then some ⟨empty, node, index, empty⟩ else none)
  | deep size left middle right, index =>
    if index < size then do
      let leftSize ← left.sizeChecked
      if index < leftSize then
        let cut ← left.splitChecked index
        return some ⟨← buildChecked cut.before, cut.node, cut.offset,
          ← levelLeftChecked cut.after middle right⟩
      else
        let pastLeft ← minusChecked index leftSize
        if pastLeft < middle.size then
          match ← middle.splitChecked? pastLeft with
          | none => return none
          | some outer =>
            let cut ← (← Digit.ofBranch outer.node).splitChecked outer.offset
            return some ⟨← levelRightChecked left outer.before cut.before, cut.node, cut.offset,
              ← levelLeftChecked cut.after outer.after right⟩
        else
          let cut ← right.splitChecked (← minusChecked pastLeft middle.size)
          return some ⟨← levelRightChecked left middle cut.before, cut.node, cut.offset,
            ← buildChecked cut.after⟩
    else .ok none

end Tree

/-- A flaw found, or a sum that was too large to look for one. -/
abbrev Audited := Except (Fault ⊕ Flaw)

instance : MonadLift (Except Fault) Audited where
  monadLift result := result.mapError .inl

instance : MonadLift (Except Flaw) Audited where
  monadLift result := result.mapError .inr

def Node.auditChecked : Node α → Audited Nat
  | leaf _ => .ok 0
  | two size first second => do
    let depth ← first.auditChecked
    Flaw.unless (depth == (← second.auditChecked)) .unevenBranch
    let counted ← plus first.size second.size
    Flaw.unless (counted == size) (.branchSize size counted)
    return depth + 1
  | three size first second third => do
    let depth ← first.auditChecked
    Flaw.unless (depth == (← second.auditChecked)) .unevenBranch
    Flaw.unless (depth == (← third.auditChecked)) .unevenBranch
    let counted ← plus (← plus first.size second.size) third.size
    Flaw.unless (counted == size) (.branchSize size counted)
    return depth + 1

def Node.auditAtChecked (depth : Nat) (node : Node α) : Audited Unit := do
  let actual ← node.auditChecked
  Flaw.unless (actual == depth) (.nodeDepth actual depth)

def Digit.auditAtChecked (depth : Nat) (digit : Digit α) : Audited Unit :=
  digit.nodes.forM (Node.auditAtChecked depth)

def Tree.auditChecked (depth : Nat) : Tree α → Audited Unit
  | empty => .ok ()
  | single node => node.auditAtChecked depth
  | deep size left middle right => do
    left.auditAtChecked depth
    right.auditAtChecked depth
    middle.auditChecked (depth + 1)
    let counted ← plus (← plus (← left.sizeChecked) middle.size) (← right.sizeChecked)
    Flaw.unless (counted == size) (.treeSize size counted)
    Flaw.unless (2 ≤ size) (.deepHolding size)

end IndexedSequence
