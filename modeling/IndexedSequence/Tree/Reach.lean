import IndexedSequence.Tree.Access
import IndexedSequence.Tree.Concat
import IndexedSequence.Tree.Split

set_option autoImplicit false

namespace IndexedSequence

variable {α : Type}

/-- The number of branches that a lookup goes through. -/
def Node.lookupReach [Arithmetic] : Node α → UInt64 → Except Fault Nat
  | leaf _, _ => .ok 0
  | two _ first second, index =>
    if index < first.size then (· + 1) <$> first.lookupReach index
    else do
      let pastFirst ← minus index first.size
      if pastFirst < second.size then (· + 1) <$> second.lookupReach pastFirst
      else .error (.beyondNodes index)
  | three _ first second third, index =>
    if index < first.size then (· + 1) <$> first.lookupReach index
    else do
      let pastFirst ← minus index first.size
      if pastFirst < second.size then (· + 1) <$> second.lookupReach pastFirst
      else
        let pastSecond ← minus pastFirst second.size
        if pastSecond < third.size then (· + 1) <$> third.lookupReach pastSecond
        else .error (.beyondNodes index)

namespace Tree

/-- The nodes in the digits of the level, counted from the tree's own, or the single one that is there. -/
def nodesAt : Tree α → Nat → List (Node α)
  | empty, _ => []
  | single node, 0 => [node]
  | single _, _ + 1 => []
  | deep _ left _ right, 0 => left.nodes ++ right.nodes
  | deep _ _ middle _, level + 1 => middle.nodesAt level

/-- The number of levels that a push goes down below the one it starts on. -/
def pushFrontReach : Tree α → Nat
  | deep _ (.four ..) middle _ => middle.pushFrontReach + 1
  | _ => 0

def pushBackReach : Tree α → Nat
  | deep _ _ middle (.four ..) => middle.pushBackReach + 1
  | _ => 0

def popFrontReach : Tree α → Nat
  | deep _ (.one _) middle _ => middle.popFrontReach + 1
  | _ => 0

def popBackReach : Tree α → Nat
  | deep _ _ middle (.one _) => middle.popBackReach + 1
  | _ => 0

/-- The furthest that any of the pushes goes, each of them into the tree grown so far. -/
def pushFrontAllReach (tree : Tree α) : List (Node α) → Nat
  | [] => 0
  | _ :: rest => max (tree.pushFrontAllReach rest) (tree.pushFrontAll rest).pushFrontReach

def pushBackAllReach (tree : Tree α) : List (Node α) → Nat
  | [] => 0
  | node :: rest => max tree.pushBackReach ((tree.pushBack node).pushBackAllReach rest)

def levelLeftReach (before : List (Node α)) (middle : Tree α) : Nat :=
  if (Digit.ofNodes? before).isSome then 0 else middle.popFrontReach + 1

def levelRightReach (middle : Tree α) (after : List (Node α)) : Nat :=
  if (Digit.ofNodes? after).isSome then 0 else middle.popBackReach + 1

def buildReach : List (Node α) → Nat
  | _ :: _ :: _ :: rest =>
    let folded := Buffer.empty.fold rest
    match folded.1.pending with
    | none => 0
    | some _ => buildReach folded.2 + 1
  | _ => 0
termination_by nodes => nodes.length
decreasing_by
  have := Buffer.empty.length_fold_le rest
  simp only [List.length_cons]
  omega

def joinReach : Tree α → List (Node α) → Tree α → Except Fault Nat
  | empty, between, right => .ok (right.pushFrontAllReach between)
  | single node, between, empty => .ok ((single node).pushBackAllReach between)
  | left@(deep ..), between, empty => .ok (left.pushBackAllReach between)
  | single node, between, right => .ok (right.pushFrontAllReach (node :: between))
  | left@(deep ..), between, single node => .ok (left.pushBackAllReach (between ++ [node]))
  | deep _ _ leftMiddle leftInner, between, deep _ rightInner rightMiddle _ => do
    let branches ← regroup (leftInner.nodes ++ (between ++ rightInner.nodes))
    return (← leftMiddle.joinReach branches rightMiddle) + 1

section

variable [Arithmetic]

def getReach : Tree α → UInt64 → Except Fault Nat
  | empty, _ => .ok 0
  | single _, _ => .ok 0
  | deep size left middle _, index =>
    if index < size then
      if index < left.size then .ok 0
      else do
        let pastLeft ← minus index left.size
        if pastLeft < middle.size then return (← middle.getReach pastLeft) + 1
        else .ok 0
    else .ok 0

def splitReach : Tree α → UInt64 → Except Fault Nat
  | empty, _ => .ok 0
  | single _, _ => .ok 0
  | deep size left middle right, index =>
    if index < size then
      if index < left.size then do
        let cut ← left.split index
        return max (buildReach cut.before) (levelLeftReach cut.after middle)
      else do
        let pastLeft ← minus index left.size
        if pastLeft < middle.size then
          let inner ← middle.splitReach pastLeft
          match ← middle.split? pastLeft with
          | none => return inner + 1
          | some outer =>
            let cut ← (← Digit.ofBranch outer.node).split outer.offset
            return max (inner + 1)
              (max (levelRightReach outer.before cut.before) (levelLeftReach cut.after outer.after))
        else
          let cut ← right.split (← minus pastLeft middle.size)
          return max (levelRightReach middle cut.before) (buildReach cut.after)
    else .ok 0

end

end Tree

end IndexedSequence
