import IndexedSequence.Tree.Access
import IndexedSequence.Tree.Concat
import IndexedSequence.Tree.Split

/-!
The operations on a tree once more, step by step as they are, and counting on the way how many levels they go down,
or how many branches inside a node. Of several calls made on one level the one that goes furthest counts.
-/

set_option autoImplicit false

namespace IndexedSequence

variable {α β : Type}

/-- An outcome with the number of levels gone down for it. -/
def Descent (β : Type) : Type := Except Fault (Nat × β)

namespace Descent

instance : Monad Descent where
  pure b := Except.ok (0, b)
  bind d next :=
    Except.bind d fun (reach, b) => Except.bind (next b) fun (further, c) => Except.ok (max reach further, c)

instance : MonadLift (Except Fault) Descent where
  monadLift outcome := Except.map (0, ·) outcome

def below (d : Descent β) : Descent β := Except.map (fun (reach, b) => (reach + 1, b)) d

def outcome (d : Descent β) : Except Fault β := Except.map Prod.snd d

def reach? (d : Descent β) : Option Nat := (Except.toOption d).map Prod.fst

/-- It gives this outcome, from no further down than the limit. -/
def Within (limit : Nat) (outcome : Except Fault β) (d : Descent β) : Prop :=
  d.outcome = outcome ∧ ∃ reach, d.reach? = some reach ∧ reach ≤ limit

end Descent

section

variable [Arithmetic]

def Node.lookupDescent : Node α → UInt64 → Descent α
  | leaf element, _ => return element
  | two _ first second, index =>
    if index < first.size then (first.lookupDescent index).below
    else do
      let pastFirst ← minus index first.size
      if pastFirst < second.size then (second.lookupDescent pastFirst).below
      else liftM (Except.error (.beyondNodes index) : Except Fault α)
  | three _ first second third, index =>
    if index < first.size then (first.lookupDescent index).below
    else do
      let pastFirst ← minus index first.size
      if pastFirst < second.size then (second.lookupDescent pastFirst).below
      else
        let pastSecond ← minus pastFirst second.size
        if pastSecond < third.size then (third.lookupDescent pastSecond).below
        else liftM (Except.error (.beyondNodes index) : Except Fault α)

end

namespace Tree

def pushFrontDescent : Tree α → Node α → Descent (Tree α)
  | empty, node => return single node
  | single a, node => return deep (node.size + a.size) (.one node) empty (.one a)
  | deep size (.one a) middle right, node => return deep (size + node.size) (.two node a) middle right
  | deep size (.two a b) middle right, node => return deep (size + node.size) (.three node a b) middle right
  | deep size (.three a b c) middle right, node => return deep (size + node.size) (.four node a b c) middle right
  | deep size (.four a b c d) middle right, node =>
    return deep (size + node.size) (.two node a) (← (middle.pushFrontDescent (.triple b c d)).below) right

def pushBackDescent : Tree α → Node α → Descent (Tree α)
  | empty, node => return single node
  | single a, node => return deep (a.size + node.size) (.one a) empty (.one node)
  | deep size left middle (.one a), node => return deep (size + node.size) left middle (.two a node)
  | deep size left middle (.two a b), node => return deep (size + node.size) left middle (.three a b node)
  | deep size left middle (.three a b c), node => return deep (size + node.size) left middle (.four a b c node)
  | deep size left middle (.four a b c d), node =>
    return deep (size + node.size) left (← (middle.pushBackDescent (.triple a b c)).below) (.two d node)

def pushFrontAllDescent (tree : Tree α) : List (Node α) → Descent (Tree α)
  | [] => return tree
  | node :: rest => do (← tree.pushFrontAllDescent rest).pushFrontDescent node

def pushBackAllDescent (tree : Tree α) : List (Node α) → Descent (Tree α)
  | [] => return tree
  | node :: rest => do (← tree.pushBackDescent node).pushBackAllDescent rest

def buildDescent : List (Node α) → Descent (Tree α)
  | [] => return empty
  | [a] => return ofDigit (.one a)
  | [a, b] => return ofDigit (.two a b)
  | a :: b :: c :: rest =>
    let folded := Buffer.empty.fold rest
    match folded.1.pending with
    | none => return ofDigit (.three a b c)
    | some right => return level (.three a b c) (← (buildDescent folded.2).below) right
termination_by nodes => nodes.length
decreasing_by
  have := Buffer.empty.length_fold_le rest
  simp only [List.length_cons]
  omega

def joinDescent : Tree α → List (Node α) → Tree α → Descent (Tree α)
  | empty, between, right => right.pushFrontAllDescent between
  | single node, between, empty => (single node).pushBackAllDescent between
  | left@(deep ..), between, empty => left.pushBackAllDescent between
  | single node, between, right => right.pushFrontAllDescent (node :: between)
  | left@(deep ..), between, single node => left.pushBackAllDescent (between ++ [node])
  | deep _ leftOuter leftMiddle leftInner, between, deep _ rightInner rightMiddle rightOuter => do
    let branches ← regroup (leftInner.nodes ++ (between ++ rightInner.nodes))
    return level leftOuter (← (leftMiddle.joinDescent branches rightMiddle).below) rightOuter

section

variable [Arithmetic]

def popFrontDescent : Tree α → Descent (Option (Node α × Tree α))
  | empty => return none
  | single node => return some (node, empty)
  | deep size left middle right =>
    match left.popFront with
    | (node, some rest) => do return some (node, deep (← minus size node.size) rest middle right)
    | (node, none) => do return some (node, ← refillLeft (← middle.popFrontDescent.below) right)

def popBackDescent : Tree α → Descent (Option (Node α × Tree α))
  | empty => return none
  | single node => return some (node, empty)
  | deep size left middle right =>
    match right.popBack with
    | (node, some rest) => do return some (node, deep (← minus size node.size) left middle rest)
    | (node, none) => do return some (node, ← refillRight left (← middle.popBackDescent.below))

def levelLeftDescent (before : List (Node α)) (middle : Tree α) (right : Digit α) : Descent (Tree α) :=
  match Digit.ofNodes? before with
  | some left => return level left middle right
  | none => do refillLeft (← middle.popFrontDescent.below) right

def levelRightDescent (left : Digit α) (middle : Tree α) (after : List (Node α)) : Descent (Tree α) :=
  match Digit.ofNodes? after with
  | some right => return level left middle right
  | none => do refillRight left (← middle.popBackDescent.below)

def getDescent : Tree α → UInt64 → Descent (Option α)
  | empty, _ => return none
  | single node, index =>
    if index < node.size then return some (← node.lookup index) else return none
  | deep size left middle right, index =>
    if index < size then
      if index < left.size then return some (← left.lookup index)
      else do
        let pastLeft ← minus index left.size
        if pastLeft < middle.size then (middle.getDescent pastLeft).below
        else return some (← right.lookup (← minus pastLeft middle.size))
    else return none

def splitDescent : Tree α → UInt64 → Descent (Option (Cut (Tree α) α))
  | empty, _ => return none
  | single node, index => return if index < node.size then some ⟨empty, node, index, empty⟩ else none
  | deep size left middle right, index =>
    if index < size then
      if index < left.size then do
        let cut ← left.split index
        return some ⟨← buildDescent cut.before, cut.node, cut.offset, ← levelLeftDescent cut.after middle right⟩
      else do
        let pastLeft ← minus index left.size
        if pastLeft < middle.size then
          match ← (middle.splitDescent pastLeft).below with
          | none => return none
          | some outer =>
            let cut ← (← Digit.ofBranch outer.node).split outer.offset
            return some ⟨← levelRightDescent left outer.before cut.before, cut.node, cut.offset,
              ← levelLeftDescent cut.after outer.after right⟩
        else
          let cut ← right.split (← minus pastLeft middle.size)
          return some ⟨← levelRightDescent left middle cut.before, cut.node, cut.offset, ← buildDescent cut.after⟩
    else return none

end

end Tree

end IndexedSequence
