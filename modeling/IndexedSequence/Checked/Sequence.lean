import IndexedSequence.Builder
import IndexedSequence.Checked.Tree
import IndexedSequence.Sequence.Positional

set_option autoImplicit false

namespace IndexedSequence

variable {α : Type}

namespace Sequence

def ofListChecked (elements : List α) : Except Fault (Sequence α) :=
  .mk <$> Tree.buildChecked (elements.map .leaf)

def pushFrontChecked (s : Sequence α) (element : α) : Except Fault (Sequence α) :=
  .mk <$> s.tree.pushFrontChecked (.leaf element)

def pushBackChecked (s : Sequence α) (element : α) : Except Fault (Sequence α) :=
  .mk <$> s.tree.pushBackChecked (.leaf element)

def pushAllFrontChecked (s : Sequence α) : List α → Except Fault (Sequence α)
  | [] => .ok s
  | element :: rest => do (← s.pushFrontChecked element).pushAllFrontChecked rest

def pushAllBackChecked (s : Sequence α) : List α → Except Fault (Sequence α)
  | [] => .ok s
  | element :: rest => do (← s.pushBackChecked element).pushAllBackChecked rest

def popFrontChecked (s : Sequence α) : Except Fault (Option (α × Sequence α)) := do
  match ← s.tree.frontChecked? with
  | none => return none
  | some element =>
    return (← s.tree.popFrontChecked).map fun (_, rest) => (element, ⟨rest⟩)

def popBackChecked (s : Sequence α) : Except Fault (Option (α × Sequence α)) := do
  match ← s.tree.backChecked? with
  | none => return none
  | some element =>
    return (← s.tree.popBackChecked).map fun (_, rest) => (element, ⟨rest⟩)

def concatChecked (s t : Sequence α) : Except Fault (Sequence α) :=
  .mk <$> s.tree.concatChecked t.tree

def extendChecked (s : Sequence α) (elements : List α) : Except Fault (Sequence α) := do
  s.concatChecked (← ofListChecked elements)

def doubledChecked (s : Sequence α) : Nat → Except Fault (Sequence α)
  | 0 => .ok s
  | times + 1 => do (← s.concatChecked s).doubledChecked times

def reversedChecked (s : Sequence α) : Except Fault (Sequence α) :=
  .mk <$> s.tree.reversedChecked

def auditChecked (s : Sequence α) : Audited Unit := s.tree.auditChecked 0

/-- As `positionAfter`, which refuses the last position of 64 bits before it would add to it. -/
def positionAfterChecked (s : Sequence α) (index : UInt64) : Except Failure UInt64 :=
  if index.toNat + 1 < UInt64.size then plus index 1 else .error (.outOfRange (s.outOfRange index))

def startOfChecked (s : Sequence α) : Bound → Except Failure UInt64
  | .unbounded => .ok 0
  | .included index => .ok index
  | .excluded index => s.positionAfterChecked index

def stopOfChecked (s : Sequence α) : Bound → Except Failure UInt64
  | .unbounded => .ok s.size
  | .included index => s.positionAfterChecked index
  | .excluded index => .ok index

def elementAtChecked (s : Sequence α) (index : UInt64) : Except Failure α := do
  match ← s.tree.getChecked? index with
  | some element => return element
  | none => throw (.outOfRange (s.outOfRange index))

def splitChecked (s : Sequence α) (index : UInt64) :
    Except Failure (Sequence α × α × Sequence α) := do
  let element ← s.elementAtChecked index
  match ← s.tree.splitChecked? index with
  | some cut => return (⟨cut.before⟩, element, ⟨cut.after⟩)
  | none => throw (.outOfRange (s.outOfRange index))

def splitAtChecked (s : Sequence α) (index : UInt64) :
    Except Failure (Sequence α × Sequence α) := do
  if index = s.size then return (s, empty)
  else
    match ← s.tree.splitChecked? index with
    | some cut => return (⟨cut.before⟩, ⟨← cut.after.pushFrontChecked cut.node⟩)
    | none => throw (.outOfRange (s.outOfRange index))

def insertAtChecked (s : Sequence α) (index : UInt64) (element : α) :
    Except Failure (Sequence α) := do
  let (before, after) ← s.splitAtChecked index
  (← before.concatChecked (singleton element)).concatChecked after

def removeAtChecked (s : Sequence α) (index : UInt64) : Except Failure (Sequence α) := do
  let (before, _, after) ← s.splitChecked index
  before.concatChecked after

def updateChecked (s : Sequence α) (index : UInt64) (element : α) :
    Except Failure (Sequence α) := do
  let (before, _, after) ← s.splitChecked index
  (← before.concatChecked (singleton element)).concatChecked after

def sliceChecked (s : Sequence α) (start stop : Bound) : Except Failure (Sequence α) := do
  let first ← s.startOfChecked start
  let last ← s.stopOfChecked stop
  if s.size < last then throw (.outOfRange (s.outOfRange last))
  else if last < first then throw (.outOfRange (s.outOfRange first))
  else
    let (_, suffix) ← s.splitAtChecked first
    let (found, _) ← suffix.splitAtChecked (← minusChecked last first)
    return found

end Sequence

namespace Builder

def sizeChecked (b : Builder α) : Except Fault UInt64 := do
  plus (← plus (.ofNat b.front.length) b.sequence.size) (.ofNat b.back.length)

def isEmptyChecked (b : Builder α) : Except Fault Bool := do
  return (← b.sizeChecked) == 0

def flushFrontChecked (b : Builder α) : Except Fault (Builder α) :=
  if b.front.isEmpty then .ok b
  else do
    let gathered ← Sequence.ofListChecked b.front
    return { b with front := [], sequence := ← gathered.concatChecked b.sequence }

def flushBackChecked (b : Builder α) : Except Fault (Builder α) :=
  if b.back.isEmpty then .ok b
  else do
    let gathered ← Sequence.ofListChecked b.back.reverse
    return { b with back := [], sequence := ← b.sequence.concatChecked gathered }

def appendChecked (b : Builder α) (s : Sequence α) : Except Fault (Builder α) := do
  let flushed ← b.flushBackChecked
  return { flushed with sequence := ← flushed.sequence.concatChecked s }

def prependChecked (b : Builder α) (s : Sequence α) : Except Fault (Builder α) := do
  let flushed ← b.flushFrontChecked
  return { flushed with sequence := ← s.concatChecked flushed.sequence }

def buildChecked (b : Builder α) : Except Fault (Sequence α × Builder α) := do
  let flushed ← (← b.flushFrontChecked).flushBackChecked
  return (flushed.sequence, { flushed with sequence := .empty })

end Builder

namespace Walk

def takeFromChecked (walk : Walk α) : End → Except Fault (Option (α × Walk α))
  | .front =>
    if walk.remaining = 0 then .ok none
    else
      match advance .front walk.front with
      | none => .ok none
      | some (element, rest) => do
        let left ← minusChecked walk.remaining 1
        return some (element, { walk with front := rest, remaining := left })
  | .back =>
    if walk.remaining = 0 then .ok none
    else
      match advance .back walk.back with
      | none => .ok none
      | some (element, rest) => do
        let left ← minusChecked walk.remaining 1
        return some (element, { walk with back := rest, remaining := left })

@[reducible]
def checkedCursor : Cursor (Walk α) α where
  take
    | .near, walk => walk.takeFromChecked walk.near
    | .far, walk => walk.takeFromChecked walk.near.opposite
  remaining walk := walk.remaining

end Walk

namespace Drain

@[reducible]
def checkedCursor : Cursor (Drain α) α where
  take
    | .near, drain => taken <$> drain.tree.popFrontChecked
    | .far, drain => taken <$> drain.tree.popBackChecked
  remaining drain := drain.remaining

end Drain

end IndexedSequence
