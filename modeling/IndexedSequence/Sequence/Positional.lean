import IndexedSequence.Sequence.Basic
import IndexedSequence.Tree.Split

set_option autoImplicit false

namespace IndexedSequence

inductive Bound where
  | unbounded
  | included (index : UInt64)
  | excluded (index : UInt64)
  deriving DecidableEq

namespace Sequence

variable {α : Type}

def outOfRange (s : Sequence α) (index : UInt64) : OutOfRange := ⟨index, s.size⟩

/-- The position after `index`. The last one of 64 bits has none, and is refused as it stands. -/
def positionAfter (s : Sequence α) (index : UInt64) : Except Failure UInt64 :=
  if index + 1 = 0 then .error (.outOfRange (s.outOfRange index)) else .ok (index + 1)

def startOf (s : Sequence α) : Bound → Except Failure UInt64
  | .unbounded => .ok 0
  | .included index => .ok index
  | .excluded index => s.positionAfter index

def stopOf (s : Sequence α) : Bound → Except Failure UInt64
  | .unbounded => .ok s.size
  | .included index => s.positionAfter index
  | .excluded index => .ok index

variable [Arithmetic]

def elementAt (s : Sequence α) (index : UInt64) : Except Failure α := do
  match ← s.get? index with
  | some element => return element
  | none => throw (.outOfRange (s.outOfRange index))

def split (s : Sequence α) (index : UInt64) :
    Except Failure (Sequence α × α × Sequence α) := do
  let element ← s.elementAt index
  match ← s.tree.split? index with
  | some cut => return (⟨cut.before⟩, element, ⟨cut.after⟩)
  | none => throw (.outOfRange (s.outOfRange index))

/-- What lies before `index`, and what lies from there on, which may be nothing. -/
def splitAt (s : Sequence α) (index : UInt64) : Except Failure (Sequence α × Sequence α) := do
  if index = s.size then return (s, empty)
  else
    match ← s.tree.split? index with
    | some cut => return (⟨cut.before⟩, ⟨cut.after.pushFront cut.node⟩)
    | none => throw (.outOfRange (s.outOfRange index))

/-- Puts an element in front of the one at `index`, or at the back. -/
def insertAt (s : Sequence α) (index : UInt64) (element : α) : Except Failure (Sequence α) := do
  let (before, after) ← s.splitAt index
  (← before.concat (singleton element)).concat after

def removeAt (s : Sequence α) (index : UInt64) : Except Failure (Sequence α) := do
  let (before, _, after) ← s.split index
  before.concat after

def update (s : Sequence α) (index : UInt64) (element : α) : Except Failure (Sequence α) := do
  let (before, _, after) ← s.split index
  (← before.concat (singleton element)).concat after

/-- The elements between two bounds. A stop past the end is refused before a start past the stop. -/
def slice (s : Sequence α) (start stop : Bound) : Except Failure (Sequence α) := do
  let first ← s.startOf start
  let last ← s.stopOf stop
  if s.size < last then throw (.outOfRange (s.outOfRange last))
  else if last < first then throw (.outOfRange (s.outOfRange first))
  else
    let (_, suffix) ← s.splitAt first
    let (found, _) ← suffix.splitAt (← minus last first)
    return found

end Sequence

end IndexedSequence
