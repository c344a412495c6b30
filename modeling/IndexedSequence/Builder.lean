import IndexedSequence.Rendering.Scalars
import IndexedSequence.Sequence.Basic

set_option autoImplicit false

namespace IndexedSequence

/-- Elements in front of a sequence and behind it. Both lists hold the element pushed last at the head, so
that the front reads in its own order and the back in reverse. -/
structure Builder (α : Type) where
  front : List α
  sequence : Sequence α
  back : List α

namespace Builder

variable {α : Type}

def empty : Builder α := ⟨[], .empty, []⟩

def toList (b : Builder α) : List α :=
  b.front ++ (b.sequence.toList ++ b.back.reverse)

def size (b : Builder α) : UInt64 :=
  .ofNat b.front.length + b.sequence.size + .ofNat b.back.length

def isEmpty (b : Builder α) : Bool := b.size == 0

def pushFront (b : Builder α) (element : α) : Builder α := { b with front := element :: b.front }

def pushBack (b : Builder α) (element : α) : Builder α := { b with back := element :: b.back }

def extend (b : Builder α) (elements : List α) : Builder α :=
  { b with back := elements.reverse ++ b.back }

def flushFront (b : Builder α) : Except Fault (Builder α) :=
  if b.front.isEmpty then .ok b
  else do return { b with front := [], sequence := ← (Sequence.ofList b.front).concat b.sequence }

def flushBack (b : Builder α) : Except Fault (Builder α) :=
  if b.back.isEmpty then .ok b
  else do
    return { b with back := [], sequence := ← b.sequence.concat (.ofList b.back.reverse) }

def append (b : Builder α) (s : Sequence α) : Except Fault (Builder α) := do
  let flushed ← b.flushBack
  return { flushed with sequence := ← flushed.sequence.concat s }

def prepend (b : Builder α) (s : Sequence α) : Except Fault (Builder α) := do
  let flushed ← b.flushFront
  return { flushed with sequence := ← s.concat flushed.sequence }

def build (b : Builder α) : Except Fault (Sequence α × Builder α) := do
  let flushed ← (← b.flushFront).flushBack
  return (flushed.sequence, { flushed with sequence := .empty })

instance : Rendered (Builder α) where
  rendering b := .record "SequenceBuilder" [("len", rendering b.size)] true

end Builder

end IndexedSequence
