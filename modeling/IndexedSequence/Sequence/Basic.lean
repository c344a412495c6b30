import IndexedSequence.Tree.Access
import IndexedSequence.Tree.Audit
import IndexedSequence.Tree.Build
import IndexedSequence.Tree.Concat
import IndexedSequence.Traversal.Cursor

/-!
Sequences: trees whose outermost nodes are leaves. Every operation gives a new sequence and leaves its
operands as they are; the two share what they have in common.
-/

set_option autoImplicit false

namespace IndexedSequence

structure Sequence (α : Type) where
  tree : Tree α

namespace Sequence

variable {α : Type}

def empty : Sequence α := ⟨.empty⟩

def singleton (element : α) : Sequence α := ⟨.single (.leaf element)⟩

def ofList (elements : List α) : Sequence α := ⟨.build (elements.map .leaf)⟩

def toList (s : Sequence α) : List α := s.tree.toList

def size (s : Sequence α) : UInt64 := s.tree.size

def isEmpty (s : Sequence α) : Bool := s.tree.isEmpty

def front? [Arithmetic] (s : Sequence α) : Except Fault (Option α) := s.tree.front?

def back? [Arithmetic] (s : Sequence α) : Except Fault (Option α) := s.tree.back?

def pushFront (s : Sequence α) (element : α) : Sequence α := ⟨s.tree.pushFront (.leaf element)⟩

def pushBack (s : Sequence α) (element : α) : Sequence α := ⟨s.tree.pushBack (.leaf element)⟩

/-- Pushes each in turn, so that the last of them comes to stand first. -/
def pushAllFront (s : Sequence α) (elements : List α) : Sequence α :=
  elements.foldl pushFront s

def pushAllBack (s : Sequence α) (elements : List α) : Sequence α :=
  elements.foldl pushBack s

def popFront [Arithmetic] (s : Sequence α) : Except Fault (Option (α × Sequence α)) := do
  match ← s.front? with
  | none => return none
  | some element => return (← s.tree.popFront).map fun (_, rest) => (element, ⟨rest⟩)

def popBack [Arithmetic] (s : Sequence α) : Except Fault (Option (α × Sequence α)) := do
  match ← s.back? with
  | none => return none
  | some element => return (← s.tree.popBack).map fun (_, rest) => (element, ⟨rest⟩)

def get? [Arithmetic] (s : Sequence α) (index : UInt64) : Except Fault (Option α) := s.tree.get? index

def concat (s t : Sequence α) : Except Fault (Sequence α) := .mk <$> s.tree.concat t.tree

/-- The sequence with these elements behind it. They are built into a sequence of their own first. -/
def extend (s : Sequence α) (elements : List α) : Except Fault (Sequence α) :=
  s.concat (ofList elements)

/-- Joins the sequence to itself, and the result to itself, and so on. -/
def doubled (s : Sequence α) : Nat → Except Fault (Sequence α)
  | 0 => .ok s
  | times + 1 => do (← s.concat s).doubled times

def reversed (s : Sequence α) : Sequence α := ⟨s.tree.reversed⟩

def walk (s : Sequence α) (near : End) : Walk α := .ofTree s.tree near

def elements (s : Sequence α) : List α := (s.walk .front).elements

def drain (s : Sequence α) : Drain α := ⟨s.tree⟩

def audit (s : Sequence α) : Except Flaw Unit := s.tree.audit 0

end Sequence

end IndexedSequence
