import IndexedSequence.Tree.Ends

set_option autoImplicit false

namespace IndexedSequence

structure Drain (α : Type) where
  tree : Tree α

namespace Drain

variable {α : Type}

def taken : Option (Node α × Tree α) → Option (α × Drain α)
  | some (.leaf element, rest) => some (element, ⟨rest⟩)
  | _ => none

def takeFront [Arithmetic] (drain : Drain α) : Except Fault (Option (α × Drain α)) :=
  taken <$> drain.tree.popFront

def takeBack [Arithmetic] (drain : Drain α) : Except Fault (Option (α × Drain α)) :=
  taken <$> drain.tree.popBack

def remaining (drain : Drain α) : UInt64 :=
  drain.tree.size

end Drain

end IndexedSequence
