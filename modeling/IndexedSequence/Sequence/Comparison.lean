import IndexedSequence.Binary64.Basic
import IndexedSequence.Sequence.Basic

set_option autoImplicit false

namespace IndexedSequence

/-- An order that may leave two values undecided. -/
class PartialCompare (α : Type) where
  order? : α → α → Option Ordering

export PartialCompare (order?)

instance : PartialCompare Int64 := ⟨fun a b => some (compare a b)⟩

instance : PartialCompare String := ⟨fun a b => some (compare a b)⟩

instance : PartialCompare Binary64 := ⟨Binary64.order?⟩

instance : BEq Binary64 := ⟨Binary64.equal⟩

namespace Walk

variable {α : Type}

def agree (same : α → α → Bool) (a b : Walk α) : Bool :=
  match _h : a.next with
  | none => b.next.isNone
  | some (x, a') =>
    match b.next with
    | none => false
    | some (y, b') => same x y && agree same a' b'
termination_by a.remaining.toNat
decreasing_by exact remaining_takeFrom_lt _h

/-- The order of the first two elements that are not equal in order, if they have one; a walk that ends
before that comes first. -/
def partialOrder (order? : α → α → Option Ordering) (a b : Walk α) : Option Ordering :=
  match _h : a.next with
  | none => some (if b.next.isNone then .eq else .lt)
  | some (x, a') =>
    match b.next with
    | none => some .gt
    | some (y, b') =>
      match order? x y with
      | some .eq => partialOrder order? a' b'
      | decided => decided
termination_by a.remaining.toNat
decreasing_by exact remaining_takeFrom_lt _h

def totalOrder (order : α → α → Ordering) (a b : Walk α) : Ordering :=
  match _h : a.next with
  | none => if b.next.isNone then .eq else .lt
  | some (x, a') =>
    match b.next with
    | none => .gt
    | some (y, b') =>
      match order x y with
      | .eq => totalOrder order a' b'
      | decided => decided
termination_by a.remaining.toNat
decreasing_by exact remaining_takeFrom_lt _h

end Walk

namespace Sequence

variable {α : Type}

def equal [BEq α] (s t : Sequence α) : Bool :=
  s.size == t.size && Walk.agree (· == ·) (s.walk .front) (t.walk .front)

instance [BEq α] : BEq (Sequence α) := ⟨equal⟩

instance [PartialCompare α] : PartialCompare (Sequence α) where
  order? s t := Walk.partialOrder order? (s.walk .front) (t.walk .front)

instance [Ord α] : Ord (Sequence α) where
  compare s t := Walk.totalOrder compare (s.walk .front) (t.walk .front)

end Sequence

structure Comparison where
  equal : Bool
  partialOrder : Option Ordering
  totalOrder : Option Ordering

namespace Comparison

def unequal (c : Comparison) : Bool := !c.equal

def less (c : Comparison) : Bool := c.partialOrder == some .lt

def greater (c : Comparison) : Bool := c.partialOrder == some .gt

def lessOrEqual (c : Comparison) : Bool := c.less || c.partialOrder == some .eq

def greaterOrEqual (c : Comparison) : Bool := c.greater || c.partialOrder == some .eq

end Comparison

end IndexedSequence
