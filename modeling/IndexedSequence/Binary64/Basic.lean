/-!
Double-precision numbers by their 64 bits: a sign, and a magnitude whose order as a natural number is the
order of the absolute values, with infinity above every finite one and the not-a-number patterns above
infinity. Equality and order follow from a single integer rank.
-/

set_option autoImplicit false

namespace IndexedSequence

structure Binary64 where
  bits : UInt64
  deriving DecidableEq

def twoPow (exponent : Nat) : Nat := Nat.pow 2 exponent

namespace Binary64

def isNegative (x : Binary64) : Bool :=
  twoPow 63 ≤ x.bits.toNat

def magnitude (x : Binary64) : Nat :=
  x.bits.toNat % twoPow 63

def infinite : Nat :=
  2047 * twoPow 52

def isNaN (x : Binary64) : Bool :=
  infinite < x.magnitude

def isFinite (x : Binary64) : Bool :=
  x.magnitude < infinite

def ofMagnitude (negative : Bool) (magnitude : Nat) : Binary64 :=
  ⟨UInt64.ofNat (if negative then twoPow 63 + magnitude else magnitude)⟩

def nan : Binary64 := ofMagnitude false (infinite + twoPow 51)

def infinity (negative : Bool) : Binary64 := ofMagnitude negative infinite

def zero (negative : Bool) : Binary64 := ofMagnitude negative 0

/-- Places the numbers in order; the two zeros share a place. -/
def rank (x : Binary64) : Int :=
  if x.isNegative then -(x.magnitude : Int) else x.magnitude

def equal (x y : Binary64) : Bool :=
  !x.isNaN && !y.isNaN && x.rank == y.rank

def order? (x y : Binary64) : Option Ordering :=
  if x.isNaN || y.isNaN then none else some (compare x.rank y.rank)

def negate (x : Binary64) : Binary64 :=
  ofMagnitude (!x.isNegative) x.magnitude

def significand (magnitude : Nat) : Nat :=
  if magnitude < twoPow 52 then magnitude else twoPow 52 + magnitude % twoPow 52

/-- The power of two that scales the significand, counted from `2 ^ (-1074)`. -/
def scale (magnitude : Nat) : Nat :=
  magnitude / twoPow 52 - 1

/-- The absolute value of a finite number in units of `2 ^ (-1074)`. -/
def units (x : Binary64) : Nat :=
  significand x.magnitude * twoPow (scale x.magnitude)

end Binary64

end IndexedSequence
