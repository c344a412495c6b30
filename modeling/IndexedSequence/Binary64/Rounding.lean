import IndexedSequence.Binary64.Basic

set_option autoImplicit false

namespace IndexedSequence

/-- The natural number nearest to `num / den`, the even one of two. -/
def roundHalfEven (num den : Nat) : Nat :=
  let quotient := num / den
  let remainder := num % den
  if 2 * remainder < den then quotient
  else if den < 2 * remainder then quotient + 1
  else quotient + quotient % 2

namespace Binary64

/-- The magnitude nearest to `num / den`; past the largest it is infinite. -/
def nearestMagnitude (num den : Nat) : Nat :=
  let scaled := num * twoPow 1074
  let exponent := (scaled / den).log2 - 52
  min infinite (exponent * twoPow 52 + roundHalfEven scaled (den * twoPow exponent))

def ofRatio (negative : Bool) (num den : Nat) : Binary64 :=
  ofMagnitude negative (nearestMagnitude num den)

def ofInt (n : Int) : Binary64 :=
  ofRatio (n < 0) n.natAbs 1

def powerOfTen (exponent : Nat) : Binary64 :=
  ofRatio false (Nat.pow 10 exponent) 1

def times (x y : Binary64) : Binary64 :=
  ofRatio false (x.units * y.units) (twoPow 1074 * twoPow 1074)

def dividedBy (x y : Binary64) : Binary64 :=
  ofRatio false x.units y.units

/-- Divides by a power of ten in steps of at most `10 ^ 308`, the largest that is finite. -/
def scaleDown (x : Binary64) (exponent : Nat) : Binary64 :=
  if exponent ≤ 308 then x.dividedBy (powerOfTen exponent)
  else if x.magnitude = 0 then x
  else scaleDown (x.dividedBy (powerOfTen 308)) (exponent - 308)
termination_by exponent

def ofScaled? (significand : Nat) (exponent : Int) : Option Binary64 :=
  let x := ofRatio false significand 1
  if exponent < 0 then some (x.scaleDown exponent.natAbs)
  else if x.magnitude = 0 then some x
  else if 308 < exponent then none
  else
    let scaled := x.times (powerOfTen exponent.natAbs)
    if scaled.isFinite then some scaled else none

end Binary64

end IndexedSequence
