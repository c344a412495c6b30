import IndexedSequence.Binary64.Rounding
import IndexedSequence.Json.Basic

set_option autoImplicit false

namespace IndexedSequence

structure Numeral where
  negative : Bool
  whole : List Nat
  fraction : Option (List Nat)
  exponent : Option Int

namespace Numeral

def greatest : Nat := twoPow 64 - 1

/-- Takes digits into a significand while it fits 64 bits, and counts those that went in. -/
def absorb (significand taken : Nat) : List Nat → Nat × Nat
  | [] => (significand, taken)
  | digit :: rest =>
    if significand * 10 + digit ≤ greatest then absorb (significand * 10 + digit) (taken + 1) rest
    else (significand, taken)

/-- Minus zero, and what does not fit a signed 64-bit number when negative, counts as a double. -/
def integer? (numeral : Numeral) (significand : Nat) : Option Int :=
  if numeral.negative then
    if 0 < significand ∧ significand ≤ twoPow 63 then some (-(significand : Int)) else none
  else some significand

def value? (numeral : Numeral) : Option Json :=
  let (significand, taken) := absorb 0 0 numeral.whole
  let dropped := numeral.whole.length - taken
  let asInteger :=
    if numeral.fraction.isNone && numeral.exponent.isNone && dropped == 0 then
      numeral.integer? significand
    else none
  match asInteger with
  | some n => some (.integer n)
  | none => do
    let (significand, places) := absorb significand 0 (numeral.fraction.getD [])
    let exponent := (dropped : Int) - places + numeral.exponent.getD 0
    let size ← Binary64.ofScaled? significand exponent
    return .float (if numeral.negative then size.negate else size)

end Numeral

end IndexedSequence
