import IndexedSequence.Binary64.Basic

/-!
The fewest decimal digits that read back as a given double. For one digit, two digits and so on, the two
neighbours of the value on that decimal grid are tried against the interval of numbers that round to it;
the first grid with a neighbour inside wins, and of two neighbours the nearer. A value halfway between two
neighbours is settled by the rule it is asked with.
-/

set_option autoImplicit false

namespace IndexedSequence

/-- The number `digits · 10 ^ exponent`. -/
structure Decimal where
  digits : Nat
  exponent : Int
  deriving DecidableEq

namespace Decimal

/-- Which of two decimals is taken for a value halfway between them: the one with an even last digit, or
the greater. -/
inductive Tie where
  | toEven
  | up
  deriving DecidableEq

def Tie.goesBelow (tie : Tie) (below : Nat) : Bool :=
  match tie with
  | .toEven => below % 2 == 0
  | .up => false

/-- The interval `low / den .. high / den` about `value / den`, its ends included or not. -/
structure Interval where
  low : Nat
  value : Nat
  high : Nat
  den : Nat
  closed : Bool

namespace Interval

def contains (interval : Interval) (num den : Nat) : Bool :=
  let left := interval.low * den
  let right := interval.high * den
  let point := num * interval.den
  if interval.closed then left ≤ point && point ≤ right else left < point && point < right

/-- The point of the grid of multiples of `10 ^ exponent` that lies in the interval, if one does; of two the
nearer to the value. -/
def onGrid? (interval : Interval) (tie : Tie) (exponent : Int) : Option Decimal :=
  let up := Nat.pow 10 exponent.toNat
  let down := Nat.pow 10 (-exponent).toNat
  let below := interval.value * down / (interval.den * up)
  let above := below + 1
  let twice := 2 * (interval.value * down)
  let middle := (below + above) * (interval.den * up)
  match interval.contains (below * up) down, interval.contains (above * up) down with
  | true, true =>
    if twice < middle || (twice == middle && tie.goesBelow below) then some ⟨below, exponent⟩
    else some ⟨above, exponent⟩
  | true, false => some ⟨below, exponent⟩
  | false, true => some ⟨above, exponent⟩
  | false, false => none

def leading (interval : Interval) : Int :=
  if interval.den ≤ interval.value then
    ((Nat.toDigits 10 (interval.value / interval.den)).length : Int) - 1
  else
    let length := (Nat.toDigits 10 (interval.den / interval.value)).length
    if interval.den ≤ interval.value * Nat.pow 10 (length - 1) then 1 - (length : Int)
    else -(length : Int)

/-- The coarsest grid of at most seventeen digits with a point in the interval. -/
def shortest? (interval : Interval) (tie : Tie) : Option Decimal :=
  (List.range 17).findSome? fun (more : Nat) => interval.onGrid? tie (interval.leading - more)

end Interval

end Decimal

namespace Binary64

/-- The numbers that round to a finite magnitude. Below a power of two the neighbour is half as far. -/
def roundingInterval (x : Binary64) : Decimal.Interval :=
  let m := significand x.magnitude
  let unit := twoPow (scale x.magnitude)
  let value := 4 * m * unit
  let narrow := m == twoPow 52 && 0 < scale x.magnitude
  { low := value - (if narrow then unit else 2 * unit)
    value := value
    high := value + 2 * unit
    den := 4 * twoPow 1074
    closed := m % 2 == 0 }

def shortest (tie : Decimal.Tie) (x : Binary64) : Decimal :=
  if x.magnitude = 0 then ⟨0, 0⟩ else (x.roundingInterval.shortest? tie).getD ⟨0, 0⟩

end Binary64

end IndexedSequence
