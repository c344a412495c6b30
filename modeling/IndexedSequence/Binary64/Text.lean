import IndexedSequence.Binary64.Rounding
import IndexedSequence.Binary64.Shortest

set_option autoImplicit false

namespace IndexedSequence

structure DecimalStyle where
  /-- Which digits are written for a double halfway between two shortest decimals. -/
  tie : Decimal.Tie
  /-- Whether a number is written without an exponent, by the power of ten of its leading digit. -/
  positional : Int → Bool
  /-- What an exponent that is not negative begins with. -/
  plus : String

namespace DecimalStyle

/-- For inspection: without an exponent from a ten-thousandth to sixteen digits before the point, and a half
goes up. -/
def inspection : DecimalStyle := ⟨.up, fun leading => -4 ≤ leading && leading ≤ 15, ""⟩

/-- In JSON one more zero is written after the point, every exponent has a sign, and a half goes to the even
digit. -/
def json : DecimalStyle := ⟨.toEven, fun leading => -5 ≤ leading && leading ≤ 15, "+"⟩

end DecimalStyle

namespace Decimal

def significantDigits (digits : Nat) : List Char :=
  match ((Nat.toDigits 10 digits).reverse.dropWhile (· == '0')).reverse with
  | [] => ['0']
  | kept => kept

def zeros (count : Nat) : List Char :=
  List.replicate count '0'

/-- Digits whose first stands at the power of ten `leading`, without an exponent. A whole number keeps one
zero after the point. -/
def positionalText (digits : List Char) (leading : Int) : String :=
  match leading with
  | .ofNat above =>
    if digits.length ≤ above + 1 then
      String.ofList (digits ++ zeros (above + 1 - digits.length)) ++ ".0"
    else String.ofList (digits.take (above + 1)) ++ "." ++ String.ofList (digits.drop (above + 1))
  | .negSucc below => "0." ++ String.ofList (zeros below ++ digits)

def exponentText (plus : String) (digits : List Char) (leading : Int) : String :=
  let fraction := if digits.length ≤ 1 then "" else "." ++ String.ofList (digits.drop 1)
  let sign := if leading < 0 then "" else plus
  String.ofList (digits.take 1) ++ fraction ++ "e" ++ sign ++ toString leading

def text (style : DecimalStyle) (decimal : Decimal) : String :=
  let digits := significantDigits decimal.digits
  let leading := decimal.exponent + (Nat.toDigits 10 decimal.digits).length - 1
  if style.positional leading then positionalText digits leading
  else exponentText style.plus digits leading

end Decimal

namespace Binary64

def signedText (absolute : Binary64 → String) (x : Binary64) : String :=
  if x.isNaN then "NaN"
  else (if x.isNegative then "-" else "") ++ (if x.isFinite then absolute x else "inf")

def text (style : DecimalStyle) (x : Binary64) : String :=
  x.signedText fun x => (x.shortest style.tie).text style

def wholeText (x : Binary64) : String :=
  x.signedText fun x => toString (roundHalfEven x.units (twoPow 1074))

end Binary64

end IndexedSequence
