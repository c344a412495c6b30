import IndexedSequence.Json.Numeral

/-!
Reading JSON text. Blanks are the space, the tab, the line feed and the carriage return; a control
character inside a string is refused, and so is half of a surrogate pair; nothing but blanks may follow the
value. The length of the text bounds the work; how deep arrays and objects may be nested is bounded for itself.
-/

set_option autoImplicit false

namespace IndexedSequence.Json

namespace Reader

def isBlank (c : Char) : Bool :=
  c == ' ' || c == '\t' || c == '\n' || c == '\r'

def skipBlanks (text : List Char) : List Char :=
  text.dropWhile isBlank

def expect? : List Char → List Char → Option (List Char)
  | [], text => some text
  | c :: word, d :: text => if c == d then expect? word text else none
  | _ :: _, [] => none

def digit (c : Char) : Nat := c.toNat - '0'.toNat

def digits (text : List Char) : List Nat × List Char :=
  ((text.takeWhile Char.isDigit).map digit, text.dropWhile Char.isDigit)

def digits? (text : List Char) : Option (List Nat × List Char) :=
  match digits text with
  | ([], _) => none
  | found => some found

def whole? (text : List Char) : Option (List Nat × List Char) :=
  match digits? text with
  | some (0 :: _ :: _, _) => none
  | found => found

def fraction? : List Char → Option (Option (List Nat) × List Char)
  | '.' :: text => (digits? text).map fun (found, rest) => (some found, rest)
  | text => some (none, text)

def decimal (digits : List Nat) : Nat :=
  digits.foldl (fun value digit => value * 10 + digit) 0

def signedDigits? : List Char → Option (Int × List Char)
  | '-' :: text => (digits? text).map fun (found, rest) => (-(decimal found : Int), rest)
  | '+' :: text => (digits? text).map fun (found, rest) => ((decimal found : Int), rest)
  | text => (digits? text).map fun (found, rest) => ((decimal found : Int), rest)

def exponent? : List Char → Option (Option Int × List Char)
  | 'e' :: text => (signedDigits? text).map fun (found, rest) => (some found, rest)
  | 'E' :: text => (signedDigits? text).map fun (found, rest) => (some found, rest)
  | text => some (none, text)

def number? (negative : Bool) (text : List Char) : Option (Json × List Char) := do
  let (whole, text) ← whole? text
  let (fraction, text) ← fraction? text
  let (exponent, text) ← exponent? text
  let value ← Numeral.value? ⟨negative, whole, fraction, exponent⟩
  return (value, text)

def hexDigit? (c : Char) : Option Nat :=
  if '0' ≤ c ∧ c ≤ '9' then some (c.toNat - '0'.toNat)
  else if 'a' ≤ c ∧ c ≤ 'f' then some (c.toNat - 'a'.toNat + 10)
  else if 'A' ≤ c ∧ c ≤ 'F' then some (c.toNat - 'A'.toNat + 10)
  else none

def unit? : List Char → Option (Nat × List Char)
  | a :: b :: c :: d :: text => do
    let value := (((← hexDigit? a) * 16 + (← hexDigit? b)) * 16 + (← hexDigit? c)) * 16
      + (← hexDigit? d)
    return (value, text)
  | _ => none

/-- The character of an escaped code unit, or of two that form a pair. -/
def codePoint? (text : List Char) : Option (Char × List Char) := do
  let (high, text) ← unit? text
  if 0xd800 ≤ high ∧ high ≤ 0xdbff then
    let (low, text) ← unit? (← expect? ['\\', 'u'] text)
    if 0xdc00 ≤ low ∧ low ≤ 0xdfff then
      return (Char.ofNat (0x10000 + (high - 0xd800) * 0x400 + (low - 0xdc00)), text)
    else none
  else if 0xdc00 ≤ high ∧ high ≤ 0xdfff then none
  else return (Char.ofNat high, text)

def escaped? : List Char → Option (Char × List Char)
  | '"' :: text => some ('"', text)
  | '\\' :: text => some ('\\', text)
  | '/' :: text => some ('/', text)
  | 'b' :: text => some ('\x08', text)
  | 'f' :: text => some ('\x0c', text)
  | 'n' :: text => some ('\n', text)
  | 'r' :: text => some ('\r', text)
  | 't' :: text => some ('\t', text)
  | 'u' :: text => codePoint? text
  | _ => none

/-- The rest of a string whose quote has been read; `read` holds its characters, the latest first. -/
def string? : Nat → List Char → List Char → Option (String × List Char)
  | 0, _, _ => none
  | bound + 1, read, text =>
    match text with
    | '"' :: text => some (String.ofList read.reverse, text)
    | '\\' :: text => do
      let (c, text) ← escaped? text
      string? bound (c :: read) text
    | c :: text => if c.toNat < 0x20 then none else string? bound (c :: read) text
    | [] => none

mutual

/-- A value with no more than `depth` arrays and objects inside each other. -/
def value? : Nat → Nat → List Char → Option (Json × List Char)
  | 0, _, _ => none
  | bound + 1, depth, text =>
    match skipBlanks text with
    | 'n' :: text => do return (.null, ← expect? ['u', 'l', 'l'] text)
    | 't' :: text => do return (.boolean true, ← expect? ['r', 'u', 'e'] text)
    | 'f' :: text => do return (.boolean false, ← expect? ['a', 'l', 's', 'e'] text)
    | '-' :: text => number? true text
    | '"' :: text => do
      let (value, text) ← string? bound [] text
      return (.string value, text)
    | '[' :: text =>
      match depth, skipBlanks text with
      | 0, _ => none
      | _ + 1, ']' :: text => some (.array [], text)
      | depth + 1, text => items? bound depth [] text
    | '\x7b' :: text =>
      match depth, skipBlanks text with
      | 0, _ => none
      | _ + 1, '\x7d' :: text => some (.object [], text)
      | depth + 1, text => members? bound depth [] text
    | text => number? false text

def items? : Nat → Nat → List Json → List Char → Option (Json × List Char)
  | 0, _, _, _ => none
  | bound + 1, depth, read, text => do
    let (item, text) ← value? bound depth text
    match skipBlanks text with
    | ',' :: text => items? bound depth (item :: read) text
    | ']' :: text => some (.array (item :: read).reverse, text)
    | _ => none

def members? : Nat → Nat → List (String × Json) → List Char → Option (Json × List Char)
  | 0, _, _, _ => none
  | bound + 1, depth, read, text => do
    let (name, text) ← string? bound [] (← expect? ['"'] (skipBlanks text))
    let (value, text) ← value? bound depth (← expect? [':'] (skipBlanks text))
    match skipBlanks text with
    | ',' :: text => members? bound depth ((name, value) :: read) text
    | '\x7d' :: text => some (.object ((name, value) :: read).reverse, text)
    | _ => none

end

end Reader

def deepest : Nat := 127

def read? (text : String) : Option Json := do
  let chars := text.toList
  let (value, rest) ← Reader.value? (2 * chars.length + 2) deepest chars
  if (Reader.skipBlanks rest).isEmpty then some value else none

end IndexedSequence.Json
