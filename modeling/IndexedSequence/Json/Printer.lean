import IndexedSequence.Binary64.Text
import IndexedSequence.Json.Basic
import IndexedSequence.Text.Quoted

set_option autoImplicit false

namespace IndexedSequence.Json

/-- The quote, the backslash and the controls below the space are escaped, and nothing else. -/
def escapedChar (c : Char) : String :=
  match c with
  | '"' => "\\\""
  | '\\' => "\\\\"
  | '\x08' => "\\b"
  | '\t' => "\\t"
  | '\n' => "\\n"
  | '\x0c' => "\\f"
  | '\r' => "\\r"
  | c =>
    if c.toNat < 0x10 then "\\u000" ++ Text.hexDigits c.toNat
    else if c.toNat < 0x20 then "\\u00" ++ Text.hexDigits c.toNat
    else c.toString

def stringText (text : String) : String :=
  "\"" ++ String.join (text.toList.map escapedChar) ++ "\""

mutual

def text : Json → String
  | null => "null"
  | boolean value => if value then "true" else "false"
  | integer value => toString value
  | float value => if value.isFinite then value.text .json else "null"
  | string value => stringText value
  | array items => "[" ++ ",".intercalate (textAll items) ++ "]"
  | object members => "\x7b" ++ ",".intercalate (textMembers members) ++ "\x7d"

def textAll : List Json → List String
  | [] => []
  | item :: rest => item.text :: textAll rest

def textMembers : List (String × Json) → List String
  | [] => []
  | (name, value) :: rest => (stringText name ++ ":" ++ value.text) :: textMembers rest

end

end IndexedSequence.Json
