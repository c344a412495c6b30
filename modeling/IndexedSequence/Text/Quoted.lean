import IndexedSequence.Text.Visible

set_option autoImplicit false

namespace IndexedSequence.Text

def hexDigits (n : Nat) : String :=
  String.ofList (Nat.toDigits 16 n)

/-- One character inside the quotes. The single quote needs no escape there. -/
def quotedChar (c : Char) : String :=
  match c with
  | '"' => "\\\""
  | '\\' => "\\\\"
  | '\n' => "\\n"
  | '\r' => "\\r"
  | '\t' => "\\t"
  | '\x00' => "\\0"
  | c => if isVisible c then c.toString else "\\u\x7b" ++ hexDigits c.toNat ++ "\x7d"

def quoted (text : String) : String :=
  "\"" ++ String.join (text.toList.map quotedChar) ++ "\""

end IndexedSequence.Text
