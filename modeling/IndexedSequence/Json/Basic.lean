import IndexedSequence.Binary64.Basic

set_option autoImplicit false

namespace IndexedSequence

/-- A number is an integer where it is written as one and fits 64 bits, signed or unsigned, and a double otherwise. -/
inductive Json where
  | null
  | boolean (value : Bool)
  | integer (value : Int)
  | float (value : Binary64)
  | string (value : String)
  | array (items : List Json)
  | object (members : List (String × Json))

namespace Json

def member? (name : String) : Json → Option Json
  | object members => (members.find? (·.1 == name)).map (·.2)
  | _ => none

def natural (n : Nat) : Json := integer n

end Json

end IndexedSequence
