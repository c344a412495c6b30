import IndexedSequence.Json.Format
import IndexedSequence.Json.Printer
import IndexedSequence.Json.Reader

set_option autoImplicit false

namespace IndexedSequence

namespace Json

inductive Expected where
  | sequence
  | text
  | integer
  | double
  deriving DecidableEq

def Expected.name : Expected → String
  | sequence => "a sequence"
  | text => "a string"
  | integer => "i64"
  | double => "f64"

inductive Mismatch where
  | wrongType (found : Json) (expected : Expected)
  | wrongValue (found : Json) (expected : Expected)

def description : Json → String
  | null => "null"
  | boolean value => if value then "boolean `true`" else "boolean `false`"
  | integer value => s!"integer `{value}`"
  | float value => "floating point `" ++ value.text .json ++ "`"
  | string value => "string " ++ Text.quoted value
  | array _ => "sequence"
  | object _ => "map"

def Mismatch.message : Mismatch → String
  | wrongType found expected => "invalid type: " ++ found.description ++ ", expected " ++ expected.name
  | wrongValue found expected => "invalid value: " ++ found.description ++ ", expected " ++ expected.name

end Json

class JsonCodec (α : Type) where
  toJson : α → Json
  ofJson : Json → Except Json.Mismatch α

namespace JsonCodec

def ofItems {α : Type} [JsonCodec α] (items : List Json) : Except Json.Mismatch (List α) :=
  items.mapM ofJson

def codec {α : Type} [JsonCodec α] : Json.Codec Json.Mismatch α := ⟨toJson, ofJson⟩

instance : JsonCodec Int64 where
  toJson value := .integer value.toInt
  ofJson
    | .integer value =>
      if Int64.minValue.toInt ≤ value ∧ value ≤ Int64.maxValue.toInt then .ok (Int64.ofInt value)
      else .error (.wrongValue (.integer value) .integer)
    | other => .error (.wrongType other .integer)

instance : JsonCodec String where
  toJson := .string
  ofJson
    | .string value => .ok value
    | other => .error (.wrongType other .text)

instance : JsonCodec Binary64 where
  toJson := .float
  ofJson
    | .float value => .ok value
    | .integer value => .ok (.ofInt value)
    | other => .error (.wrongType other .double)

end JsonCodec

namespace Json

instance spelling : Spelling := ⟨text, read?⟩

/-- Text without blanks, and refusals that name what was found and what was expected. -/
def Format.compact : Format Mismatch where
  toSpelling := spelling
  integers := JsonCodec.codec
  texts := JsonCodec.codec
  Taken := List Json
  writer := .collecting
  entries
    | array items => .ok (.ofList items)
    | other => .error (.wrongType other .sequence)
  depth := deepest

end Json

end IndexedSequence
