import IndexedSequence.Element

set_option autoImplicit false

namespace IndexedSequence

/-- Integers, text, or sequences of what has a schema. -/
inductive Schema where
  | integer
  | text
  | sequence (items : Schema)

namespace Schema

@[reducible]
def Value : Schema → Type
  | integer => Int64
  | text => String
  | sequence items => Sequence items.Value

instance element : (schema : Schema) → Element schema.Value
  | integer => inferInstanceAs (Element Int64)
  | text => inferInstanceAs (Element String)
  | sequence items =>
    letI := items.element
    inferInstanceAs (Element (Sequence items.Value))

instance traced : (schema : Schema) → Traced schema.Value
  | integer => inferInstanceAs (Traced Int64)
  | text => inferInstanceAs (Traced String)
  | sequence items =>
    letI := items.traced
    inferInstanceAs (Traced (Sequence items.Value))

variable {ε : Type}

def codec (format : Json.Format ε) : (schema : Schema) → Json.Codec ε schema.Value
  | integer => format.integers
  | text => format.texts
  | sequence items => Sequence.codec format (items.codec format)

def depth : Schema → Nat
  | integer => 0
  | text => 0
  | sequence items => items.depth + 1

def Accepts : Schema → Json → Prop
  | integer, document => ∃ n : Int64, document = .integer n.toInt
  | text, document => ∃ value, document = .string value
  | sequence items, document =>
    ∃ entries, document = .array entries ∧ ∀ entry ∈ entries, items.Accepts entry

/-- What a format has against a document. Of an array it is what it has against the first entry that does not fit. -/
inductive Refuses (format : Json.Format ε) : Schema → Json → ε → Prop
  | integer {document : Json} {refusal : ε} (refused : format.integers.read document = .error refusal) :
    Refuses format integer document refusal
  | text {document : Json} {refusal : ε} (refused : format.texts.read document = .error refusal) :
    Refuses format text document refusal
  | notArray {items : Schema} {document : Json} {refusal : ε} (other : ∀ entries, document ≠ .array entries)
    (refused : format.entries document = .error refusal) : Refuses format (sequence items) document refusal
  | entry {items : Schema} {before after : List Json} {first : Json} {refusal : ε}
    (fit : ∀ entry ∈ before, items.Accepts entry) (refused : Refuses format items first refusal) :
    Refuses format (sequence items) (.array (before ++ first :: after)) refusal

/-- The value with every sequence in it built at once from its elements. -/
def rebuilt : (schema : Schema) → schema.Value → schema.Value
  | integer, n => n
  | text, value => value
  | sequence items, s => Sequence.ofList (s.toList.map items.rebuilt)

def Bounded : (schema : Schema) → schema.Value → Prop
  | integer, _ => True
  | text, _ => True
  | sequence items, s => s.toList.length < UInt64.size ∧ ∀ element ∈ s.toList, items.Bounded element

end Schema

end IndexedSequence
