import IndexedSequence.Json.Writer

/-!
What sequences ask of a library that writes and reads documents. Nothing is said here of how it does so: a format
is whatever has these parts, and a lawful one does with them what is relied on.
-/

set_option autoImplicit false

namespace IndexedSequence.Json

variable {ε α : Type}

/-- How values of a type are written as documents and read from them; `ε` says why a document is refused. -/
structure Codec (ε α : Type) where
  write : α → Json
  read : Json → Except ε α

/-- What a reader of a sequence meets: one entry after the other, until they end or break off. -/
inductive Entries (ε : Type) where
  | done
  | broken (refusal : ε)
  | next (entry : Json) (later : Entries ε)

namespace Entries

def ofList : List Json → Entries ε
  | [] => done
  | entry :: later => next entry (ofList later)

def gather (read : Json → Except ε α) : Entries ε → Except ε (List α)
  | done => .ok []
  | broken refusal => .error refusal
  | next entry later => do return (← read entry) :: (← gather read later)

theorem gather_ofList (read : Json → Except ε α) (entries : List Json) :
    gather read (ofList entries) = entries.mapM read := by
  induction entries with
  | nil => rfl
  | cons entry later ih => rw [ofList, gather, ih, List.mapM_cons]

end Entries

class Spelling where
  print : Json → String
  parse? : String → Option Json

structure Format (ε : Type) extends Spelling where
  integers : Codec ε Int64
  texts : Codec ε String
  Taken : Type
  writer : ArrayWriter Id Taken Json
  /-- What a document shows of itself to a reader that expects a sequence. -/
  entries : Json → Except ε (Entries ε)
  /-- How many arrays may stand inside each other in a text that is read. -/
  depth : Nat

/-- Made of integers of 64 bits, signed or unsigned, of text, and of arrays inside each other to a depth. -/
inductive Plain : Nat → Json → Prop
  | integer {depth : Nat} {n : Int} (low : -(twoPow 63 : Int) ≤ n) (high : n < twoPow 64) : Plain depth (.integer n)
  | string {depth : Nat} (value : String) : Plain depth (.string value)
  | array {depth : Nat} {entries : List Json} (each : ∀ entry ∈ entries, Plain depth entry) :
    Plain (depth + 1) (.array entries)

/-- Leaves come back as they were written, arrays are written and visited in order, what is no array is refused, and
the text of a plain document is read as that document. -/
structure Format.Lawful (format : Format ε) : Prop where
  writes_integer (n : Int64) : format.integers.write n = .integer n.toInt
  reads_integer {document : Json} {n : Int64} :
    format.integers.read document = .ok n ↔ document = .integer n.toInt
  writes_text (value : String) : format.texts.write value = .string value
  reads_text {document : Json} {value : String} :
    format.texts.read document = .ok value ↔ document = .string value
  writes_in_order (announced : Option UInt64) (items : List Json) :
    (format.writer.run announced items).run = .array items
  visits_in_order (items : List Json) : format.entries (.array items) = .ok (.ofList items)
  refuses_others {document : Json} (other : ∀ items, document ≠ .array items) :
    ∃ refusal, format.entries document = .error refusal
  parses_printed {document : Json} (plain : document.Plain format.depth) :
    format.parse? (format.print document) = some document

end IndexedSequence.Json
