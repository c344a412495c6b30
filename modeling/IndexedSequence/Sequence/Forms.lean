import IndexedSequence.Json.Codec
import IndexedSequence.Rendering.Scalars
import IndexedSequence.Sequence.Basic
import IndexedSequence.Trace

set_option autoImplicit false

namespace IndexedSequence

instance {α : Type} [Rendered α] : Rendered (Sequence α) := ⟨fun s => .list (s.elements.map rendering)⟩

instance : Rendered OutOfRange where
  rendering error :=
    .record "IndexOutOfRange" [("index", rendering error.index), ("size", rendering error.size)] false

namespace Sequence

variable {α : Type}

/-- Announces the size, and then gives the elements in order. -/
def writeTo {m : Type → Type} {σ ρ : Type} [Monad m] (write : α → Json) (writer : Json.ArrayWriter m σ ρ)
    (s : Sequence α) : m ρ := do
  let opened ← writer.start (some s.size)
  let taken ← s.elements.foldlM (fun taken element => writer.item taken (write element)) opened
  writer.finish taken

variable {ε : Type}

/-- The entries are read one by one before anything is built of them. -/
def ofEntries (read : Json → Except ε α) (entries : Json.Entries ε) : Except ε (Sequence α) :=
  ofList <$> entries.gather read

def codec (format : Json.Format ε) (items : Json.Codec ε α) : Json.Codec ε (Sequence α) where
  write s := (s.writeTo items.write format.writer).run
  read document := do ofEntries items.read (← format.entries document)

instance [JsonCodec α] : JsonCodec (Sequence α) where
  toJson := (codec .compact JsonCodec.codec).write
  ofJson := (codec .compact JsonCodec.codec).read

end Sequence

/-- The size goes before the elements, so that no trace begins another. -/
instance {α : Type} [Traced α] : Traced (Sequence α) where
  trace s := .size s.size :: s.elements.flatMap trace

instance : Traced OutOfRange where
  trace error := [.size error.index, .size error.size]

end IndexedSequence
