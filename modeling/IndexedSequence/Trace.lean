set_option autoImplicit false

namespace IndexedSequence

inductive Token where
  | size (n : UInt64)
  | integer (n : Int64)
  | bytes (bytes : List UInt8)
  | byte (n : UInt8)
  deriving DecidableEq

class Traced (α : Type) where
  trace : α → List Token

export Traced (trace)

instance : Traced Int64 where
  trace n := [.integer n]

instance : Traced String where
  -- No text contains the last byte, so that none begins another.
  trace text := [.bytes text.toUTF8.data.toList, .byte 0xff]

end IndexedSequence
