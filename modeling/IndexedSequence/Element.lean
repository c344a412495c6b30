import IndexedSequence.Sequence.Comparison
import IndexedSequence.Sequence.Forms

set_option autoImplicit false

namespace IndexedSequence

class Element (α : Type) extends BEq α, PartialCompare α, Rendered α, JsonCodec α where
  total? : Option (Ord α)
  /-- What values feed to a hasher, if they feed one. -/
  traced? : Option (Traced α)

namespace Element

instance : Element Int64 where
  total? := some inferInstance
  traced? := some inferInstance

instance : Element String where
  total? := some inferInstance
  traced? := some inferInstance

instance : Element Binary64 where
  total? := none
  traced? := none

instance {α : Type} [Element α] : Element (Sequence α) where
  total? := (total? : Option (Ord α)).map fun (_ : Ord α) => inferInstance
  traced? := (traced? : Option (Traced α)).map fun (_ : Traced α) => inferInstance

variable {α : Type} [Element α]

def compareSequences (s t : Sequence α) : Comparison where
  equal := s == t
  partialOrder := order? s t
  totalOrder := (total? : Option (Ord α)).map fun (_ : Ord α) => compare s t

def traceSequence (s : Sequence α) : Option (List Token) :=
  (traced? : Option (Traced α)).map fun (_ : Traced α) => trace s

end Element

end IndexedSequence
