import IndexedSequence.Binary64.Text
import IndexedSequence.Rendering.Basic
import IndexedSequence.Text.Quoted

set_option autoImplicit false

namespace IndexedSequence

instance : Rendered Int64 := ⟨fun n => .atom (toString n)⟩

instance : Rendered UInt64 := ⟨fun n => .atom (toString n)⟩

instance : Rendered String := ⟨fun text => .atom (Text.quoted text)⟩

instance : Rendered Binary64 := ⟨fun x => .atom (x.text .inspection)⟩

end IndexedSequence
