import IndexedSequence.Element
import IndexedSequence.Proofs.Comparing
import IndexedSequence.Proofs.Sequences

set_option autoImplicit false

namespace IndexedSequence

variable {α : Type}

namespace Listed

def compared [Element α] (xs ys : List α) : Comparison where
  equal := xs.isEqv ys (· == ·)
  partialOrder := firstOrder? order? xs ys
  totalOrder := (Element.total? : Option (Ord α)).map fun (_ : Ord α) => xs.compareLex compare ys

def traced [Element α] (xs : List α) : Option (List Token) :=
  (Element.traced? : Option (Traced α)).map fun (_ : Traced α) =>
    .size (.ofNat xs.length) :: xs.flatMap trace

def ofJson [JsonCodec α] : Json → Except Json.Mismatch (List α)
  | .array items => JsonCodec.ofItems items
  | other => .error (.wrongType other .sequence)

end Listed

theorem length_eq_of_isEqv {xs ys : List α} {same : α → α → Bool} (h : xs.isEqv ys same = true) :
    xs.length = ys.length := by
  induction xs generalizing ys with
  | nil =>
    cases ys with
    | nil => rfl
    | cons y ys => cases h
  | cons x xs ih =>
    cases ys with
    | nil => cases h
    | cons y ys =>
      rw [List.isEqv_cons_cons, Bool.and_eq_true] at h
      exact congrArg (· + 1) (ih h.2)

theorem isEqv_map {xs : List α} {same : α → α → Bool} {f : α → α} (h : ∀ x ∈ xs, same x (f x) = true) :
    xs.isEqv (xs.map f) same = true := by
  induction xs with
  | nil => rfl
  | cons x xs ih =>
    rw [List.forall_mem_cons] at h
    rw [List.map_cons, List.isEqv_cons_cons, h.1, ih h.2]
    rfl

namespace Sequence.Holds

variable {s t : Sequence α} {xs ys : List α}

theorem equal_eq [BEq α] (hs : s.Holds xs) (ht : t.Holds ys) (boundX : xs.length < UInt64.size)
    (boundY : ys.length < UInt64.size) : (s == t) = xs.isEqv ys (· == ·) := by
  change (s.size == t.size && Walk.agree (· == ·) (s.walk .front) (t.walk .front)) = _
  rw [(hs.walk boundX .front).agree (ht.walk boundY .front), hs.size_eq, ht.size_eq]
  change (_ && xs.isEqv ys (· == ·)) = _
  cases agree : xs.isEqv ys (· == ·) with
  | false => exact Bool.and_false _
  | true => rw [length_eq_of_isEqv agree, beq_self_eq_true, Bool.and_self]

theorem partialOrder_eq [PartialCompare α] (hs : s.Holds xs) (ht : t.Holds ys)
    (boundX : xs.length < UInt64.size) (boundY : ys.length < UInt64.size) :
    order? s t = firstOrder? order? xs ys :=
  (hs.walk boundX .front).partialOrder (ht.walk boundY .front) order?

theorem totalOrder_eq [Ord α] (hs : s.Holds xs) (ht : t.Holds ys)
    (boundX : xs.length < UInt64.size) (boundY : ys.length < UInt64.size) :
    compare s t = xs.compareLex compare ys :=
  (hs.walk boundX .front).totalOrder (ht.walk boundY .front) compare

theorem compareSequences_eq [Element α] (hs : s.Holds xs) (ht : t.Holds ys)
    (boundX : xs.length < UInt64.size) (boundY : ys.length < UInt64.size) :
    Element.compareSequences s t = Listed.compared xs ys := by
  rw [Element.compareSequences, Listed.compared, hs.equal_eq ht boundX boundY,
    hs.partialOrder_eq ht boundX boundY]
  congr 2
  funext order
  exact hs.totalOrder_eq ht boundX boundY

theorem trace_eq [Traced α] (h : s.Holds xs) (bound : xs.length < UInt64.size) :
    trace s = .size (.ofNat xs.length) :: xs.flatMap trace := by
  change Token.size s.size :: s.elements.flatMap trace = _
  rw [h.size_eq, h.elements_eq bound]

theorem traceSequence_eq [Element α] (h : s.Holds xs) (bound : xs.length < UInt64.size) :
    Element.traceSequence s = Listed.traced xs := by
  rw [Element.traceSequence, Listed.traced]
  congr 1
  funext traced
  exact h.trace_eq bound

theorem rendering_eq [Rendered α] (h : s.Holds xs) (bound : xs.length < UInt64.size) :
    rendering s = .list (xs.map rendering) := by
  change Rendering.list (s.elements.map rendering) = _
  rw [h.elements_eq bound]

/-- Whatever a sequence is written with learns the number of its elements first, and then its elements in
order. -/
theorem writeTo_eq {m : Type → Type} {σ ρ : Type} [Monad m] (write : α → Json)
    (writer : Json.ArrayWriter m σ ρ) (h : s.Holds xs) (bound : xs.length < UInt64.size) :
    s.writeTo write writer = writer.run (some (.ofNat xs.length)) (xs.map write) := by
  rw [Sequence.writeTo, h.size_eq, h.elements_eq bound, Json.ArrayWriter.run]
  simp only [List.foldlM_map]

theorem toJson_eq [JsonCodec α] (h : s.Holds xs) (bound : xs.length < UInt64.size) :
    JsonCodec.toJson s = .array (xs.map JsonCodec.toJson) := by
  change (s.writeTo JsonCodec.toJson .collecting).run = _
  rw [h.writeTo_eq _ _ bound, Json.ArrayWriter.run_collecting]

end Sequence.Holds

theorem Sequence.eq_ofList_of_read {ε : Type} {format : Json.Format ε} {items : Json.Codec ε α} {document : Json}
    {s : Sequence α} (made : (codec format items).read document = .ok s) : ∃ xs, s = ofList xs := by
  obtain ⟨entries, -, gathered⟩ := bind_eq_ok_iff.mp made
  obtain ⟨xs, -, rfl⟩ := map_eq_ok_iff.mp gathered
  exact ⟨xs, rfl⟩

theorem Sequence.ofJson_eq [JsonCodec α] (document : Json) :
    (JsonCodec.ofJson document : Except Json.Mismatch (Sequence α)) =
      ofList <$> Listed.ofJson document := by
  cases document with
  | array items => exact congrArg (ofList <$> ·) (Json.Entries.gather_ofList JsonCodec.ofJson items)
  | _ => rfl

end IndexedSequence
