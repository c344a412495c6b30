import IndexedSequence.Proofs.Documents
import IndexedSequence.Proofs.Ordering

set_option autoImplicit false

namespace IndexedSequence

variable {α β : Type}

/-- Equal values, and only these, feed the same, never nothing, and no value the beginning of what another feeds. -/
structure PrefixCode [BEq α] (admitted : α → Prop) (fed : α → List β) : Prop where
  eq_iff {x y : α} (hx : admitted x) (hy : admitted y) : fed x = fed y ↔ (x == y) = true
  prefix_free {x y : α} (hx : admitted x) (hy : admitted y) (begins : fed x <+: fed y) : fed x = fed y
  nonempty {x : α} (hx : admitted x) : fed x ≠ []

namespace PrefixCode

variable [BEq α] {admitted : α → Prop} {fed : α → List β} {x y : α} {xs ys : List α} {rest rest' : List β}

theorem append_eq_iff (h : PrefixCode admitted fed) (hx : admitted x) (hy : admitted y) :
    fed x ++ rest = fed y ++ rest' ↔ (x == y) = true ∧ rest = rest' := by
  rw [← h.eq_iff hx hy]
  constructor
  · intro same
    -- Both begin the same list, so that one of them begins the other.
    have first : fed x <+: fed y ++ rest' := same ▸ List.prefix_append (fed x) rest
    have alike : fed x = fed y := by
      cases List.prefix_or_prefix_of_prefix first (List.prefix_append (fed y) rest') with
      | inl begins => exact h.prefix_free hx hy begins
      | inr begins => exact (h.prefix_free hy hx begins).symm
    rw [alike] at same
    exact ⟨alike, List.append_cancel_left same⟩
  · rintro ⟨alike, rfl⟩
    rw [alike]

theorem of_append_eq_iff (nonempty : ∀ x, admitted x → fed x ≠ [])
    (parts : ∀ x y (rest rest' : List β), admitted x → admitted y →
      (fed x ++ rest = fed y ++ rest' ↔ (x == y) = true ∧ rest = rest')) : PrefixCode admitted fed where
  eq_iff hx hy := by simpa using parts _ _ [] [] hx hy
  prefix_free {x y} hx hy begins := by
    obtain ⟨rest, same⟩ := begins
    have parted : fed x ++ rest = fed y ++ [] := by simpa using same
    obtain ⟨-, rfl⟩ := (parts x y rest [] hx hy).mp parted
    simpa using same
  nonempty hx := nonempty _ hx

theorem of_length {n : Nat} (length : ∀ x, (fed x).length = n + 1)
    (same : ∀ x y, fed x = fed y ↔ (x == y) = true) : PrefixCode admitted fed where
  eq_iff _ _ := same _ _
  prefix_free _ _ begins := begins.eq_of_length (by rw [length, length])
  nonempty {x} _ := List.ne_nil_of_length_eq_add_one (length x)

/-- What ends with what is not in it before never feeds a beginning. -/
theorem of_stop {body : α → List β} {stop : β} (absent : ∀ x, stop ∉ body x)
    (same : ∀ x y, body x = body y ↔ (x == y) = true) : PrefixCode admitted fun x => body x ++ [stop] where
  eq_iff {x y} _ _ := by rw [List.append_left_inj, same]
  prefix_free {x y} _ _ begins := by
    cases List.prefix_concat_iff.mp begins with
    | inl alike => exact alike
    | inr within =>
      have mem : stop ∈ body y := within.subset (by simp)
      exact absurd mem (absent y)
  nonempty _ := List.concat_ne_nil _ _

theorem mono {fewer : α → Prop} (h : PrefixCode admitted fed) (among : ∀ x, fewer x → admitted x) :
    PrefixCode fewer fed where
  eq_iff hx hy := h.eq_iff (among _ hx) (among _ hy)
  prefix_free hx hy := h.prefix_free (among _ hx) (among _ hy)
  nonempty hx := h.nonempty (among _ hx)

theorem flatMap_append_eq_iff (h : PrefixCode admitted fed) (lengths : xs.length = ys.length)
    (hx : ∀ x ∈ xs, admitted x) (hy : ∀ y ∈ ys, admitted y) :
    xs.flatMap fed ++ rest = ys.flatMap fed ++ rest' ↔ xs.isEqv ys (· == ·) = true ∧ rest = rest' := by
  induction xs generalizing ys with
  | nil =>
    cases ys with
    | nil => simp
    | cons y ys => cases lengths
  | cons x xs ih =>
    cases ys with
    | nil => cases lengths
    | cons y ys =>
      rw [List.forall_mem_cons] at hx hy
      calc
        (x :: xs).flatMap fed ++ rest = (y :: ys).flatMap fed ++ rest' ↔
            fed x ++ (xs.flatMap fed ++ rest) = fed y ++ (ys.flatMap fed ++ rest') := by
          rw [List.flatMap_cons, List.flatMap_cons, List.append_assoc, List.append_assoc]
        _ ↔ (x == y) = true ∧ xs.flatMap fed ++ rest = ys.flatMap fed ++ rest' := h.append_eq_iff hx.1 hy.1
        _ ↔ (x == y) = true ∧ xs.isEqv ys (· == ·) = true ∧ rest = rest' := by
          rw [ih (Nat.succ.inj lengths) hx.2 hy.2]
        _ ↔ (x :: xs).isEqv (y :: ys) (· == ·) = true ∧ rest = rest' := by
          rw [List.isEqv_cons_cons, Bool.and_eq_true, and_assoc]

theorem flatMap_eq_iff (h : PrefixCode admitted fed) (hx : ∀ x ∈ xs, admitted x) (hy : ∀ y ∈ ys, admitted y) :
    xs.flatMap fed = ys.flatMap fed ↔ xs.isEqv ys (· == ·) = true := by
  induction xs generalizing ys with
  | nil =>
    cases ys with
    | nil => simp
    | cons y ys =>
      have fedFirst : fed y ≠ [] := h.nonempty (hy y List.mem_cons_self)
      simp [fedFirst]
  | cons x xs ih =>
    cases ys with
    | nil =>
      have fedFirst : fed x ≠ [] := h.nonempty (hx x List.mem_cons_self)
      simp [fedFirst]
    | cons y ys =>
      rw [List.forall_mem_cons] at hx hy
      calc
        (x :: xs).flatMap fed = (y :: ys).flatMap fed ↔ (x == y) = true ∧ xs.flatMap fed = ys.flatMap fed := by
          rw [List.flatMap_cons, List.flatMap_cons, h.append_eq_iff hx.1 hy.1]
        _ ↔ (x == y) = true ∧ xs.isEqv ys (· == ·) = true := by rw [ih hx.2 hy.2]
        _ ↔ (x :: xs).isEqv (y :: ys) (· == ·) = true := by rw [List.isEqv_cons_cons, Bool.and_eq_true]

end PrefixCode

theorem PrefixCode.sequences [Element α] [Arithmetic] [Json.Spelling] [Arithmetic.Modular] {admitted : α → Prop}
    {fed : α → List β} {size : UInt64 → List β} (sizes : PrefixCode (fun _ => True) size)
    (h : PrefixCode admitted fed) :
    PrefixCode (Sequence.Attained admitted) fun s => size s.size ++ s.elements.flatMap fed := by
  apply PrefixCode.of_append_eq_iff
  · intro s _ nothing
    exact sizes.nonempty trivial (List.append_eq_nil_iff.mp nothing).1
  · intro s t rest rest' hs ht
    rw [hs.holds.size_eq, ht.holds.size_eq, hs.holds.elements_eq hs.bounded, ht.holds.elements_eq ht.bounded,
      List.append_assoc, List.append_assoc, sizes.append_eq_iff trivial trivial, hs.equal_eq ht, beq_iff_eq]
    constructor
    · rintro ⟨words, behind⟩
      have lengths : s.toList.length = t.toList.length := by
        have counts := congrArg UInt64.toNat words
        rwa [UInt64.toNat_ofNat_of_lt' hs.bounded, UInt64.toNat_ofNat_of_lt' ht.bounded] at counts
      exact (h.flatMap_append_eq_iff lengths hs.elements ht.elements).mp behind
    · rintro ⟨equal, rfl⟩
      have lengths := length_eq_of_isEqv equal
      exact ⟨congrArg UInt64.ofNat lengths,
        (h.flatMap_append_eq_iff lengths hs.elements ht.elements).mpr ⟨equal, rfl⟩⟩

theorem stop_ne_ofNat {n : Nat} (below : n < 0xff) : (0xff : UInt8) ≠ UInt8.ofNat n := by
  intro same
  have byte : 255 = n % 256 := congrArg UInt8.toNat same
  omega

/-- A character begins with a byte below 0xf8, and goes on with bytes below 0xc0. -/
theorem stop_notMem_utf8EncodeChar (c : Char) : (0xff : UInt8) ∉ String.utf8EncodeChar c := by
  fun_cases String.utf8EncodeChar c
  all_goals
    simp only [List.mem_cons, List.not_mem_nil, or_false, not_or]
    and_intros
    all_goals exact stop_ne_ofNat (by omega)

theorem stop_notMem_bytes (text : String) : (0xff : UInt8) ∉ text.toUTF8.data.toList := by
  rw [String.toUTF8_eq_toByteArray, ← String.utf8Encode_toList, List.utf8Encode, List.data_toByteArray]
  intro mem
  obtain ⟨c, -, within⟩ := List.mem_flatMap.mp mem
  exact stop_notMem_utf8EncodeChar c within

theorem bytes_eq_iff (first second : String) :
    first.toUTF8.data.toList = second.toUTF8.data.toList ↔ (first == second) = true := by
  rw [Array.toList_inj, ← ByteArray.ext_iff, String.toUTF8_eq_toByteArray, String.toUTF8_eq_toByteArray,
    String.toByteArray_inj, beq_iff_eq]

/-- Bytes that are given together, one at a time. -/
def Token.spelled : Token → List Token
  | .bytes given => given.map .byte
  | other => [other]

theorem prefixCode_trace_texts : PrefixCode (fun _ : String => True) trace := by
  apply PrefixCode.of_length (fun _ => rfl)
  intro first second
  rw [← bytes_eq_iff]
  simp [trace]

theorem prefixCode_spelled_texts :
    PrefixCode (fun _ : String => True) fun text => (trace text).flatMap Token.spelled := by
  let body (text : String) := text.toUTF8.data.toList.map Token.byte
  have ended (text : String) : (trace text).flatMap Token.spelled = body text ++ [.byte 0xff] := rfl
  have absent (text : String) : Token.byte 0xff ∉ body text := by
    intro mem
    obtain ⟨byte, within, stops⟩ := List.mem_map.mp mem
    cases stops
    exact stop_notMem_bytes text within
  have same (first second : String) : body first = body second ↔ (first == second) = true := by
    rw [← bytes_eq_iff]
    exact List.map_inj_right fun _ _ => Token.byte.inj
  simp only [ended]
  exact .of_stop absent same

namespace Schema

theorem traced?_eq (schema : Schema) : (Element.traced? : Option (Traced schema.Value)) = some schema.traced := by
  induction schema with
  | integer => rfl
  | text => rfl
  | sequence items ih =>
    change (Element.traced? : Option (Traced items.Value)).map _ = _
    rw [ih]
    rfl

variable [Arithmetic] [Json.Spelling]

theorem reached_bounded_iff {schema : Schema} {s : Sequence schema.Value} :
    schema.sequence.Reached s ∧ schema.sequence.Bounded s ↔
      s.Attained fun x => schema.Reached x ∧ schema.Bounded x := by
  constructor
  · rintro ⟨reached, bounded⟩
    exact ⟨reached.1, bounded.1, fun x mem => ⟨reached.2 x mem, bounded.2 x mem⟩⟩
  · intro attained
    exact ⟨⟨attained.occurs, fun x mem => (attained.elements x mem).1⟩,
      attained.bounded, fun x mem => (attained.elements x mem).2⟩

variable [Arithmetic.Modular]

/-- Whatever is done to the tokens, it is enough that sizes, integers and texts are still told apart. -/
theorem prefixCode {spell : Token → List Token}
    (sizes : PrefixCode (fun _ : UInt64 => True) fun n => spell (.size n))
    (integers : PrefixCode (fun _ : Int64 => True) fun n => spell (.integer n))
    (texts : PrefixCode (fun _ : String => True) fun text => (trace text).flatMap spell) (schema : Schema) :
    PrefixCode (fun x => schema.Reached x ∧ schema.Bounded x) fun x => (trace x).flatMap spell := by
  induction schema with
  | integer =>
    have spelled (n : Int64) : (trace n).flatMap spell = spell (.integer n) := List.flatMap_singleton spell _
    simp only [spelled]
    exact integers.mono fun _ _ => trivial
  | text => exact texts.mono fun _ _ => trivial
  | sequence items ih =>
    have spelled (s : Sequence items.Value) : (trace s).flatMap spell =
        spell (.size s.size) ++ s.elements.flatMap fun x => (trace x).flatMap spell := by
      change (Token.size s.size :: s.elements.flatMap trace).flatMap spell = _
      rw [List.flatMap_cons, List.flatMap_assoc]
    simp only [spelled]
    exact (sizes.sequences ih).mono fun _ => reached_bounded_iff.mp

/-- Two sequences, of whatever trees, feed a hasher the same just if they are equal, and neither the beginning of what
the other feeds. -/
theorem traces_tell_apart (schema : Schema) :
    let admitted (s : Sequence schema.Value) := schema.sequence.Reached s ∧ schema.sequence.Bounded s
    (∀ s : Sequence schema.Value, Element.traceSequence s = some (trace s)) ∧
    PrefixCode admitted trace ∧ PrefixCode admitted (fun s => (trace s).flatMap Token.spelled) ∧
    ∀ ss ts : List (Sequence schema.Value), (∀ s ∈ ss, admitted s) → (∀ t ∈ ts, admitted t) →
      (ss.flatMap trace = ts.flatMap trace ↔ ss.isEqv ts (· == ·) = true) := by
  intro admitted
  have whole : PrefixCode admitted trace := by
    have code : PrefixCode admitted fun s => (trace s).flatMap fun token => [token] :=
      prefixCode (.of_length (fun _ => rfl) (by simp)) (.of_length (fun _ => rfl) (by simp))
        (by simpa using prefixCode_trace_texts) schema.sequence
    simpa using code
  have spelled : PrefixCode admitted fun s => (trace s).flatMap Token.spelled :=
    prefixCode (.of_length (fun _ => rfl) (by simp [Token.spelled]))
      (.of_length (fun _ => rfl) (by simp [Token.spelled])) prefixCode_spelled_texts schema.sequence
  refine ⟨?_, whole, spelled, fun ss ts hs ht => whole.flatMap_eq_iff hs ht⟩
  intro s
  rw [Element.traceSequence, traced?_eq]
  rfl

end Schema

/-- Where sequences part the same integers in other places, only the sizes fed between them tell. -/
theorem nested_traces :
    let s : Sequence (Sequence Int64) := .ofList [(Workspace.empty.run splitTwice).2.sequence "b", .ofList []]
    let t : Sequence (Sequence Int64) :=
      .ofList [.ofList [5, 6, 7, 8, 9, 1, 2, 3, 4, 5, 6, 7, 8, 9], .ofList []]
    let a : Sequence (Sequence Int64) := .ofList [.ofList [1], .ofList [2]]
    let b : Sequence (Sequence Int64) := .ofList [.ofList [1, 2], .ofList []]
    trace s = trace t ∧ trace a ≠ trace b ∧ ¬ trace a <+: trace b ∧
      trace s ++ trace a ≠ trace a ++ trace s ∧
      a.elements.flatMap (fun x => x.elements.flatMap trace) =
        b.elements.flatMap fun x => x.elements.flatMap trace := by
  intro s t a b
  let items := Schema.integer.sequence
  have integers (xs : List Int64) : ∀ x ∈ xs, Schema.integer.Reached x ∧ Schema.integer.Bounded x :=
    fun _ _ => ⟨trivial, trivial⟩
  have split : items.Reached ((Workspace.empty.run splitTwice).2.sequence "b") ∧
      items.Bounded ((Workspace.empty.run splitTwice).2.sequence "b") :=
    Schema.reached_bounded_iff.mpr ⟨⟨splitTwice, .kept "b"⟩, by decide +kernel, integers _⟩
  have built {xs : List Int64} (bound : xs.length < UInt64.size) :
      items.Reached (.ofList xs) ∧ items.Bounded (.ofList xs) :=
    Schema.reached_bounded_iff.mpr (Sequence.attained_ofList bound (integers xs))
  have paired {x y : Sequence Int64} (hx : items.Reached x ∧ items.Bounded x)
      (hy : items.Reached y ∧ items.Bounded y) :
      items.sequence.Reached (.ofList [x, y]) ∧ items.sequence.Bounded (.ofList [x, y]) := by
    apply Schema.reached_bounded_iff.mpr (Sequence.attained_ofList (by simp [UInt64.size]) _)
    simp [hx, hy]
  have hs : items.sequence.Reached s ∧ items.sequence.Bounded s := paired split (built (by decide))
  have ht : items.sequence.Reached t ∧ items.sequence.Bounded t := paired (built (by decide)) (built (by decide))
  have ha : items.sequence.Reached a ∧ items.sequence.Bounded a := paired (built (by decide)) (built (by decide))
  have hb : items.sequence.Reached b ∧ items.sequence.Bounded b := paired (built (by decide)) (built (by decide))
  obtain ⟨-, code, -, runs⟩ := Schema.traces_tell_apart items
  have unequal : (a == b) = false := by decide +kernel
  have differ : trace a ≠ trace b := fun same => Bool.eq_false_iff.mp unequal ((code.eq_iff ha hb).mp same)
  refine ⟨(code.eq_iff hs ht).mpr (by decide +kernel), differ, ?_, ?_, by decide +kernel⟩
  · intro begins
    exact differ (code.prefix_free ha hb begins)
  · intro same
    have swapped : [s, a].isEqv [a, s] (· == ·) = true := by
      apply (runs [s, a] [a, s] _ _).mp <;> simp [hs, ha, same]
    have apart : [s, a].isEqv [a, s] (· == ·) = false := by decide +kernel
    exact Bool.eq_false_iff.mp apart swapped

end IndexedSequence
