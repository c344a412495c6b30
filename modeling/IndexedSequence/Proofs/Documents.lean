import IndexedSequence.Proofs.Forms
import IndexedSequence.Proofs.Occurrence
import IndexedSequence.Proofs.Reading
import IndexedSequence.Schema
import IndexedSequence.Tree.Outline

set_option autoImplicit false

namespace IndexedSequence

variable {ε α : Type} {format : Json.Format ε} {document : Json} {refusal : ε}

theorem Json.array_or_other (document : Json) :
    (∃ entries, document = .array entries) ∨ ∀ entries, document ≠ .array entries := by
  cases document with
  | array entries => exact .inl ⟨entries, rfl⟩
  | _ => exact .inr nofun

theorem Json.Plain.mono {depth deeper : Nat} (plain : document.Plain depth) (le : depth ≤ deeper) :
    document.Plain deeper := by
  induction plain generalizing deeper with
  | integer low high => exact .integer low high
  | string value => exact .string value
  | array each ih =>
    obtain ⟨inner, rfl⟩ := Nat.exists_eq_add_of_le' (Nat.le_trans (Nat.succ_pos _) le)
    exact .array fun entry mem => ih entry mem (Nat.le_of_succ_le_succ le)

namespace Sequence

variable {items : Json.Codec ε α}

theorem codec_read_array (lawful : format.Lawful) (entries : List Json) :
    (codec format items).read (.array entries) = ofList <$> entries.mapM items.read := by
  change (format.entries (.array entries) >>= ofEntries items.read) = _
  rw [lawful.visits_in_order, ok_bind, ofEntries, Json.Entries.gather_ofList]

theorem codec_read_other (lawful : format.Lawful) (other : ∀ entries, document ≠ .array entries) :
    ∃ refusal, format.entries document = .error refusal ∧
      (codec format items).read document = .error refusal := by
  obtain ⟨refusal, refused⟩ := lawful.refuses_others other
  refine ⟨refusal, refused, ?_⟩
  change (format.entries document >>= ofEntries items.read) = _
  rw [refused]
  rfl

theorem codec_read_ok_iff (lawful : format.Lawful) {s : Sequence α} :
    (codec format items).read document = .ok s ↔
      ∃ entries xs, document = .array entries ∧ entries.mapM items.read = .ok xs ∧ s = .ofList xs := by
  constructor
  · intro made
    obtain ⟨entries, rfl⟩ | other := document.array_or_other
    · rw [codec_read_array lawful] at made
      obtain ⟨xs, each, rfl⟩ := map_eq_ok_iff.mp made
      exact ⟨entries, xs, rfl, each, rfl⟩
    · obtain ⟨refusal, -, failed⟩ := codec_read_other lawful other
      rw [failed] at made
      cases made
  · rintro ⟨entries, xs, rfl, each, rfl⟩
    rw [codec_read_array lawful, each, map_ok]

theorem codec_read_error_iff (lawful : format.Lawful) :
    (codec format items).read document = .error refusal ↔
      (∀ entries, document ≠ .array entries) ∧ format.entries document = .error refusal ∨
        ∃ entries, document = .array entries ∧ entries.mapM items.read = .error refusal := by
  constructor
  · intro failed
    obtain ⟨entries, rfl⟩ | other := document.array_or_other
    · rw [codec_read_array lawful, map_eq_error_iff] at failed
      exact .inr ⟨entries, rfl, failed⟩
    · obtain ⟨found, refused, failed'⟩ := codec_read_other lawful other
      rw [failed'] at failed
      exact .inl ⟨other, refused.trans (congrArg Except.error (Except.error.inj failed))⟩
  · rintro (⟨other, refused⟩ | ⟨entries, rfl, failed⟩)
    · obtain ⟨found, refused', failed⟩ := codec_read_other lawful other
      rw [refused'] at refused
      rw [failed, Except.error.inj refused]
    · rw [codec_read_array lawful, map_eq_error_iff]
      exact failed

end Sequence

namespace Schema

variable {schema : Schema}

theorem accepts_iff (lawful : format.Lawful) :
    schema.Accepts document ↔ ∃ value, (schema.codec format).read document = .ok value := by
  induction schema generalizing document with
  | integer => exact exists_congr fun n => lawful.reads_integer.symm
  | text => exact exists_congr fun value => lawful.reads_text.symm
  | sequence items ih =>
    constructor
    · rintro ⟨entries, rfl, each⟩
      obtain ⟨xs, made⟩ := exists_mapM_eq_ok_iff.mpr fun entry mem => ih.mp (each entry mem)
      exact ⟨Sequence.ofList xs, (Sequence.codec_read_ok_iff lawful).mpr ⟨entries, xs, rfl, made, rfl⟩⟩
    · rintro ⟨s, made⟩
      obtain ⟨entries, xs, rfl, each, -⟩ := (Sequence.codec_read_ok_iff lawful).mp made
      exact ⟨entries, rfl, fun entry mem => ih.mpr (exists_mapM_eq_ok_iff.mp ⟨xs, each⟩ entry mem)⟩

theorem refuses_iff (lawful : format.Lawful) :
    schema.Refuses format document refusal ↔ (schema.codec format).read document = .error refusal := by
  induction schema generalizing document with
  | integer =>
    constructor
    · intro refused
      cases refused with
      | integer refused => exact refused
    · exact .integer
  | text =>
    constructor
    · intro refused
      cases refused with
      | text refused => exact refused
    · exact .text
  | sequence items ih =>
    constructor
    · intro refused
      refine (Sequence.codec_read_error_iff lawful).mpr ?_
      cases refused with
      | notArray other refused => exact .inl ⟨other, refused⟩
      | @entry _ before after first _ fit refused =>
        exact .inr ⟨before ++ first :: after, rfl, mapM_eq_error_iff.mpr
          ⟨before, first, after, rfl, fun entry mem => (accepts_iff lawful).mp (fit entry mem), ih.mp refused⟩⟩
    · intro failed
      obtain ⟨other, refused⟩ | ⟨entries, rfl, first⟩ := (Sequence.codec_read_error_iff lawful).mp failed
      · exact .notArray other refused
      · obtain ⟨before, entry, after, rfl, fit, refused⟩ := mapM_eq_error_iff.mp first
        exact .entry (fun entry mem => (accepts_iff lawful).mpr (fit entry mem)) (ih.mpr refused)

theorem codec_write_of_holds (lawful : format.Lawful) {s : Sequence schema.Value} {xs : List schema.Value}
    (held : s.Holds xs) (bound : xs.length < UInt64.size) :
    (schema.sequence.codec format).write s = .array (xs.map (schema.codec format).write) := by
  change (s.writeTo (schema.codec format).write format.writer).run = _
  rw [held.writeTo_eq _ _ bound, lawful.writes_in_order]

theorem write_of_read (lawful : format.Lawful) {value : schema.Value}
    (made : (schema.codec format).read document = .ok value) (bounded : schema.Bounded value) :
    (schema.codec format).write value = document := by
  induction schema generalizing document with
  | integer => exact (lawful.writes_integer value).trans (lawful.reads_integer.mp made).symm
  | text => exact (lawful.writes_text value).trans (lawful.reads_text.mp made).symm
  | sequence items ih =>
    obtain ⟨entries, xs, rfl, each, rfl⟩ := (Sequence.codec_read_ok_iff lawful).mp made
    have held := Sequence.holds_ofList xs
    obtain ⟨bound, within⟩ := bounded
    rw [held.toList_eq] at bound within
    have back := map_eq_of_mapM_eq_ok each fun entry x mem first => ih first (within x mem)
    exact (codec_write_of_holds lawful held bound).trans (congrArg Json.array back)

theorem Accepts.plain (accepted : schema.Accepts document) : document.Plain schema.depth := by
  induction schema generalizing document with
  | integer =>
    obtain ⟨n, rfl⟩ := accepted
    have least := Int64.minValue_le_toInt n
    have greatest := Int64.toInt_le n
    rw [Int64.toInt_minValue] at least
    rw [Int64.toInt_maxValue] at greatest
    have below : n.toInt < (2 ^ 64 : Int) := by omega
    exact .integer least below
  | text =>
    obtain ⟨value, rfl⟩ := accepted
    exact .string value
  | sequence items ih =>
    obtain ⟨entries, rfl, each⟩ := accepted
    exact .array fun entry mem => ih (each entry mem)

/-- Values of which every sequence, at any depth, has a tree that some run comes upon. -/
def Reached [Arithmetic] [Json.Spelling] : (schema : Schema) → schema.Value → Prop
  | integer, _ => True
  | text, _ => True
  | sequence items, s =>
    (∃ program : List (Command items.Value), s.tree.OccursIn program) ∧
      ∀ element ∈ s.toList, items.Reached element

section

variable [Arithmetic] [Json.Spelling] [Arithmetic.Modular]

theorem Reached.holds {items : Schema} {s : Sequence items.Value} (reached : items.sequence.Reached s) :
    s.Holds s.toList := by
  obtain ⟨⟨program, occurs⟩, -⟩ := reached
  exact ⟨occurs.consistent, rfl⟩

theorem read_write (lawful : format.Lawful) {value : schema.Value} (reached : schema.Reached value)
    (bounded : schema.Bounded value) :
    (schema.codec format).read ((schema.codec format).write value) = .ok (schema.rebuilt value) := by
  induction schema with
  | integer => exact lawful.reads_integer.mpr (lawful.writes_integer value)
  | text => exact lawful.reads_text.mpr (lawful.writes_text value)
  | sequence items ih =>
    have each : ((Sequence.toList value).map (items.codec format).write).mapM (items.codec format).read =
        .ok ((Sequence.toList value).map items.rebuilt) := by
      rw [List.mapM_map]
      exact mapM_eq_ok fun element mem => ih (reached.2 element mem) (bounded.2 element mem)
    exact (Sequence.codec_read_ok_iff lawful).mpr
      ⟨_, _, codec_write_of_holds lawful reached.holds bounded.1, each, rfl⟩

theorem beq_rebuilt {value : schema.Value} (reached : schema.Reached value) (bounded : schema.Bounded value) :
    (value == schema.rebuilt value) = true := by
  induction schema with
  | integer => exact beq_self_eq_true (α := Int64) value
  | text => exact beq_self_eq_true (α := String) value
  | sequence items ih =>
    have held := reached.holds
    have again := Sequence.holds_ofList ((Sequence.toList value).map items.rebuilt)
    have bound : ((Sequence.toList value).map items.rebuilt).length < UInt64.size := by
      rw [List.length_map]
      exact bounded.1
    -- Equality goes along the elements, so that it does not see which tree either of the two has.
    refine (held.equal_eq again bounded.1 bound).trans ?_
    exact isEqv_map fun element mem => ih (reached.2 element mem) (bounded.2 element mem)

/-- What can be read is made of integers, text and arrays alone, and so its text can be parsed. -/
theorem parse_print_write (lawful : format.Lawful) {value : schema.Value} (reached : schema.Reached value)
    (bounded : schema.Bounded value) (shallow : schema.depth ≤ format.depth) :
    format.parse? (format.print ((schema.codec format).write value)) =
      some ((schema.codec format).write value) := by
  have accepted : schema.Accepts ((schema.codec format).write value) :=
    (accepts_iff lawful).mpr ⟨_, read_write lawful reached bounded⟩
  exact lawful.parses_printed (accepted.plain.mono shallow)

/-- In any format that keeps the laws, a sequence is read back as an equal one that is built at once, and a document
is read just if it is an array of what fits. -/
theorem sequences_as_documents (lawful : format.Lawful) (schema : Schema) :
    (∀ s : Sequence schema.Value, schema.sequence.Reached s → schema.sequence.Bounded s →
      (∀ {m : Type → Type} {σ ρ : Type} [Monad m] (writer : Json.ArrayWriter m σ ρ),
        s.writeTo (schema.codec format).write writer =
          writer.run (some (.ofNat s.toList.length)) (s.toList.map (schema.codec format).write)) ∧
      (schema.sequence.codec format).write s = .array (s.toList.map (schema.codec format).write) ∧
      ∃ t, t = Sequence.ofList (s.toList.map schema.rebuilt) ∧ (s == t) = true ∧
        (schema.sequence.codec format).read ((schema.sequence.codec format).write s) = .ok t ∧
        (schema.sequence.depth ≤ format.depth → ∃ document,
          format.parse? (format.print ((schema.sequence.codec format).write s)) = some document ∧
            (schema.sequence.codec format).read document = .ok t)) ∧
    (∀ document, (∃ s, (schema.sequence.codec format).read document = .ok s) ↔
      ∃ entries, document = .array entries ∧
        ∀ entry ∈ entries, ∃ value, (schema.codec format).read entry = .ok value) ∧
    (∀ (document : Json) (s : Sequence schema.Value), (schema.sequence.codec format).read document = .ok s →
      s = .ofList s.toList ∧
        (schema.sequence.Bounded s → (schema.sequence.codec format).write s = document)) ∧
    ∀ document refusal, (schema.sequence.codec format).read document = .error refusal ↔
      schema.sequence.Refuses format document refusal := by
  refine ⟨?_, ?_, ?_, ?_⟩
  · intro s reached bounded
    have back := read_write lawful reached bounded
    exact ⟨fun writer => reached.holds.writeTo_eq _ writer bounded.1,
      codec_write_of_holds lawful reached.holds bounded.1, _, rfl, beq_rebuilt reached bounded, back,
      fun shallow => ⟨_, parse_print_write lawful reached bounded shallow, back⟩⟩
  · intro document
    have accepted : schema.sequence.Accepts document ↔ _ := accepts_iff lawful
    refine accepted.symm.trans (exists_congr fun entries => and_congr_right fun _ => ?_)
    exact forall_congr' fun entry => imp_congr_right fun _ => accepts_iff lawful
  · intro document s made
    obtain ⟨entries, xs, -, -, rfl⟩ := (Sequence.codec_read_ok_iff lawful).mp made
    rw [(Sequence.holds_ofList xs).toList_eq]
    exact ⟨rfl, write_of_read lawful made⟩
  · intro document refusal
    have refused : schema.sequence.Refuses format document refusal ↔ _ := refuses_iff lawful
    exact refused.symm

end

end Schema

namespace Json

theorem integer_ok_iff {n : Int64} : JsonCodec.ofJson document = .ok n ↔ document = .integer n.toInt := by
  constructor
  · intro made
    cases document with
    | integer value =>
      change (if Int64.minValue.toInt ≤ value ∧ value ≤ Int64.maxValue.toInt then _ else _) = _ at made
      split at made
      · next within =>
        obtain rfl := Except.ok.inj made
        rw [Int64.toInt_minValue, Int64.toInt_maxValue] at within
        rw [Int64.toInt_ofInt_of_le within.1 (Int.lt_of_le_sub_one within.2)]
      · cases made
    | _ => cases made
  · rintro rfl
    change (if _ then Except.ok (Int64.ofInt n.toInt) else _) = _
    rw [if_pos ⟨Int64.minValue_le_toInt n, Int64.toInt_le n⟩, Int64.ofInt_toInt]

theorem text_ok_iff {value : String} : JsonCodec.ofJson document = .ok value ↔ document = .string value := by
  constructor
  · intro made
    cases document with
    | string found => exact congrArg Json.string (Except.ok.inj made)
    | _ => cases made
  · rintro rfl
    rfl

theorem Format.compact_lawful : Format.compact.Lawful where
  writes_integer _ := rfl
  reads_integer := integer_ok_iff
  writes_text _ := rfl
  reads_text := text_ok_iff
  writes_in_order := ArrayWriter.run_collecting
  visits_in_order _ := rfl
  refuses_others {document} other := by
    cases document with
    | array items => exact absurd rfl (other items)
    | _ => exact ⟨_, rfl⟩
  parses_printed plain := plain.read?_text

end Json

def pushedNested : List (Command (Sequence Int64)) :=
  [.ofList [.ofList [7], (Workspace.empty.run splitTwice).2.sequence "b"] (some "c"),
    .transform "c" (.pushBack .empty) (some "d")]

theorem pushedNested_as_document :
    let s := (Workspace.empty.run pushedNested).2.sequence "d"
    let text := "[[7],[5,6,7,8,9,1,2,3,4,5,6,7,8,9],[]]"
    let t := Sequence.ofList (s.toList.map Schema.integer.sequence.rebuilt)
    let codec := Schema.integer.sequence.sequence.codec .compact
    (codec.write s).text = text ∧ (s == t) = true ∧
      (∃ document, Json.read? text = some document ∧ codec.read document = .ok t) ∧
      s.tree.outline (fun _ => ".") ≠ t.tree.outline (fun _ => ".") ∧
      codec.read (.array [.array [.integer 1], .array [.integer 2, .string "x"], .null]) =
        .error (.wrongType (.string "x") .integer) := by
  intro s text t codec
  have elements : s.toList = [.ofList [7], (Workspace.empty.run splitTwice).2.sequence "b", .empty] :=
    ((Sequence.holds_ofList _).pushBack _).toList_eq
  have reached : Schema.integer.sequence.sequence.Reached s := by
    refine ⟨⟨pushedNested, .kept "d"⟩, ?_⟩
    rw [elements]
    simp only [List.forall_mem_cons]
    refine ⟨⟨?_, fun _ _ => trivial⟩, ⟨?_, fun _ _ => trivial⟩, ⟨?_, fun _ _ => trivial⟩, nofun⟩
    · exact ⟨[.ofList [7] (some "a")], .kept "a"⟩
    · exact ⟨splitTwice, .kept "b"⟩
    · exact ⟨[], .kept "a"⟩
  have bounded : Schema.integer.sequence.sequence.Bounded s := by
    refine ⟨by decide +kernel, ?_⟩
    rw [elements]
    simp only [List.forall_mem_cons]
    refine ⟨⟨?_, fun _ _ => trivial⟩, ⟨?_, fun _ _ => trivial⟩, ⟨?_, fun _ _ => trivial⟩, nofun⟩
    all_goals decide +kernel
  have written : (codec.write s).text = text := by decide +kernel
  have first : Schema.integer.sequence.Accepts (.array [.integer 1]) :=
    ⟨[.integer 1], rfl, List.forall_mem_singleton.mpr ⟨1, rfl⟩⟩
  have second : Schema.integer.sequence.Refuses .compact (.array ([.integer 2] ++ [.string "x"]))
      (.wrongType (.string "x") .integer) :=
    .entry (List.forall_mem_singleton.mpr ⟨2, rfl⟩) (.integer rfl)
  have whole : Schema.integer.sequence.sequence.Refuses .compact
      (.array ([.array [.integer 1]] ++ .array [.integer 2, .string "x"] :: [.null]))
      (.wrongType (.string "x") .integer) :=
    .entry (List.forall_mem_singleton.mpr first) second
  obtain ⟨survives, -, -, refused⟩ :=
    Schema.sequences_as_documents Json.Format.compact_lawful Schema.integer.sequence
  obtain ⟨-, -, -, rfl, same, -, parsed⟩ := survives s reached bounded
  have answered := parsed (by decide)
  change ∃ document, Json.read? (codec.write s).text = some document ∧ _ at answered
  rw [written] at answered
  exact ⟨written, same, answered, by decide +kernel, (refused _ _).mpr whole⟩

end IndexedSequence
