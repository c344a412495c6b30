import IndexedSequence.Proofs.Refinement

set_option autoImplicit false

namespace IndexedSequence

variable {α : Type}

/-- Every sequence that is kept, and all that a builder has gathered, has a length of 64 bits. -/
def Workspace.Fits (w : Workspace α) : Prop :=
  (∀ entry ∈ w.sequences.entries, entry.2.toList.length < UInt64.size) ∧
    ∀ entry ∈ w.builders.entries, entry.2.toList.length < UInt64.size

instance (w : Workspace α) : Decidable w.Fits :=
  inferInstanceAs (Decidable (_ ∧ _))

def Response.Fits (answer : Answer α) : Prop :=
  ∀ s ∈ answer.sequences, s.toList.length < UInt64.size

instance (answer : Answer α) : Decidable (Response.Fits answer) :=
  inferInstanceAs (Decidable (∀ s ∈ answer.sequences, _))

namespace Workspace

theorem Fits.sequence {w : Workspace α} (h : w.Fits) (name : String) :
    (w.sequence name).toList.length < UInt64.size := by
  rw [Workspace.sequence]
  obtain default | ⟨entry, mem, eq⟩ := w.sequences.get_eq_or_mem .empty name
  · rw [default]
    exact Nat.zero_lt_succ _
  · rw [eq]
    exact h.1 entry mem

theorem Fits.builder {w : Workspace α} (h : w.Fits) (name : String) :
    (w.builder name).toList.length < UInt64.size := by
  rw [Workspace.builder]
  obtain default | ⟨entry, mem, eq⟩ := w.builders.get_eq_or_mem .empty name
  · rw [default]
    exact Nat.zero_lt_succ _
  · rw [eq]
    exact h.2 entry mem

variable [Element α] [Arithmetic] [Json.Spelling]

/-- Nothing that a run answers or keeps comes to hold 2^64 elements. -/
def StaysBelow (w : Workspace α) : List (Command α) → Prop
  | [] => w.Fits
  | command :: later =>
    w.Fits ∧
      match w.step command with
      | .ok (answer, moved) => Response.Fits answer ∧ moved.StaysBelow later
      | .error _ => w.StaysBelow later

instance decidableStaysBelow (w : Workspace α) :
    (program : List (Command α)) → Decidable (w.StaysBelow program)
  | [] => inferInstanceAs (Decidable w.Fits)
  | command :: later =>
    match outcome : w.step command with
    | .ok (answer, moved) =>
      have := moved.decidableStaysBelow later
      decidable_of_iff (w.Fits ∧ Response.Fits answer ∧ moved.StaysBelow later)
        (by rw [StaysBelow, outcome])
    | .error problem =>
      have := w.decidableStaysBelow later
      decidable_of_iff (w.Fits ∧ w.StaysBelow later) (by rw [StaysBelow, outcome])

theorem StaysBelow.fits {w : Workspace α} {program : List (Command α)} (below : w.StaysBelow program) :
    w.Fits := by
  cases program with
  | nil => exact below
  | cons command later => exact below.1

end Workspace

def Contents.StaysBelow [Element α] [Json.Spelling] (c : Contents α) : List (Command α) → Prop
  | [] => True
  | command :: later =>
    (∀ source, (c.sequences source).length < UInt64.size) ∧
      match c.step command with
      | .ok (_, moved) => moved.StaysBelow later
      | .error _ => c.StaysBelow later

section

variable [Element α]

def seenAll (program : List (Command α)) (outcomes : List (Except Problem (Answer α))) :
    List (Except Problem (Response (List α) α)) :=
  List.zipWith (fun command outcome => command.seen <$> outcome) program outcomes

omit [Element α] in
theorem seenAll_cons (command : Command α) (later : List (Command α))
    (outcome : Except Problem (Answer α)) (outcomes : List (Except Problem (Answer α))) :
    seenAll (command :: later) (outcome :: outcomes) =
      (command.seen <$> outcome) :: seenAll later outcomes := rfl

variable [Arithmetic] [Json.Spelling]

theorem Workspace.run_ok {w : Workspace α} {command : Command α} {answered : Answer α × Workspace α}
    (made : w.step command = .ok answered) (later : List (Command α)) :
    w.run (command :: later) = (.ok answered.1 :: (answered.2.run later).1, (answered.2.run later).2) := by
  rw [run, made]

theorem Workspace.run_error {w : Workspace α} {command : Command α} {problem : Problem}
    (made : w.step command = .error problem) (later : List (Command α)) :
    w.run (command :: later) = (.error problem :: (w.run later).1, (w.run later).2) := by
  rw [run, made]

variable {w : Workspace α} {c : Contents α}

omit [Element α] [Arithmetic] [Json.Spelling] in
theorem Workspace.Holds.fits (h : w.Holds c) (fits : w.Fits) (source : String) :
    (c.sequences source).length < UInt64.size :=
  (h.sequences source).toList_eq ▸ fits.sequence source

theorem Workspace.StaysBelow.run {program : List (Command α)} (below : w.StaysBelow program) :
    (w.run program).2.Fits ∧ ∀ answer, .ok answer ∈ (w.run program).1 → Response.Fits answer := by
  induction program generalizing w with
  | nil => exact ⟨below, fun _ mem => absurd mem List.not_mem_nil⟩
  | cons command later ih =>
    obtain ⟨fits, below⟩ := below
    cases made : w.step command with
    | error problem =>
      rw [made] at below
      rw [run_error made]
      obtain ⟨final, answers⟩ := ih below
      refine ⟨final, ?_⟩
      intro answer mem
      rw [List.mem_cons] at mem
      exact answers answer (mem.resolve_left nofun)
    | ok answered =>
      rw [made] at below
      rw [run_ok made]
      obtain ⟨final, answers⟩ := ih below.2
      refine ⟨final, ?_⟩
      intro answer mem
      obtain first | mem := List.mem_cons.mp mem
      · rw [Except.ok.inj first]
        exact below.1
      · exact answers answer mem

variable [Arithmetic.Exact]

theorem Workspace.Holds.staysBelow (h : w.Holds c) {program : List (Command α)}
    (below : w.StaysBelow program) : c.StaysBelow program := by
  induction program generalizing w c with
  | nil => trivial
  | cons command later ih =>
    obtain ⟨fits, below⟩ := below
    refine ⟨h.fits fits, ?_⟩
    have outcome := h.step (h.fits fits) command
    cases listed : c.step command with
    | error problem =>
      rw [listed] at outcome
      rw [outcome.eq_of_error] at below
      exact ih h below
    | ok moved =>
      rw [listed] at outcome
      obtain ⟨answered, made, -, -, hmoved⟩ := outcome.exists_of_ok
      rw [made] at below
      exact ih hmoved below.2

theorem Workspace.Holds.run (h : w.Holds c) {program : List (Command α)} (below : c.StaysBelow program) :
    seenAll program (w.run program).1 = (c.run program).1 ∧
      (w.run program).2.Holds (c.run program).2 ∧
      ∀ answer, .ok answer ∈ (w.run program).1 → ∀ s ∈ answer.sequences, s.tree.Consistent 0 := by
  induction program generalizing w c with
  | nil => exact ⟨rfl, h, fun _ mem => absurd mem List.not_mem_nil⟩
  | cons command later ih =>
    obtain ⟨bound, below⟩ := below
    have outcome := h.step bound command
    cases listed : c.step command with
    | error problem =>
      rw [listed] at outcome below
      obtain ⟨seen, held, consistent⟩ := ih h below
      rw [run_error outcome.eq_of_error, Contents.run_error listed, seenAll_cons, map_error, seen]
      refine ⟨rfl, held, ?_⟩
      intro answer mem
      rw [List.mem_cons] at mem
      exact consistent answer (mem.resolve_left nofun)
    | ok moved =>
      rw [listed] at outcome below
      obtain ⟨answered, made, hanswer, same, hmoved⟩ := outcome.exists_of_ok
      obtain ⟨seen, held, consistent⟩ := ih hmoved below
      rw [run_ok made, Contents.run_ok listed, seenAll_cons, map_ok, same, seen]
      refine ⟨rfl, held, ?_⟩
      intro answer mem
      obtain first | mem := List.mem_cons.mp mem
      · rw [Except.ok.inj first]
        exact hanswer
      · exact consistent answer mem

/-- Left behind by a run that stays below 2^64 elements. -/
def Workspace.Reachable (w : Workspace α) : Prop :=
  ∃ history, Workspace.empty.StaysBelow history ∧ (Workspace.empty.run history).2 = w

theorem Workspace.Reachable.holds (reached : w.Reachable) : w.Fits ∧ ∃ c, w.Holds c := by
  obtain ⟨history, below, rfl⟩ := reached
  exact ⟨below.run.1, _, (Holds.empty.run (Holds.empty.staysBelow below)).2.1⟩

/-- A sequence in order, as its holder may check. -/
structure Sequence.Sound (s : Sequence α) : Prop where
  wellFormed : s.tree.WellFormed 0
  audit_eq : s.audit = .ok ()
  isEmpty_iff : s.isEmpty = true ↔ s.size = 0
  single_iff : (∃ node, s.tree = .single node) ↔ s.size = 1

omit [Element α] [Arithmetic] [Json.Spelling] [Arithmetic.Exact] in
theorem Sequence.sound_of_wellFormed {s : Sequence α} (h : s.tree.WellFormed 0) : s.Sound :=
  ⟨h, h.audit, h.isEmpty_iff, h.single_iff⟩

/-- Whatever is done, every sequence answered on the way is sound, and in the end so are those kept, those
inside builders and the trees left in drains. -/
theorem every_sequence_sound {program : List (Command α)}
    (below : Workspace.empty.StaysBelow program) :
    (∀ answer, .ok answer ∈ (Workspace.empty.run program).1 → ∀ s ∈ answer.sequences, s.Sound) ∧
      ∀ name, ((Workspace.empty.run program).2.sequence name).Sound ∧
        ((Workspace.empty.run program).2.builder name).sequence.Sound ∧
        (Sequence.mk ((Workspace.empty.run program).2.drain name).tree).Sound := by
  obtain ⟨-, held, consistent⟩ := Workspace.Holds.empty.run (Workspace.Holds.empty.staysBelow below)
  obtain ⟨fits, answers⟩ := below.run
  constructor
  · intro answer mem s inside
    exact Sequence.sound_of_wellFormed
      (Tree.wellFormed_iff.mpr ⟨consistent answer mem s inside, answers answer mem s inside⟩)
  · intro name
    refine ⟨?_, ?_, Sequence.sound_of_wellFormed (held.drains name).wellFormed⟩
    · exact Sequence.sound_of_wellFormed
        (Tree.wellFormed_iff.mpr ⟨(held.sequences name).consistent, fits.sequence name⟩)
    · have whole := fits.builder name
      rw [Builder.toList, List.length_append, List.length_append] at whole
      refine Sequence.sound_of_wellFormed (Tree.wellFormed_iff.mpr ⟨(held.builders name).consistent, ?_⟩)
      change (Sequence.toList _).length < _
      omega

end

def mixedProgram : List (Command Int64) :=
  [.singleton 1 (some "a"), .transform "a" (.pushFront 2) (some "a"),
    .transform "a" (.doubled 3) (some "a"), .popBack "a" (some "a"),
    .split "a" 5 ⟨some "b", none⟩, .gather "g" (.append "a"), .gather "g" (.pushBack 3),
    .drain "d" (.start "b"), .drain "d" (.ask (.nth .near 1))]

theorem mixedProgram_sound :
    ((Workspace.empty.run mixedProgram).2.sequence "a").Sound ∧
      ((Workspace.empty.run mixedProgram).2.builder "g").sequence.Sound ∧
      (Sequence.mk ((Workspace.empty.run mixedProgram).2.drain "d").tree).Sound := by
  have below : Workspace.empty.StaysBelow mixedProgram := by decide +kernel
  obtain ⟨-, kept⟩ := every_sequence_sound below
  exact ⟨(kept "a").1, (kept "g").2.1, (kept "d").2.2⟩

section

variable [Element α] [Arithmetic] [Json.Spelling] [Arithmetic.Exact]

theorem Workspace.Holds.step_ne_fault {w : Workspace α} {c : Contents α} (h : w.Holds c) (fits : w.Fits)
    {command : Command α} {fault : Fault} : w.step command ≠ .error (.fault fault) := by
  intro failed
  have listed := (h.step (h.fits fits) command).spec_eq_of_error failed
  obtain ⟨_, same⟩ | ⟨_, same⟩ | same | ⟨_, _, _, same, _⟩ := Contents.step_error listed <;> cases same

theorem Workspace.Holds.demand_of_absent {w : Workspace α} {c : Contents α} (h : w.Holds c) (fits : w.Fits)
    {command : Command α} {refused : OutOfRange} (failed : w.step command = .error (.absent refused)) :
    ∃ source index, command = .query source (.demand index) ∧
      refused = ⟨index, (w.sequence source).size⟩ ∧ (w.sequence source).size ≤ index ∧
      refused.message = s!"index {index} is out of range for a sequence of size {refused.size}" := by
  have listed := (h.step (h.fits fits) command).spec_eq_of_error failed
  obtain ⟨_, same⟩ | ⟨_, same⟩ | same | ⟨source, index, rfl, same, past⟩ := Contents.step_error listed
  · cases same
  · cases same
  · cases same
  · have sized := (h.sequences source).size_eq
    obtain rfl : refused = ⟨index, (w.sequence source).size⟩ := by
      rw [sized]
      exact Problem.absent.inj same
    refine ⟨source, index, rfl, rfl, ?_, rfl⟩
    rw [UInt64.le_iff_toNat_le, toNat_ofNat_of_eq sized (h.fits fits source)]
    exact past

/-- No assumption inside the trees is ever broken: all that is left to go wrong is an element demanded where there is
none. -/
theorem Workspace.Reachable.error_eq_absent {w : Workspace α} (reached : w.Reachable) :
    (∀ command fault, w.step command ≠ .error (.fault fault)) ∧
      (∀ command refused, w.step command = .error (.absent refused) →
        ∃ source index, command = .query source (.demand index) ∧
          refused = ⟨index, (w.sequence source).size⟩ ∧ (w.sequence source).size ≤ index ∧
          refused.message = s!"index {index} is out of range for a sequence of size {refused.size}") ∧
      (∀ name node rest, (w.drain name).tree.popFront = .ok (some (node, rest)) ∨
        (w.drain name).tree.popBack = .ok (some (node, rest)) → ∃ element, node = .leaf element) ∧
      (∀ size left middle right (node : Node α), left.prepend? node = none →
        ∃ a b c d, left = .four a b c d ∧ (Tree.deep size left middle right).pushFront node =
          .deep (size + node.size) (.two node a) (middle.pushFront (.triple b c d)) right) ∧
      (∀ size left middle right (node : Node α), right.append? node = none →
        ∃ a b c d, right = .four a b c d ∧ (Tree.deep size left middle right).pushBack node =
          .deep (size + node.size) left (middle.pushBack (.triple a b c)) (.two d node)) ∧
      ∀ (buffer grown : Buffer α) node branch, buffer.push node = (grown, some branch) →
        ∃ a b c d, buffer.nodes = [a, b, c, d] ∧ branch = .triple a b c ∧ grown.nodes = [d, node] := by
  obtain ⟨fits, c, held⟩ := reached.holds
  refine ⟨?_, ?_, ?_, ?_, ?_, ?_⟩
  · intro command fault
    exact held.step_ne_fault fits
  · intro command refused failed
    exact held.demand_of_absent fits failed
  · intro name node rest popped
    obtain ⟨consistent, bound⟩ := Tree.wellFormed_iff.mp (held.drains name).wellFormed
    exact popped.elim (consistent.leaf_of_popFront bound) (consistent.leaf_of_popBack bound)
  · intro size left middle right node full
    exact Tree.pushFront_of_full full
  · intro size left middle right node full
    exact Tree.pushBack_of_full full
  · intro buffer grown node branch pushed
    exact Buffer.four_of_push_some pushed

end

theorem mixedProgram_error_eq_absent :
    letI := Arithmetic.checked
    (Workspace.empty.run mixedProgram).2.step (.query "b" (.demand 9)) = .error (.absent ⟨9, 5⟩) ∧
      ((Workspace.empty.run mixedProgram).2.sequence "b").size ≤ 9 ∧
      (Workspace.empty.run mixedProgram).2.step (.split "b" 3 ⟨none, none⟩) ≠
        .error (.fault .negativeDifference) := by
  let _ := Arithmetic.checked
  have := Arithmetic.exact_checked
  have reached : (Workspace.empty.run mixedProgram).2.Reachable := ⟨mixedProgram, by decide +kernel, rfl⟩
  have refused : (Workspace.empty.run mixedProgram).2.step (.query "b" (.demand 9)) =
      .error (.absent ⟨9, 5⟩) := by rfl
  obtain ⟨sound, absent, -⟩ := Workspace.Reachable.error_eq_absent reached
  obtain ⟨source, index, same, -, past, -⟩ := absent _ _ refused
  cases same
  exact ⟨refused, past, sound _ _⟩

section

variable [Element α] [Arithmetic] [Json.Spelling] [Arithmetic.Exact] {w : Workspace α} {c : Contents α}

/-- Two workspaces with the same elements under every name, and walks of the same direction. -/
structure Workspace.SameElements (w v : Workspace α) : Prop where
  sequences (name : String) : (w.sequence name).toList = (v.sequence name).toList
  builders (name : String) : (w.builder name).toList = (v.builder name).toList
  walks (name : String) :
    (w.walk name).near = (v.walk name).near ∧ (w.walk name).elements = (v.walk name).elements
  drains (name : String) : (w.drain name).tree.toList = (v.drain name).tree.toList

omit [Element α] [Arithmetic] [Json.Spelling] [Arithmetic.Exact] in
theorem Workspace.Holds.sameElements {v : Workspace α} (hw : w.Holds c) (hv : v.Holds c) :
    w.SameElements v where
  sequences name := (hw.sequences name).toList_eq.trans (hv.sequences name).toList_eq.symm
  builders name := (hw.builders name).toList_eq.trans (hv.builders name).toList_eq.symm
  walks name :=
    ⟨(hw.walks name).near_eq.trans (hv.walks name).near_eq.symm,
      (hw.walks name).elements.trans (hv.walks name).elements.symm⟩
  drains name := (hw.drains name).holds.trans (hv.drains name).holds.symm

omit [Element α] [Arithmetic] [Json.Spelling] [Arithmetic.Exact] in
theorem Workspace.SameElements.contents_eq {v : Workspace α} {d : Contents α} (same : w.SameElements v)
    (hw : w.Holds c) (hv : v.Holds d) : c = d := by
  apply Contents.ext
  · funext name
    rw [← (hw.sequences name).toList_eq, ← (hv.sequences name).toList_eq, same.sequences]
  · funext name
    rw [← (hw.builders name).toList_eq, ← (hv.builders name).toList_eq, same.builders]
  · funext name
    apply Prod.ext
    · rw [← (hw.walks name).near_eq, ← (hv.walks name).near_eq, (same.walks name).1]
    · rw [← (hw.walks name).elements, ← (hv.walks name).elements, (same.walks name).2]
  · funext name
    rw [← (hw.drains name).holds, ← (hv.drains name).holds, same.drains]

/-- Where two runs have come to the same elements, every further program has the same outcomes on both, but for the
shape that it may show. -/
theorem history_unobservable {w v : Workspace α} (hw : w.Reachable) (hv : v.Reachable)
    (same : w.SameElements v) {program : List (Command α)} (below : w.StaysBelow program) :
    seenAll program (w.run program).1 = seenAll program (v.run program).1 ∧
      (w.run program).2.SameElements (v.run program).2 := by
  obtain ⟨-, c, held⟩ := hw.holds
  obtain ⟨-, d, held'⟩ := hv.holds
  obtain rfl := same.contents_eq held held'
  obtain ⟨seen, final, -⟩ := held.run (held.staysBelow below)
  obtain ⟨seen', final', -⟩ := held'.run (held.staysBelow below)
  exact ⟨seen.trans seen'.symm, final.sameElements final'⟩

end

def pushedBack : List (Command Int64) :=
  [.singleton 1 (some "a"), .transform "a" (.pushAllBack [2, 3, 4, 5]) (some "a")]

def pushedFront : List (Command Int64) :=
  [.singleton 5 (some "a"), .transform "a" (.pushAllFront [4, 3, 2, 1]) (some "a")]

theorem pushes_unobservable :
    let program : List (Command Int64) :=
      [.popFront "a" (some "b"), .query "b" (.get 3), .query "a" (.demand 5),
        .transform "b" (.concat "a") none]
    (Workspace.empty.run pushedBack).2.sequence "a" ≠ (Workspace.empty.run pushedFront).2.sequence "a" ∧
      seenAll program ((Workspace.empty.run pushedBack).2.run program).1 =
        seenAll program ((Workspace.empty.run pushedFront).2.run program).1 := by
  have reached : (Workspace.empty.run pushedBack).2.Reachable := ⟨pushedBack, by decide +kernel, rfl⟩
  have reached' : (Workspace.empty.run pushedFront).2.Reachable := ⟨pushedFront, by decide +kernel, rfl⟩
  have written : (Workspace.empty.run pushedBack).2.sequences.entries.map Prod.fst = ["a"] := rfl
  have written' : (Workspace.empty.run pushedFront).2.sequences.entries.map Prod.fst = ["a"] := rfl
  have same : (Workspace.empty.run pushedBack).2.SameElements (Workspace.empty.run pushedFront).2 :=
    { sequences := fun name => by
        by_cases known : name = "a"
        · rw [known]
          rfl
        · rw [Workspace.sequence, Registers.get_of_notMem _ (by simpa [written] using known),
            Workspace.sequence, Registers.get_of_notMem _ (by simpa [written'] using known)]
      builders := fun _ => rfl
      walks := fun _ => ⟨rfl, rfl⟩
      drains := fun _ => rfl }
  refine ⟨?_, (history_unobservable reached reached' same (by decide +kernel)).1⟩
  intro shapes
  exact absurd (congrArg Sequence.tree shapes) (by decide +kernel)

end IndexedSequence
