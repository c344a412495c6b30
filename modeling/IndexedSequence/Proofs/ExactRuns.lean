import IndexedSequence.Checked.Workspace
import IndexedSequence.Proofs.ExactSequences
import IndexedSequence.Proofs.Runs

set_option autoImplicit false

namespace IndexedSequence

variable {α : Type}

def Sequence.Fits (s : Sequence α) : Prop :=
  s.toList.length < UInt64.size

/-- What was answered fits, and so does all that is kept with it. -/
def Workspace.FitsWith (answered : Answer α × Workspace α) : Prop :=
  Response.Fits answered.1 ∧ answered.2.Fits

theorem Sequence.Holds.length_of_fits {s : Sequence α} {xs : List α} (h : s.Holds xs) (fits : s.Fits) :
    xs.length < UInt64.size :=
  h.length_tree ▸ fits

theorem Refines.length_of_fits {ε : Type} {result : Except ε (Sequence α)} {xs : List α}
    (made : Refines Sequence.Holds result (.ok xs)) (fits : Ensures Sequence.Fits result) :
    xs.length < UInt64.size := by
  obtain ⟨s, rfl, hs⟩ := made.exists_of_ok
  exact hs.length_of_fits (fits s rfl)

theorem Ensures.of_lift_failure {β : Type} {holds : β → Prop} {result : Except Failure β}
    (h : Ensures holds (liftM result : Except Problem β)) : Ensures holds result :=
  .of_mapError (f := Failure.problem) h

theorem Ensures.of_lift_fault {β : Type} {holds : β → Prop} {result : Except Fault β}
    (h : Ensures holds (liftM result : Except Problem β)) : Ensures holds result :=
  .of_mapError (f := Failure.fault) (Ensures.of_lift_failure h)

theorem Ensures.of_bind_ok {ε β γ : Type} {holds : β → Prop} {holds' : γ → Prop} {result : Except ε β}
    {next : β → γ} (h : Ensures holds' (result >>= fun b => .ok (next b)))
    (back : ∀ b, holds' (next b) → holds b) : Ensures holds result := by
  intro b made
  exact back b (h.next made (next b) rfl)

theorem Workspace.fits_of_gatheredBy [Element α] {w : Workspace α} {name : String} {b : Builder α}
    (fits : FitsWith (w.gatheredBy name b)) : b.toList.length < UInt64.size := by
  have kept := fits.2.builder name
  have same : (w.gatheredBy name b).2.builder name = b := by
    change (w.builders.set name b).get .empty name = b
    rw [Registers.get_set, if_pos rfl]
  rwa [same] at kept

namespace Workspace

section

variable {w : Workspace α} {s : Sequence α} {xs : List α} [Element α]

theorem queriedChecked_eq [Json.Spelling] (hs : s.Holds xs) (bound : xs.length < UInt64.size) (question : Query) :
    w.queriedChecked s question = w.queried s question := by
  have tree_bound := hs.length_tree ▸ bound
  cases question with
  | whole | size | isEmpty | compare other | trace | inspect layout | inspectTree layout | serialize => rfl
  | front =>
    rw [queriedChecked, s.tree.frontChecked?_eq]
    rfl
  | back =>
    rw [queriedChecked, hs.consistent.backChecked? tree_bound]
    rfl
  | get index =>
    rw [queriedChecked, hs.consistent.getChecked? tree_bound]
    rfl
  | elementAt index =>
    rw [queriedChecked, hs.elementAtChecked bound]
    rfl
  | demand index =>
    rw [queriedChecked, hs.elementAtChecked bound]
    rfl
  | walk near requests =>
    rw [queriedChecked, Walk.checkedCursor_eq]
    rfl
  | drain requests =>
    have sound : s.drain.tree.WellFormed 0 := hs.wellFormed bound
    rw [queriedChecked, Drain.agree_checked.answerAll sound requests]
    rfl
  | audit =>
    rw [queriedChecked, queried, hs.auditChecked bound, hs.audit bound]

theorem gatheredByChecked_eq {name : String} {b : Builder α} (hb : b.Holds xs)
    (fits : FitsWith (w.gatheredBy name b)) :
    w.gatheredByChecked name b = .ok (w.gatheredBy name b) := by
  have small := fits_of_gatheredBy fits
  rw [hb.toList_eq] at small
  rw [gatheredByChecked, hb.sizeChecked small, hb.isEmptyChecked small]
  rfl

omit [Element α] in
theorem walkingChecked_eq (name : String) (step : Walking) :
    w.walkingChecked name step = w.walking name step := by
  cases step with
  | start source near | copy other => rfl
  | ask request =>
    rw [walkingChecked, Walk.checkedCursor_eq]
    rfl

theorem decodedChecked_eq (document : Json) (target : Option String)
    (later : Ensures FitsWith (w.decoded document target)) :
    w.decodedChecked document target = w.decoded document target := by
  cases document with
  | array items =>
    rw [decoded, Sequence.ofJson_eq, Listed.ofJson] at later ⊢
    rw [decodedChecked]
    cases read : (JsonCodec.ofItems items : Except Json.Mismatch (List α)) with
    | error mismatch => rfl
    | ok elements =>
      rw [read] at later
      have fits := (later _ rfl).1 _ List.mem_cons_self
      rw [(Sequence.holds_ofList elements).toList_eq] at fits
      change (do return w.answering target (← Sequence.ofListChecked elements) :
        Except Problem (Answer α × Workspace α)) = _
      rw [Sequence.ofListChecked_eq fits]
      rfl
  | _ => rfl

theorem mismatch_of_decoded {document : Json} {target : Option String} {problem : Problem}
    (failed : w.decoded document target = .error problem) :
    ∃ mismatch, problem = .mismatch mismatch := by
  rw [decoded] at failed
  cases read : (JsonCodec.ofJson document : Except Json.Mismatch (Sequence α)) with
  | error mismatch =>
    rw [read] at failed
    exact ⟨mismatch, (Except.error.inj failed).symm⟩
  | ok s =>
    rw [read] at failed
    cases failed

end

namespace Holds

variable {w : Workspace α} {c : Contents α} {s : Sequence α} {xs : List α}

theorem transformedChecked (h : w.Holds c) (hs : s.Holds xs) (bound : xs.length < UInt64.size)
    (change : Transform α) (fits : Ensures Sequence.Fits (w.transformed s change)) :
    w.transformedChecked s change = w.transformed s change := by
  cases change with
  | copy => rfl
  | pushFront element =>
    have grown := (hs.pushFront element).length_of_fits (fits _ rfl)
    exact congrArg liftM (hs.pushFrontChecked element grown)
  | pushBack element =>
    have grown := (hs.pushBack element).length_of_fits (fits _ rfl)
    rw [List.length_append] at grown
    exact congrArg liftM (hs.pushBackChecked element grown)
  | pushAllFront elements =>
    have grown := (hs.pushAllFront elements).length_of_fits (fits _ rfl)
    rw [List.length_append, List.length_reverse, Nat.add_comm] at grown
    exact congrArg liftM (hs.pushAllFrontChecked grown)
  | pushAllBack elements =>
    have grown := (hs.pushAllBack elements).length_of_fits (fits _ rfl)
    rw [List.length_append] at grown
    exact congrArg liftM (hs.pushAllBackChecked grown)
  | extend elements =>
    have grown := (hs.extend elements).length_of_fits (Ensures.of_lift_fault fits)
    rw [List.length_append] at grown
    exact congrArg liftM (hs.extendChecked grown)
  | doubled times =>
    have grown := (hs.doubled times.toNat).length_of_fits (Ensures.of_lift_fault fits)
    exact congrArg liftM (hs.doubledChecked grown)
  | concat other =>
    have grown := (hs.concat (h.sequences other)).length_of_fits (Ensures.of_lift_fault fits)
    rw [List.length_append] at grown
    exact congrArg liftM (hs.concatChecked (h.sequences other) grown)
  | reversed => exact congrArg liftM (hs.reversedChecked bound)
  | insertAt index element =>
    exact congrArg liftM (hs.insertAtChecked bound (Ensures.of_lift_failure fits))
  | removeAt index => exact congrArg liftM (hs.removeAtChecked bound index)
  | update index element =>
    exact congrArg liftM (hs.updateChecked bound (Ensures.of_lift_failure fits))
  | slice start stop => exact congrArg liftM (hs.sliceChecked bound start stop)

variable [Element α]

theorem gatheringChecked (h : w.Holds c) (fits : w.Fits) (name : String) (step : Gathering α)
    (later : Ensures FitsWith (w.gathering name step)) :
    w.gatheringChecked name step = w.gathering name step := by
  have hb := h.builders name
  have small := hb.toList_eq ▸ fits.builder name
  cases step with
  | restart => exact gatheredByChecked_eq Builder.holds_empty (later _ rfl)
  | pushFront element => exact gatheredByChecked_eq ((hb.pushFront element)) (later _ rfl)
  | pushBack element => exact gatheredByChecked_eq ((hb.pushBack element)) (later _ rfl)
  | append source =>
    obtain ⟨b, appended, grown⟩ := (hb.append (h.sequences source)).exists_of_ok
    rw [Workspace.gathering, appended] at later ⊢
    have whole := fits_of_gatheredBy (later _ rfl)
    rw [grown.toList_eq, List.length_append] at whole
    rw [Workspace.gatheringChecked, hb.appendChecked (h.sequences source) whole, appended]
    exact gatheredByChecked_eq grown (later _ rfl)
  | prepend source =>
    obtain ⟨b, prepended, grown⟩ := (hb.prepend (h.sequences source)).exists_of_ok
    rw [Workspace.gathering, prepended] at later ⊢
    have whole := fits_of_gatheredBy (later _ rfl)
    rw [grown.toList_eq, List.length_append, Nat.add_comm] at whole
    rw [Workspace.gatheringChecked, hb.prependChecked (h.sequences source) whole, prepended]
    exact gatheredByChecked_eq grown (later _ rfl)
  | extend elements => exact gatheredByChecked_eq ((hb.extend elements)) (later _ rfl)
  | measure => exact gatheredByChecked_eq hb (later _ rfl)
  | inspect layout =>
    rw [Workspace.gatheringChecked, hb.sizeChecked small]
    rfl
  | build target =>
    obtain ⟨⟨s, rest⟩, built, -, rfl⟩ := hb.build.exists_of_ok
    rw [Workspace.gatheringChecked, Workspace.gathering, hb.buildChecked small, built]
    rfl

omit [Element α] in
theorem drainingChecked (h : w.Holds c) (name : String) (step : Draining) :
    w.drainingChecked name step = w.draining name step := by
  cases step with
  | start source => rfl
  | ask request =>
    rw [Workspace.drainingChecked, Drain.agree_checked.answer (h.drains name).wellFormed request]
    rfl

variable [Json.Spelling]

/-- The step lemma: what fits has been reached with no sum too large and no difference below zero. -/
theorem stepChecked (h : w.Holds c) (fits : w.Fits) (command : Command α)
    (later : Ensures FitsWith (w.step command)) : w.stepChecked command = w.step command := by
  have bound := h.fits fits
  cases command with
  | empty target | singleton element target => rfl
  | ofList elements target =>
    have small := (later _ rfl).1 _ List.mem_cons_self
    rw [(Sequence.holds_ofList elements).toList_eq] at small
    rw [Workspace.stepChecked, Sequence.ofListChecked_eq small]
    rfl
  | decode document target => exact decodedChecked_eq document target later
  | read text target =>
    rw [Workspace.step] at later
    rw [Workspace.stepChecked, Workspace.step]
    cases read : Json.Spelling.parse? text with
    | none => rfl
    | some document =>
      have inside : Ensures FitsWith (w.decoded document target) := by
        intro answered made
        simp only [read, made] at later
        exact later answered rfl
      simp only [decodedChecked_eq document target inside]
      cases made : w.decoded document target with
      | ok answered => rfl
      | error problem =>
        obtain ⟨mismatch, rfl⟩ := mismatch_of_decoded made
        rfl
  | transform source change target =>
    have small : Ensures Sequence.Fits (w.transformed (w.sequence source) change) :=
      later.of_bind_ok fun s fits => fits.1 s List.mem_cons_self
    rw [Workspace.stepChecked, h.transformedChecked (h.sequences source) (bound source) change small]
    rfl
  | popFront source target =>
    rw [Workspace.stepChecked, (h.sequences source).popFrontChecked (bound source)]
    rfl
  | popBack source target =>
    rw [Workspace.stepChecked, (h.sequences source).popBackChecked (bound source)]
    rfl
  | split source index targets =>
    rw [Workspace.stepChecked, (h.sequences source).splitChecked (bound source)]
    rfl
  | splitAt source index targets =>
    rw [Workspace.stepChecked, (h.sequences source).splitAtChecked (bound source)]
    rfl
  | query source question =>
    rw [Workspace.stepChecked, queriedChecked_eq (h.sequences source) (bound source)]
    rfl
  | gather builder step => exact h.gatheringChecked fits builder step later
  | walk walk step => exact walkingChecked_eq walk step
  | drain drain step => exact h.drainingChecked drain step

theorem exists_of_step_ok (h : w.Holds c) (fits : w.Fits) {command : Command α}
    {answered : Answer α × Workspace α} (made : w.step command = .ok answered) :
    ∃ d, answered.2.Holds d := by
  have outcome := h.step (h.fits fits) command
  rw [made] at outcome
  cases listed : c.step command with
  | error problem =>
    rw [listed] at outcome
    exact outcome.elim
  | ok moved =>
    rw [listed] at outcome
    exact ⟨moved.2, outcome.2.2⟩

theorem runChecked (h : w.Holds c) {program : List (Command α)} (below : w.StaysBelow program) :
    w.runChecked program = w.run program := by
  induction program generalizing w c with
  | nil => rfl
  | cons command later ih =>
    obtain ⟨fits, below⟩ := below
    have reached : Ensures FitsWith (w.step command) := by
      rintro ⟨answer, moved⟩ made
      rw [made] at below
      exact ⟨below.1, below.2.fits⟩
    rw [Workspace.runChecked, h.stepChecked fits command reached, Workspace.run]
    cases made : w.step command with
    | error problem =>
      rw [made] at below
      simp only [ih h below]
    | ok answered =>
      rw [made] at below
      obtain ⟨_, hmoved⟩ := h.exists_of_step_ok fits made
      simp only [ih hmoved below.2]

theorem fault_notMem_run (h : w.Holds c) {program : List (Command α)} (below : w.StaysBelow program)
    (fault : Fault) : .error (.fault fault) ∉ (w.run program).1 := by
  induction program generalizing w c with
  | nil => exact List.not_mem_nil
  | cons command later ih =>
    obtain ⟨fits, below⟩ := below
    cases made : w.step command with
    | error problem =>
      rw [made] at below
      rw [run_error made, List.mem_cons, not_or]
      refine ⟨?_, ih h below⟩
      intro same
      cases same
      exact h.step_ne_fault fits made
    | ok answered =>
      rw [made] at below
      obtain ⟨_, hmoved⟩ := h.exists_of_step_ok fits made
      rw [run_ok made, List.mem_cons, not_or]
      exact ⟨nofun, ih hmoved below.2⟩

end Holds

end Workspace

theorem Registers.mem_setEntry {σ : Type} {name : String} {value : σ} {entries : List (String × σ)}
    {entry : String × σ} (mem : entry ∈ setEntry name value entries) :
    entry = (name, value) ∨ entry ∈ entries := by
  induction entries with
  | nil => exact .inl (List.mem_singleton.mp mem)
  | cons first rest ih =>
    obtain ⟨known, old⟩ := first
    rw [setEntry] at mem
    split at mem
    · exact (List.mem_cons.mp mem).imp_right (List.mem_cons_of_mem _)
    · obtain rfl | later := List.mem_cons.mp mem
      · exact .inr List.mem_cons_self
      · exact (ih later).imp_right (List.mem_cons_of_mem _)

theorem Workspace.Fits.keep {w : Workspace α} {s : Sequence α} (fits : w.Fits) (target : Option String)
    (small : s.Fits) : (w.keep target s).Fits := by
  cases target with
  | none => exact fits
  | some name =>
    refine ⟨?_, fits.2⟩
    intro entry mem
    obtain rfl | known := Registers.mem_setEntry mem
    · exact small
    · exact fits.1 entry known

/-- The program stays below from here, and leaves these contents. -/
def Workspace.EndsWith [Element α] [Json.Spelling] (w : Workspace α) (d : Contents α)
    (program : List (Command α)) : Prop :=
  w.StaysBelow program ∧ (w.run program).2.Holds d

theorem Workspace.EndsWith.step [Element α] [Json.Spelling] {w : Workspace α} {d : Contents α} {command : Command α}
    {answered : Answer α × Workspace α} {later : List (Command α)} (fits : w.Fits)
    (made : w.step command = .ok answered) (small : Response.Fits answered.1)
    (rest : answered.2.EndsWith d later) : w.EndsWith d (command :: later) := by
  obtain ⟨below, held⟩ := rest
  refine ⟨⟨fits, ?_⟩, ?_⟩
  · rw [made]
    exact ⟨small, below⟩
  · rw [run_ok made]
    exact held

/-- For a change of a sequence it is enough what it does to the list. -/
theorem Workspace.Holds.endsWith_transform [Element α] [Json.Spelling] {w : Workspace α} {c d : Contents α}
    (h : w.Holds c) (fits : w.Fits) {source : String} {change : Transform α} {target : Option String}
    {xs : List α} {later : List (Command α)}
    (made : c.transformed (c.sequences source) change = .ok xs) (small : xs.length < UInt64.size)
    (rest : ∀ v : Workspace α, v.Holds (c.keep target xs) → v.Fits → v.EndsWith d later) :
    w.EndsWith d (.transform source change target :: later) := by
  have outcome := h.transformed (h.sequences source) (h.fits fits source) change
  rw [made] at outcome
  obtain ⟨s, changed, hs⟩ := outcome.exists_of_ok
  have short : s.Fits := by
    rw [Sequence.Fits, hs.toList_eq]
    exact small
  have stepped : w.step (.transform source change target) = .ok (w.answering target s) := by
    rw [Workspace.step, changed]
    rfl
  refine .step fits stepped (fun _ mem => List.mem_singleton.mp mem ▸ short) ?_
  exact rest _ (h.keep target hs) (fits.keep target short)

/-- Its own size, and each that is cached inside, is the number of elements there as an integer. -/
structure Sequence.Counted (s : Sequence α) : Prop where
  wellFormed : s.tree.WellFormed 0
  toNat_size : s.size.toNat = s.toList.length

theorem Sequence.counted_of_wellFormed {s : Sequence α} (h : s.tree.WellFormed 0) : s.Counted :=
  ⟨h, h.toNat_size⟩

theorem Builder.Holds.toNat_size {b : Builder α} {xs : List α} (h : b.Holds xs)
    (bound : b.toList.length < UInt64.size) : b.size.toNat = b.toList.length := by
  refine toNat_ofNat_of_eq ?_ bound
  rw [h.size_eq, h.toList_eq]

theorem Walk.Shows.toNat_remaining {walk : Walk α} {near : End} {queue : List α}
    (h : walk.Shows near queue) : walk.remaining.toNat = walk.elements.length := by
  rw [h.elements]
  exact toNat_ofNat_of_eq h.counted h.bounded

/-- Below 2^64 elements sizes of 64 bits are integers: a run with every sum and difference checked meets no fault and
goes as one with words that wrap. -/
theorem sizes_exact [Element α] [Json.Spelling] {program : List (Command α)}
    (below : Workspace.empty.StaysBelow program) :
    Workspace.empty.runChecked program = Workspace.empty.run program ∧
      (∀ fault, .error (.fault fault) ∉ (Workspace.empty.runChecked program).1) ∧
      (∀ (walk : Walk α) (e : End), walk.takeFromChecked e = .ok (walk.takeFrom e)) ∧
      (∀ (s : Sequence α) (element : α), s.Counted → s.toList.length + 1 = UInt64.size →
        s.pushFrontChecked element = .error .overflowingSum) ∧
      (∀ answer, .ok answer ∈ (Workspace.empty.run program).1 → ∀ s ∈ answer.sequences, s.Counted) ∧
      ∀ name, ((Workspace.empty.run program).2.sequence name).Counted ∧
        ((Workspace.empty.run program).2.builder name).sequence.Counted ∧
        ((Workspace.empty.run program).2.builder name).size.toNat =
          ((Workspace.empty.run program).2.builder name).toList.length ∧
        ((Workspace.empty.run program).2.walk name).remaining.toNat =
          ((Workspace.empty.run program).2.walk name).elements.length ∧
        ((Workspace.empty.run program).2.drain name).tree.WellFormed 0 ∧
        ((Workspace.empty.run program).2.drain name).remaining.toNat =
          ((Workspace.empty.run program).2.drain name).tree.toList.length := by
  have listed := Workspace.Holds.empty.staysBelow below
  obtain ⟨-, held, consistent⟩ := Workspace.Holds.empty.run listed
  obtain ⟨fits, answers⟩ := below.run
  have exact_run := Workspace.Holds.empty.runChecked below
  refine ⟨exact_run, ?_, Walk.takeFromChecked_eq, ?_, ?_, ?_⟩
  · intro fault mem
    rw [exact_run] at mem
    exact Workspace.Holds.empty.fault_notMem_run below fault mem
  · intro s element counted full
    have hs : s.Holds s.toList := ⟨(Tree.wellFormed_iff.mp counted.wellFormed).1, rfl⟩
    exact hs.pushFrontChecked_full element full
  · intro answer mem s inside
    exact Sequence.counted_of_wellFormed
      (Tree.wellFormed_iff.mpr ⟨consistent answer mem s inside, answers answer mem s inside⟩)
  · intro name
    have whole := fits.builder name
    have parts := (held.builders name).length_parts
    rw [← (held.builders name).toList_eq] at parts
    refine ⟨?_, ?_, (held.builders name).toNat_size whole, (held.walks name).toNat_remaining,
      (held.drains name).wellFormed, (held.drains name).wellFormed.toNat_size⟩
    · exact Sequence.counted_of_wellFormed ((held.sequences name).wellFormed (held.fits fits name))
    · exact Sequence.counted_of_wellFormed ((held.builders name).holds_sequence.wellFormed (by omega))

def greatestProgram : List (Command Int64) :=
  [.singleton 7 (some "a"), .transform "a" (.doubled 63) (some "a"),
    .transform "a" (.removeAt 9223372036854775807) (some "b"), .transform "b" (.concat "a") (some "b")]

theorem greatestProgram_exact :
    Workspace.empty.StaysBelow greatestProgram ∧
      Workspace.empty.runChecked greatestProgram = Workspace.empty.run greatestProgram ∧
      ((Workspace.empty.run greatestProgram).2.sequence "b").size = 18446744073709551615 ∧
      ((Workspace.empty.run greatestProgram).2.sequence "b").pushFrontChecked 8 =
        .error .overflowingSum := by
  let single := (Contents.empty : Contents Int64).keep (some "a") [7]
  have start : ((Workspace.empty : Workspace Int64).keep (some "a") (.singleton 7)).Holds single :=
    Workspace.Holds.empty.keep (some "a") (Sequence.holds_singleton 7)
  have many : (Sequence.doubledList [(7 : Int64)] 63).length = 9223372036854775808 :=
    Sequence.length_doubledList [7] 63
  have doubled : single.transformed (single.sequences "a") (.doubled 63) =
      .ok (Sequence.doubledList [(7 : Int64)] 63) := rfl
  -- The list stays a variable from here on: of its elements nothing is needed but how many they are.
  generalize Sequence.doubledList [(7 : Int64)] 63 = xs at many doubled
  have inside : (9223372036854775807 : UInt64).toNat < xs.length := by
    rw [many]
    decide
  let pair := single.keep (some "a") xs
  let fewer := xs.eraseIdx (9223372036854775807 : UInt64).toNat
  have removed : pair.transformed (pair.sequences "a") (.removeAt 9223372036854775807) = .ok fewer :=
    if_pos inside
  have one_less : fewer.length = 9223372036854775807 := by
    rw [List.length_eraseIdx_of_lt inside, many]
  let both := pair.keep (some "b") fewer
  have joined : both.transformed (both.sequences "b") (.concat "a") = .ok (fewer ++ xs) := rfl
  have total : (fewer ++ xs).length = 18446744073709551615 := by
    rw [List.length_append, one_less, many]
  have ends : Workspace.empty.EndsWith (both.keep (some "b") (fewer ++ xs)) greatestProgram := by
    refine .step (by decide) rfl (by decide) ?_
    refine start.endsWith_transform (by decide) doubled (by rw [many]; decide) ?_
    intro w hw fits
    refine hw.endsWith_transform fits removed (by rw [one_less]; decide) ?_
    intro w hw fits
    refine hw.endsWith_transform fits joined (by rw [total]; decide) ?_
    intro w hw fits
    exact ⟨fits, hw⟩
  obtain ⟨below, held⟩ := ends
  obtain ⟨exact_run, -, -, full, -, kept⟩ := sizes_exact below
  have most : ((Workspace.empty.run greatestProgram).2.sequence "b").toList.length =
      18446744073709551615 := by
    rw [(held.sequences "b").toList_eq]
    exact total
  refine ⟨below, exact_run, ?_, full _ 8 (kept "b").1 (by rw [most])⟩
  rw [← UInt64.toNat_inj, (kept "b").1.toNat_size, most]
  rfl

end IndexedSequence
