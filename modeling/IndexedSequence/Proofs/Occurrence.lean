import IndexedSequence.Proofs.Preservation
import IndexedSequence.Proofs.Refinement

set_option autoImplicit false

namespace IndexedSequence

variable {α : Type} {w : Workspace α}

theorem Ensures.lift_problem {β : Type} {holds : β → Prop} {result : Except Fault β}
    (h : Ensures holds result) : Ensures holds (liftM result : Except Problem β) := by
  cases result with
  | error fault => exact .of_error _
  | ok b => exact .of_ok (h b rfl)

/-- No tree that is kept, inside a builder or left in a drain is inconsistent. -/
structure Workspace.Consistent (w : Workspace α) : Prop where
  sequences (name : String) : (w.sequence name).tree.Consistent 0
  builders (name : String) : (w.builder name).sequence.tree.Consistent 0
  drains (name : String) : (w.drain name).tree.Consistent 0

def Workspace.ConsistentWith (answered : Answer α × Workspace α) : Prop :=
  (∀ s ∈ answered.1.sequences, s.tree.Consistent 0) ∧ answered.2.Consistent

namespace Workspace.Consistent

theorem empty : (Workspace.empty : Workspace α).Consistent where
  sequences _ := trivial
  builders _ := trivial
  drains _ := trivial

theorem keep {s : Sequence α} (h : w.Consistent) (target : Option String) (hs : s.tree.Consistent 0) :
    (w.keep target s).Consistent := by
  cases target with
  | none => exact h
  | some name =>
    refine { h with sequences := ?_ }
    intro known
    change ((w.sequences.set name s).get .empty known).tree.Consistent 0
    rw [Registers.get_set]
    split
    · exact hs
    · exact h.sequences known

theorem keepBuilder {b : Builder α} (h : w.Consistent) (name : String)
    (hb : b.sequence.tree.Consistent 0) : (w.keepBuilder name b).Consistent := by
  refine { h with builders := ?_ }
  intro known
  change ((w.builders.set name b).get .empty known).sequence.tree.Consistent 0
  rw [Registers.get_set]
  split
  · exact hb
  · exact h.builders known

theorem keepWalk (h : w.Consistent) (name : String) (walk : Walk α) :
    (w.keepWalk name walk).Consistent := { h with }

theorem keepDrain {drain : Drain α} (h : w.Consistent) (name : String)
    (hd : drain.tree.Consistent 0) : (w.keepDrain name drain).Consistent := by
  refine { h with drains := ?_ }
  intro known
  change ((w.drains.set name drain).get ⟨.empty⟩ known).tree.Consistent 0
  rw [Registers.get_set]
  split
  · exact hd
  · exact h.drains known

theorem answering {s : Sequence α} (h : w.Consistent) (target : Option String)
    (hs : s.tree.Consistent 0) : ConsistentWith (w.answering target s) :=
  ⟨by simpa [Workspace.answering, Response.sequences] using hs, h.keep target hs⟩

theorem answeringPop {popped : Option (α × Sequence α)} (h : w.Consistent) (target : Option String)
    (hp : Sequence.Parted popped) : ConsistentWith (w.answeringPop target popped) := by
  cases popped with
  | none => exact ⟨fun _ mem => absurd mem List.not_mem_nil, h⟩
  | some parts =>
    have hrest := hp parts.1 parts.2 rfl
    exact ⟨by simpa [Workspace.answeringPop, Response.sequences] using hrest, h.keep target hrest⟩

theorem halves {answer : Answer α} {before after : Sequence α} (h : w.Consistent) (targets : Halves)
    (parts : answer.sequences = [before, after])
    (hb : before.tree.Consistent 0) (ha : after.tree.Consistent 0) :
    ConsistentWith (answer, w.keepHalves targets before after) :=
  ⟨by simpa [parts] using ⟨hb, ha⟩, (h.keep targets.before hb).keep targets.after ha⟩

theorem plain {answer : Answer α} (h : w.Consistent) (none : answer.sequences = []) :
    ConsistentWith (answer, w) :=
  ⟨by simp [none], h⟩

theorem decoded [Element α] (h : w.Consistent) (document : Json) (target : Option String) :
    Ensures ConsistentWith (w.decoded document target) := by
  rw [Workspace.decoded, Sequence.ofJson_eq]
  cases (Listed.ofJson document : Except Json.Mismatch (List α)) with
  | error mismatch => exact .of_error _
  | ok elements => exact .of_ok (h.answering target (Sequence.holds_ofList elements).consistent)

theorem gatheredBy [Element α] {b : Builder α} (h : w.Consistent) (name : String)
    (hb : b.sequence.tree.Consistent 0) : ConsistentWith (w.gatheredBy name b) :=
  (h.keepBuilder name hb).plain rfl

theorem gathering [Element α] (h : w.Consistent) (name : String) (step : Gathering α) :
    Ensures ConsistentWith (w.gathering name step) := by
  have hb : (w.builder name).Holds (w.builder name).toList := ⟨h.builders name, rfl⟩
  cases step with
  | restart => exact .of_ok (h.gatheredBy name Builder.holds_empty.consistent)
  | pushFront element | pushBack element | extend elements | measure =>
    exact .of_ok (h.gatheredBy name hb.consistent)
  | append source =>
    have grown := hb.append ⟨h.sequences source, rfl⟩
    exact (Ensures.of_refines grown).lift_problem.bind fun b held =>
      .of_ok (h.gatheredBy name held.consistent)
  | prepend source =>
    have grown := hb.prepend ⟨h.sequences source, rfl⟩
    exact (Ensures.of_refines grown).lift_problem.bind fun b held =>
      .of_ok (h.gatheredBy name held.consistent)
  | inspect layout => exact .of_ok (h.plain rfl)
  | build target =>
    refine (Ensures.of_refines hb.build).lift_problem.bind ?_
    rintro ⟨s, rest⟩ ⟨hs, rfl⟩
    refine .of_ok ⟨by simpa [Response.sequences] using hs.consistent, ?_⟩
    exact (h.keepBuilder name Builder.holds_empty.consistent).keep target hs.consistent

theorem walking (h : w.Consistent) (name : String) (step : Walking) :
    Ensures ConsistentWith (w.walking name step) := by
  cases step with
  | start source near => exact .of_ok ((h.keepWalk name _).plain rfl)
  | copy other => exact .of_ok ((h.keepWalk name _).plain rfl)
  | ask request => exact Ensures.after fun answered => .of_ok ((h.keepWalk name _).plain rfl)

variable [Arithmetic] [Arithmetic.Modular]

theorem draining (h : w.Consistent) (name : String) (step : Draining) :
    Ensures ConsistentWith (w.draining name step) := by
  cases step with
  | start source => exact .of_ok ((h.keepDrain name (h.sequences source)).plain rfl)
  | ask request =>
    have moved := Drain.keeps_consistent.answer (h.drains name) request
    refine moved.lift_problem.bind ?_
    rintro ⟨reply, drain⟩ hd
    exact .of_ok ((h.keepDrain name hd).plain rfl)

theorem transformed {s : Sequence α} (h : w.Consistent) (hs : s.tree.Consistent 0)
    (change : Transform α) :
    Ensures (fun t => t.tree.Consistent 0) (w.transformed s change) := by
  have held : s.Holds s.toList := ⟨hs, rfl⟩
  cases change with
  | copy => exact .of_ok hs
  | pushFront element => exact .of_ok (held.pushFront element).consistent
  | pushBack element => exact .of_ok (held.pushBack element).consistent
  | pushAllFront elements => exact .of_ok (held.pushAllFront elements).consistent
  | pushAllBack elements => exact .of_ok (held.pushAllBack elements).consistent
  | extend elements =>
    exact (Sequence.ensures_concat hs (Sequence.holds_ofList elements).consistent).lift_problem
  | doubled times => exact (Sequence.ensures_doubled hs times.toNat).lift_problem
  | concat other => exact (Sequence.ensures_concat hs (h.sequences other)).lift_problem
  | reversed => exact .of_ok held.reversed.consistent
  | insertAt index element => exact (Sequence.ensures_insertAt hs index element).mapError
  | removeAt index => exact (Sequence.ensures_removeAt hs index).mapError
  | update index element => exact (Sequence.ensures_update hs index element).mapError
  | slice start stop => exact (Sequence.ensures_slice hs start stop).mapError

variable [Element α] [Json.Spelling]

omit [Arithmetic.Modular] in
theorem queried {s : Sequence α} (hs : s.tree.Consistent 0) (question : Query) :
    Ensures (fun answer => ∀ t ∈ answer.sequences, t.tree.Consistent 0) (w.queried s question) := by
  have nothing {answer : Answer α} (none : answer.sequences = []) :
      ∀ t ∈ answer.sequences, t.tree.Consistent 0 := by simp [none]
  cases question with
  | whole => exact .of_ok (by simpa [Response.sequences] using hs)
  | size | isEmpty | compare _ | trace | inspect _ | inspectTree _ | serialize =>
    exact .of_ok (nothing rfl)
  | front | back | get _ | elementAt _ | walk _ _ | drain _ =>
    exact Ensures.after fun _ => .of_ok (nothing rfl)
  | demand index =>
    rw [Workspace.queried]
    split
    · exact .of_ok (nothing rfl)
    · exact .of_error _
    · exact .of_error _
  | audit =>
    rw [Workspace.queried]
    split
    · exact .of_ok (nothing rfl)
    · exact .of_ok (nothing rfl)

/-- The step lemma: a command that answers leaves nothing inconsistent, whatever it was given. -/
theorem step (h : w.Consistent) (command : Command α) :
    Ensures ConsistentWith (w.step command) := by
  cases command with
  | empty target => exact .of_ok (h.answering target trivial)
  | singleton element target => exact .of_ok (h.answering target (Node.consistent_leaf element))
  | ofList elements target =>
    exact .of_ok (h.answering target (Sequence.holds_ofList elements).consistent)
  | decode document target => exact h.decoded document target
  | read text target =>
    rw [Workspace.step]
    split
    · exact .of_error _
    · next document _ =>
      have outcome := h.decoded document target
      split
      · next answered made => exact .of_ok (outcome answered made)
      · exact .of_error _
  | transform source change target =>
    exact (h.transformed (h.sequences source) change).bind fun s hs => .of_ok (h.answering target hs)
  | popFront source target =>
    exact (Sequence.ensures_popFront (h.sequences source)).lift_problem.bind fun popped hp =>
      .of_ok (h.answeringPop target hp)
  | popBack source target =>
    exact (Sequence.ensures_popBack (h.sequences source)).lift_problem.bind fun popped hp =>
      .of_ok (h.answeringPop target hp)
  | split source index targets =>
    exact (Sequence.ensures_split (h.sequences source) index).mapError.bind fun parts hp =>
      .of_ok (h.halves targets rfl hp.1 hp.2)
  | splitAt source index targets =>
    exact (Sequence.ensures_splitAt (h.sequences source) index).mapError.bind fun parts hp =>
      .of_ok (h.halves targets rfl hp.1 hp.2)
  | query source question =>
    exact (queried (h.sequences source) question).bind fun answer ha => .of_ok ⟨ha, h⟩
  | gather builder step => exact h.gathering builder step
  | walk walk step => exact h.walking walk step
  | drain drain step => exact h.draining drain step

theorem run (h : w.Consistent) (program : List (Command α)) :
    (∀ answer, .ok answer ∈ (w.run program).1 → ∀ s ∈ answer.sequences, s.tree.Consistent 0) ∧
      (w.run program).2.Consistent := by
  induction program generalizing w with
  | nil => exact ⟨fun _ mem => absurd mem List.not_mem_nil, h⟩
  | cons command later ih =>
    rw [Workspace.run]
    cases made : w.step command with
    | error problem =>
      obtain ⟨answers, final⟩ := ih h
      refine ⟨?_, final⟩
      intro answer mem
      rw [List.mem_cons] at mem
      exact answers answer (mem.resolve_left nofun)
    | ok answered =>
      obtain ⟨hanswer, hmoved⟩ := h.step command answered made
      obtain ⟨answers, final⟩ := ih hmoved
      refine ⟨?_, final⟩
      intro answer mem
      obtain first | mem := List.mem_cons.mp mem
      · rw [Except.ok.inj first]
        exact hanswer
      · exact answers answer mem

end Workspace.Consistent

/-- A tree that a run comes upon: that of a sequence it answers or keeps in the end, the one inside a
builder, or the one left in a drain. -/
inductive Tree.OccursIn [Element α] [Arithmetic] [Json.Spelling] (program : List (Command α)) : Tree α → Prop
  | answered {answer : Answer α} {s : Sequence α}
      (given : .ok answer ∈ (Workspace.empty.run program).1) (inside : s ∈ answer.sequences) :
      OccursIn program s.tree
  | kept (name : String) : OccursIn program ((Workspace.empty.run program).2.sequence name).tree
  | gathered (name : String) :
      OccursIn program ((Workspace.empty.run program).2.builder name).sequence.tree
  | drained (name : String) : OccursIn program ((Workspace.empty.run program).2.drain name).tree

namespace Tree.OccursIn

variable [Element α] [Arithmetic] [Json.Spelling] [Arithmetic.Modular] {program : List (Command α)} {tree : Tree α}

theorem consistent (occurs : tree.OccursIn program) : tree.Consistent 0 := by
  obtain ⟨answers, final⟩ := Workspace.Consistent.empty.run program
  cases occurs with
  | answered given inside => exact answers _ given _ inside
  | kept name => exact final.sequences name
  | gathered name => exact final.builders name
  | drained name => exact final.drains name

end Tree.OccursIn

/-- A sequence that some run comes upon, of fewer than 2^64 elements that are all admitted. -/
structure Sequence.Attained [Element α] [Arithmetic] [Json.Spelling] (admitted : α → Prop) (s : Sequence α) : Prop where
  occurs : ∃ program : List (Command α), s.tree.OccursIn program
  bounded : s.toList.length < UInt64.size
  elements : ∀ x ∈ s.toList, admitted x

theorem Sequence.Attained.holds [Element α] [Arithmetic] [Json.Spelling] [Arithmetic.Modular] {admitted : α → Prop}
    {s : Sequence α} (h : s.Attained admitted) : s.Holds s.toList := by
  obtain ⟨program, occurs⟩ := h.occurs
  exact ⟨occurs.consistent, rfl⟩

theorem Sequence.attained_ofList [Element α] [Arithmetic] [Json.Spelling] [Arithmetic.Modular] {admitted : α → Prop}
    {elements : List α} (bound : elements.length < UInt64.size) (each : ∀ x ∈ elements, admitted x) :
    (Sequence.ofList elements).Attained admitted := by
  have same : (Sequence.ofList elements).toList = elements := (Sequence.holds_ofList elements).toList_eq
  exact ⟨⟨[.ofList elements (some "a")], .kept "a"⟩, by rwa [same], by rwa [same]⟩

/-- Twice nine elements less the first four, with what is left of a digit in front. -/
def splitTwice : List (Command Int64) :=
  [.ofList [1, 2, 3, 4, 5, 6, 7, 8, 9] (some "a"), .transform "a" (.doubled 1) (some "a"),
    .split "a" 3 ⟨none, some "b"⟩]

end IndexedSequence
