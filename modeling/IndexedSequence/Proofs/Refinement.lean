import IndexedSequence.Proofs.Contents

set_option autoImplicit false

namespace IndexedSequence

variable {σ α : Type}

namespace Registers

theorem find?_setEntry (name known : String) (value : σ) (entries : List (String × σ)) :
    find? known (setEntry name value entries) =
      if known = name then some value else find? known entries := by
  induction entries with
  | nil =>
    by_cases asked : name = known
    · simp [setEntry, find?, asked]
    · simp [setEntry, find?, asked, Ne.symm asked]
  | cons entry rest ih =>
    obtain ⟨other, old⟩ := entry
    rw [setEntry]
    by_cases same : other = name
    · rw [if_pos same, find?, find?, same]
      by_cases asked : name = known
      · rw [if_pos asked, if_pos asked.symm]
      · rw [if_neg asked, if_neg (Ne.symm asked), if_neg asked]
    · rw [if_neg same, find?, find?, ih]
      by_cases asked : other = known
      · rw [if_pos asked, if_pos asked, if_neg (asked ▸ same)]
      · rw [if_neg asked, if_neg asked]

theorem get_set (registers : Registers σ) (default value : σ) (name known : String) :
    (registers.set name value).get default known =
      if known = name then value else registers.get default known := by
  rw [get, set, find?_setEntry]
  split <;> rfl

theorem get_of_notMem {registers : Registers σ} {name : String} (default : σ)
    (unwritten : name ∉ registers.entries.map Prod.fst) : registers.get default name = default := by
  obtain ⟨entries⟩ := registers
  induction entries with
  | nil => rfl
  | cons entry rest ih =>
    rw [List.map_cons, List.mem_cons, not_or] at unwritten
    rw [get, find?, if_neg (Ne.symm unwritten.1)]
    exact ih unwritten.2

theorem get_eq_or_mem (registers : Registers σ) (default : σ) (name : String) :
    registers.get default name = default ∨
      ∃ entry ∈ registers.entries, registers.get default name = entry.2 := by
  obtain ⟨entries⟩ := registers
  induction entries with
  | nil => exact .inl rfl
  | cons entry rest ih =>
    by_cases same : entry.1 = name
    · exact .inr ⟨entry, List.mem_cons_self, by simp [get, find?, same]⟩
    · have later : (Registers.mk (entry :: rest)).get default name =
          (Registers.mk rest).get default name := by
        simp [get, find?, same]
      rw [later]
      exact ih.imp_right fun ⟨found, mem, eq⟩ => ⟨found, List.mem_cons_of_mem _ mem, eq⟩

end Registers

/-- Everything kept under a name holds what the contents have there. -/
structure Workspace.Holds (w : Workspace α) (c : Contents α) : Prop where
  sequences (name : String) : (w.sequence name).Holds (c.sequences name)
  builders (name : String) : (w.builder name).Holds (c.builders name)
  walks (name : String) : (w.walk name).Shows (c.walks name).1 (c.walks name).2
  drains (name : String) : (w.drain name).Shows (c.drains name)

namespace Workspace.Holds

theorem empty : (Workspace.empty : Workspace α).Holds Contents.empty where
  sequences _ := Sequence.holds_empty
  builders _ := Builder.holds_empty
  walks _ := by
    have nothing : (Tree.empty : Tree α).WellFormed 0 := trivial
    exact Walk.shows_ofTree nothing .front
  drains _ := ⟨trivial, rfl⟩

variable {w : Workspace α} {c : Contents α}

theorem keep {s : Sequence α} {xs : List α} (h : w.Holds c) (target : Option String) (hs : s.Holds xs) :
    (w.keep target s).Holds (c.keep target xs) := by
  cases target with
  | none => exact h
  | some name =>
    refine { h with sequences := ?_ }
    intro known
    change ((w.sequences.set name s).get .empty known).Holds (Contents.write c.sequences name xs known)
    rw [Registers.get_set, Contents.write]
    split
    · exact hs
    · exact h.sequences known

theorem keepHalves {before after : Sequence α} {xs ys : List α} (h : w.Holds c) (targets : Halves)
    (hb : before.Holds xs) (ha : after.Holds ys) :
    (w.keepHalves targets before after).Holds (c.keepHalves targets xs ys) :=
  (h.keep targets.before hb).keep targets.after ha

theorem keepBuilder {b : Builder α} {xs : List α} (h : w.Holds c) (name : String) (hb : b.Holds xs) :
    (w.keepBuilder name b).Holds (c.keepBuilder name xs) := by
  refine { h with builders := ?_ }
  intro known
  change ((w.builders.set name b).get .empty known).Holds (Contents.write c.builders name xs known)
  rw [Registers.get_set, Contents.write]
  split
  · exact hb
  · exact h.builders known

theorem keepWalk {walk : Walk α} {near : End} {xs : List α} (h : w.Holds c) (name : String)
    (hw : walk.Shows near xs) : (w.keepWalk name walk).Holds (c.keepWalk name near xs) := by
  refine { h with walks := ?_ }
  intro known
  change ((w.walks.set name walk).get (.ofTree .empty .front) known).Shows
    (Contents.write c.walks name (near, xs) known).1 (Contents.write c.walks name (near, xs) known).2
  rw [Registers.get_set, Contents.write]
  split
  · exact hw
  · exact h.walks known

theorem keepDrain {drain : Drain α} {xs : List α} (h : w.Holds c) (name : String) (hd : drain.Shows xs) :
    (w.keepDrain name drain).Holds (c.keepDrain name xs) := by
  refine { h with drains := ?_ }
  intro known
  change ((w.drains.set name drain).get ⟨.empty⟩ known).Shows (Contents.write c.drains name xs known)
  rw [Registers.get_set, Contents.write]
  split
  · exact hd
  · exact h.drains known

end Workspace.Holds

namespace Refines

variable {β γ : Type} {holds : γ → β → Prop}

theorem lift_fault {result : Except Fault γ} {b : β} (h : Refines holds result (.ok b)) :
    Refines holds (liftM result : Except Problem γ) (.ok b) := by
  obtain ⟨c, made, hc⟩ := h.exists_of_ok
  rw [made]
  exact hc

theorem lift_failure {result : Except Failure γ} {spec : Except OutOfRange β}
    (h : Refines holds result (spec.mapError .outOfRange)) :
    Refines holds (liftM result : Except Problem γ) (spec.mapError .outOfRange) := by
  cases spec with
  | error refused => rw [h.eq_of_error]; rfl
  | ok b =>
    obtain ⟨c, made, hc⟩ := h.exists_of_ok
    rw [made]
    exact hc

end Refines

/-- The answer says what the response says, with consistent sequences in place of lists. -/
structure Response.Holds (answer : Answer α) (response : Response (List α) α) : Prop where
  consistent : ∀ s ∈ answer.sequences, s.tree.Consistent 0
  map_eq : answer.map Sequence.toList = response

def Workspace.Leaves (answered : Answer α × Workspace α)
    (listed : Response (List α) α × Contents α) : Prop :=
  answered.1.Holds listed.1 ∧ answered.2.Holds listed.2

/-- As `Leaves`, but for the text of a command that shows a tree. -/
def Command.Leaves (command : Command α) (answered : Answer α × Workspace α)
    (listed : Response (List α) α × Contents α) : Prop :=
  (∀ s ∈ answered.1.sequences, s.tree.Consistent 0) ∧ command.seen answered.1 = listed.1 ∧
    answered.2.Holds listed.2

namespace Response

theorem holds_of_no_sequences {answer : Answer α} (none : answer.sequences = []) :
    Response.Holds answer (answer.map Sequence.toList) :=
  ⟨by simp [none], rfl⟩

theorem holds_sequence {s : Sequence α} {xs : List α} (h : s.Holds xs) :
    Response.Holds (.sequence s) (.sequence xs) :=
  ⟨by simpa [sequences] using h.consistent, by rw [map, h.toList_eq]⟩

theorem holds_popped {s : Sequence α} {xs : List α} (x : α) (h : s.Holds xs) :
    Response.Holds (.popped (some (x, s))) (.popped (some (x, xs))) :=
  ⟨by simpa [sequences] using h.consistent, by simp [map, h.toList_eq]⟩

theorem holds_split {before after : Sequence α} {xs ys : List α} (x : α) (hb : before.Holds xs)
    (ha : after.Holds ys) : Response.Holds (.split before x after) (.split xs x ys) :=
  ⟨by simpa [sequences] using ⟨hb.consistent, ha.consistent⟩, by rw [map, hb.toList_eq, ha.toList_eq]⟩

theorem holds_halves {before after : Sequence α} {xs ys : List α} (hb : before.Holds xs)
    (ha : after.Holds ys) : Response.Holds (.halves before after : Answer α) (.halves xs ys) :=
  ⟨by simpa [sequences] using ⟨hb.consistent, ha.consistent⟩, by rw [map, hb.toList_eq, ha.toList_eq]⟩

theorem holds_built {s : Sequence α} {xs : List α} (h : s.Holds xs) (n : UInt64) (isEmpty : Bool) :
    Response.Holds (.built s n isEmpty) (.built xs n isEmpty) :=
  ⟨by simpa [sequences] using h.consistent, by rw [map, h.toList_eq]⟩

end Response

namespace Workspace.Holds

variable {w : Workspace α} {c : Contents α} {s : Sequence α} {xs : List α}

theorem answering (h : w.Holds c) (target : Option String) (hs : s.Holds xs) :
    Leaves (w.answering target s) (c.answering target xs) :=
  ⟨Response.holds_sequence hs, h.keep target hs⟩

theorem gatheredBy [Element α] {b : Builder α} (h : w.Holds c) (name : String) (hb : b.Holds xs) :
    Leaves (w.gatheredBy name b) (c.gatheredBy name xs) := by
  refine ⟨?_, h.keepBuilder name hb⟩
  rw [Workspace.gatheredBy, Contents.gatheredBy, Builder.isEmpty, hb.size_eq]
  exact Response.holds_of_no_sequences rfl

theorem walkedBy {walk : Walk α} {near : End} (h : w.Holds c) (name : String) (hw : walk.Shows near xs) :
    Leaves (w.walkedBy name walk) (c.walkedBy name near xs) := by
  refine ⟨?_, h.keepWalk name hw⟩
  rw [Workspace.walkedBy, Contents.walkedBy, hw.counted]
  exact Response.holds_of_no_sequences rfl

section

variable [Arithmetic] [Arithmetic.Exact]

theorem transformed (h : w.Holds c) (hs : s.Holds xs) (bound : xs.length < UInt64.size)
    (change : Transform α) :
    Refines Sequence.Holds (w.transformed s change) ((c.transformed xs change).mapError .outOfRange) := by
  cases change with
  | copy => exact hs
  | pushFront element => exact hs.pushFront element
  | pushBack element => exact hs.pushBack element
  | pushAllFront elements => exact hs.pushAllFront elements
  | pushAllBack elements => exact hs.pushAllBack elements
  | extend elements => exact (hs.extend elements).lift_fault
  | doubled times => exact (hs.doubled times.toNat).lift_fault
  | concat other => exact (hs.concat (h.sequences other)).lift_fault
  | reversed => exact hs.reversed
  | insertAt index element => exact (hs.insertAt bound index element).lift_failure
  | removeAt index => exact (hs.removeAt bound index).lift_failure
  | update index element => exact (hs.update bound index element).lift_failure
  | slice start stop => exact (hs.slice bound start stop).lift_failure

end

theorem answeringPop {popped : Option (α × Sequence α)} {listed : Option (α × List α)} (h : w.Holds c)
    (target : Option String) (hp : Sequence.HoldsPopped popped listed) :
    Leaves (w.answeringPop target popped) (c.answeringPop target listed) := by
  obtain ⟨rfl, rfl⟩ | ⟨element, rest, xs, rfl, rfl, hrest⟩ := hp
  · exact ⟨Response.holds_of_no_sequences rfl, h⟩
  · exact ⟨Response.holds_popped element hrest, h.keep target hrest⟩

variable [Element α]

theorem decoded (h : w.Holds c) (document : Json) (target : Option String) :
    Refines Leaves (w.decoded document target) (c.decoded document target) := by
  rw [Workspace.decoded, Contents.decoded, Sequence.ofJson_eq]
  cases (Listed.ofJson document : Except Json.Mismatch (List α)) with
  | error mismatch => rfl
  | ok elements => exact h.answering target (Sequence.holds_ofList elements)

theorem read [Arithmetic] [Json.Spelling] (h : w.Holds c) (text : String) (target : Option String) :
    Refines Leaves (w.step (.read text target)) (c.step (.read text target)) := by
  rw [Workspace.step, Contents.step]
  cases Json.Spelling.parse? text with
  | none => rfl
  | some document =>
    have outcome := h.decoded document target
    cases spec : c.decoded document target with
    | error problem =>
      rw [spec] at outcome
      simp only [spec, outcome.eq_of_error]
      rfl
    | ok listed =>
      rw [spec] at outcome
      obtain ⟨answered, decoded, leaves⟩ := outcome.exists_of_ok
      simp only [spec, decoded]
      exact leaves

theorem gathering (h : w.Holds c) (name : String) (step : Gathering α) :
    Refines Leaves (w.gathering name step) (.ok (c.gathering name step)) := by
  have hb := h.builders name
  cases step with
  | restart => exact h.gatheredBy name Builder.holds_empty
  | pushFront element => exact h.gatheredBy name (hb.pushFront element)
  | pushBack element => exact h.gatheredBy name (hb.pushBack element)
  | append source =>
    obtain ⟨b, appended, grown⟩ := (hb.append (h.sequences source)).exists_of_ok
    exact .of_ok (by rw [Workspace.gathering, appended]; rfl) (h.gatheredBy name grown)
  | prepend source =>
    obtain ⟨b, prepended, grown⟩ := (hb.prepend (h.sequences source)).exists_of_ok
    exact .of_ok (by rw [Workspace.gathering, prepended]; rfl) (h.gatheredBy name grown)
  | extend elements => exact h.gatheredBy name (hb.extend elements)
  | measure => exact h.gatheredBy name hb
  | inspect layout =>
    refine ⟨?_, h⟩
    change Response.Holds (.text (layout.text (.record "SequenceBuilder"
      [("len", rendering (w.builder name).size)] true))) _
    rw [hb.size_eq]
    exact Response.holds_of_no_sequences rfl
  | build target =>
    obtain ⟨⟨s, rest⟩, built, hs, rfl⟩ := hb.build.exists_of_ok
    refine .of_ok (by rw [Workspace.gathering, built]; rfl) ⟨Response.holds_built hs _ _, ?_⟩
    exact (h.keepBuilder name Builder.holds_empty).keep target hs

omit [Element α] in
theorem walking (h : w.Holds c) (bound : ∀ source, (c.sequences source).length < UInt64.size)
    (name : String) (step : Walking) :
    Refines Leaves (w.walking name step) (.ok (c.walking name step)) := by
  cases step with
  | start source near => exact h.walkedBy name ((h.sequences source).walk (bound source) near)
  | copy other => exact h.walkedBy name (h.walks other)
  | ask request =>
    obtain ⟨moved, answered, hmoved⟩ := (Walk.queues _).answer (h.walks name) request
    refine .of_ok (by rw [Workspace.walking, answered]; rfl) ⟨?_, h.keepWalk name hmoved⟩
    exact Response.holds_of_no_sequences rfl

variable [Arithmetic] [Arithmetic.Exact]

omit [Element α] in
theorem draining (h : w.Holds c) (bound : ∀ source, (c.sequences source).length < UInt64.size)
    (name : String) (step : Draining) :
    Refines Leaves (w.draining name step) (.ok (c.draining name step)) := by
  cases step with
  | start source =>
    have hd := (h.sequences source).drain (bound source)
    refine .of_ok rfl ⟨?_, h.keepDrain name hd⟩
    change Response.Holds (.size (Cursor.remaining (w.sequence source).drain)) _
    rw [Drain.queues.remaining_eq hd]
    exact Response.holds_of_no_sequences rfl
  | ask request =>
    obtain ⟨moved, answered, hmoved⟩ := Drain.queues.answer (h.drains name) request
    refine .of_ok (by rw [Workspace.draining, answered]; rfl) ⟨?_, h.keepDrain name hmoved⟩
    exact Response.holds_of_no_sequences rfl

variable [Json.Spelling]

theorem queried (h : w.Holds c) (bound : ∀ source, (c.sequences source).length < UInt64.size)
    (source : String) (question : Query) (plain : ∀ layout, question ≠ .inspectTree layout) :
    Refines Response.Holds (w.queried (w.sequence source) question)
      (c.queried (c.sequences source) question) := by
  have hs := h.sequences source
  have small := bound source
  cases question with
  | whole => exact Response.holds_sequence hs
  | size =>
    rw [Workspace.queried, hs.size_eq]
    exact Response.holds_of_no_sequences rfl
  | isEmpty =>
    rw [Workspace.queried, hs.isEmpty_eq]
    exact Response.holds_of_no_sequences rfl
  | front =>
    rw [Workspace.queried, hs.front? small]
    exact Response.holds_of_no_sequences rfl
  | back =>
    rw [Workspace.queried, hs.back? small]
    exact Response.holds_of_no_sequences rfl
  | get index =>
    rw [Workspace.queried, hs.get? small]
    exact Response.holds_of_no_sequences rfl
  | elementAt index =>
    rw [Workspace.queried, hs.elementAt_eq small, Contents.queried]
    cases Listed.elementAt (c.sequences source) index with
    | error refused => rfl
    | ok element => exact Response.holds_of_no_sequences rfl
  | demand index =>
    rw [Workspace.queried, hs.elementAt_eq small, Contents.queried]
    cases Listed.elementAt (c.sequences source) index with
    | error refused => rfl
    | ok element => exact Response.holds_of_no_sequences rfl
  | walk near requests =>
    rw [Workspace.queried, (Walk.queues near).answerAll (hs.walk small near)]
    exact Response.holds_of_no_sequences rfl
  | drain requests =>
    rw [Workspace.queried, Drain.queues.answerAll (hs.drain small)]
    exact Response.holds_of_no_sequences rfl
  | compare other =>
    rw [Workspace.queried, hs.compareSequences_eq (h.sequences other) small (bound other)]
    exact Response.holds_of_no_sequences rfl
  | trace =>
    rw [Workspace.queried, hs.traceSequence_eq small]
    exact Response.holds_of_no_sequences rfl
  | inspect layout =>
    rw [Workspace.queried, hs.rendering_eq small]
    exact Response.holds_of_no_sequences rfl
  | inspectTree layout => exact absurd rfl (plain layout)
  | serialize =>
    rw [Workspace.queried, hs.toJson_eq small]
    exact Response.holds_of_no_sequences rfl
  | audit =>
    rw [Workspace.queried, hs.audit small]
    exact Response.holds_of_no_sequences rfl

theorem step_plain (h : w.Holds c) (bound : ∀ source, (c.sequences source).length < UInt64.size)
    {command : Command α} (plain : command.showsTree = false) :
    Refines Leaves (w.step command) (c.step command) := by
  cases command with
  | empty target => exact h.answering target Sequence.holds_empty
  | singleton element target => exact h.answering target (Sequence.holds_singleton element)
  | ofList elements target => exact h.answering target (Sequence.holds_ofList elements)
  | decode document target => exact h.decoded document target
  | read text target => exact h.read text target
  | transform source change target =>
    exact (h.transformed (h.sequences source) (bound source) change).bind fun s xs hs =>
      h.answering target hs
  | popFront source target =>
    obtain ⟨popped, made, hp⟩ := ((h.sequences source).popFront (bound source)).exists_of_ok
    exact .of_ok (by rw [Workspace.step, made]; rfl) (h.answeringPop target hp)
  | popBack source target =>
    obtain ⟨popped, made, hp⟩ := ((h.sequences source).popBack (bound source)).exists_of_ok
    exact .of_ok (by rw [Workspace.step, made]; rfl) (h.answeringPop target hp)
  | split source index targets =>
    refine ((h.sequences source).split (bound source) index).lift_failure.bind ?_
    rintro ⟨before, element, after⟩ ⟨xs, x, ys⟩ ⟨hb, same, ha⟩
    obtain rfl : element = x := same
    exact ⟨Response.holds_split element hb ha, h.keepHalves targets hb ha⟩
  | splitAt source index targets =>
    refine ((h.sequences source).splitAt (bound source) index).lift_failure.bind ?_
    rintro ⟨before, after⟩ ⟨xs, ys⟩ ⟨hb, ha⟩
    exact ⟨Response.holds_halves hb ha, h.keepHalves targets hb ha⟩
  | query source question =>
    refine (h.queried bound source question ?_).bind fun answer response ha => ⟨ha, h⟩
    rintro layout rfl
    cases plain
  | gather builder step => exact h.gathering builder step
  | walk walk step => exact h.walking bound walk step
  | drain drain step => exact h.draining bound drain step

/-- The step lemma: every command has the outcome it has on the lists, but for the shape that it may show. -/
theorem step (h : w.Holds c) (bound : ∀ source, (c.sequences source).length < UInt64.size)
    (command : Command α) : Refines command.Leaves (w.step command) (c.step command) := by
  cases shows : command.showsTree with
  | false =>
    refine (h.step_plain bound shows).mono fun answered listed ⟨ha, hw⟩ => ⟨ha.consistent, ?_, hw⟩
    rw [Command.seen, shows]
    exact ha.map_eq
  | true =>
    cases command with
    | query source question =>
      cases question with
      | inspectTree layout =>
        exact ⟨fun s mem => absurd mem List.not_mem_nil, by rw [Command.seen, shows]; rfl, h⟩
      | _ => cases shows
    | _ => cases shows

end Workspace.Holds

end IndexedSequence
