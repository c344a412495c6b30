import IndexedSequence.Proofs.Forms
import IndexedSequence.Proofs.Gathering
import IndexedSequence.Proofs.Positions
import IndexedSequence.Workspace.Run

/-!
Commands as they act on plain lists. Nothing here knows of trees: a name stands for a list, a walk for what
it has still to give in its direction, and every command has its answer from the lists alone. What shows the
shape of a tree has no answer here and is left blank.
-/

set_option autoImplicit false

namespace IndexedSequence

variable {σ τ α : Type}

namespace Response

def map (f : σ → τ) : Response σ α → Response τ α
  | sequence s => sequence (f s)
  | popped result => popped (result.map fun (x, rest) => (x, f rest))
  | split before x after => split (f before) x (f after)
  | halves before after => halves (f before) (f after)
  | built s n isEmpty => built (f s) n isEmpty
  | size n => size n
  | truth value => truth value
  | element found => element found
  | replies given => replies given
  | comparison compared => comparison compared
  | trace tokens => trace tokens
  | text shown => text shown
  | sound => sound
  | flawed flaw => flawed flaw
  | gathered n isEmpty => gathered n isEmpty

def sequences : Response σ α → List σ
  | sequence s => [s]
  | popped result => (result.map Prod.snd).toList
  | split before _ after => [before, after]
  | halves before after => [before, after]
  | built s _ _ => [s]
  | _ => []

end Response

def Command.showsTree : Command α → Bool
  | .query _ (.inspectTree _) => true
  | _ => false

/-- What an answer says of elements: its sequences as lists, and nothing of the shape of trees. -/
def Command.seen (command : Command α) (answer : Answer α) : Response (List α) α :=
  if command.showsTree then .text "" else answer.map Sequence.toList

/-- What is kept under every name. A walk is kept with the end it starts from. -/
@[ext]
structure Contents (α : Type) where
  sequences : String → List α
  builders : String → List α
  walks : String → End × List α
  drains : String → List α

namespace Contents

def empty : Contents α := ⟨fun _ => [], fun _ => [], fun _ => (.front, []), fun _ => []⟩

def write (values : String → σ) (name : String) (value : σ) : String → σ :=
  fun known => if known = name then value else values known

def keep (c : Contents α) (target : Option String) (xs : List α) : Contents α :=
  match target with
  | none => c
  | some name => { c with sequences := write c.sequences name xs }

def keepHalves (c : Contents α) (targets : Halves) (before after : List α) : Contents α :=
  (c.keep targets.before before).keep targets.after after

def keepBuilder (c : Contents α) (name : String) (xs : List α) : Contents α :=
  { c with builders := write c.builders name xs }

def keepWalk (c : Contents α) (name : String) (near : End) (xs : List α) : Contents α :=
  { c with walks := write c.walks name (near, xs) }

def keepDrain (c : Contents α) (name : String) (xs : List α) : Contents α :=
  { c with drains := write c.drains name xs }

def transformed (c : Contents α) (xs : List α) : Transform α → Except OutOfRange (List α)
  | .copy => return xs
  | .pushFront element => return element :: xs
  | .pushBack element => return xs ++ [element]
  | .pushAllFront elements => return elements.reverse ++ xs
  | .pushAllBack elements => return xs ++ elements
  | .extend elements => return xs ++ elements
  | .doubled times => return Sequence.doubledList xs times.toNat
  | .concat other => return xs ++ c.sequences other
  | .reversed => return xs.reverse
  | .insertAt index element => Listed.insertAt xs index element
  | .removeAt index => Listed.removeAt xs index
  | .update index element => Listed.update xs index element
  | .slice start stop => Listed.slice xs start stop

variable [Element α]

def queried [Json.Spelling] (c : Contents α) (xs : List α) : Query → Except Problem (Response (List α) α)
  | .whole => return .sequence xs
  | .size => return .size (.ofNat xs.length)
  | .isEmpty => return .truth xs.isEmpty
  | .front => return .element xs.head?
  | .back => return .element xs.getLast?
  | .get index => return .element xs[index.toNat]?
  | .elementAt index =>
    ((fun element => .element (some element)) <$> Listed.elementAt xs index).mapError .outOfRange
  | .demand index =>
    ((fun element => .element (some element)) <$> Listed.elementAt xs index).mapError .absent
  | .walk near requests => return .replies (CursorRequest.queuedAll (near.arrange xs) requests).1
  | .drain requests => return .replies (CursorRequest.queuedAll xs requests).1
  | .compare other => return .comparison (Listed.compared xs (c.sequences other))
  | .trace => return .trace (Listed.traced xs)
  | .inspect layout => return .text (layout.text (.list (xs.map rendering)))
  | .inspectTree _ => return .text ""
  | .serialize => return .text (Json.Spelling.print (.array (xs.map JsonCodec.toJson)))
  | .audit => return .sound

def gatheredBy (c : Contents α) (name : String) (xs : List α) : Response (List α) α × Contents α :=
  (.gathered (.ofNat xs.length) (UInt64.ofNat xs.length == 0), c.keepBuilder name xs)

def gathering (c : Contents α) (name : String) : Gathering α → Response (List α) α × Contents α
  | .restart => c.gatheredBy name []
  | .pushFront element => c.gatheredBy name (element :: c.builders name)
  | .pushBack element => c.gatheredBy name (c.builders name ++ [element])
  | .append source => c.gatheredBy name (c.builders name ++ c.sequences source)
  | .prepend source => c.gatheredBy name (c.sequences source ++ c.builders name)
  | .extend elements => c.gatheredBy name (c.builders name ++ elements)
  | .measure => c.gatheredBy name (c.builders name)
  | .inspect layout =>
    (.text (layout.text (.record "SequenceBuilder"
      [("len", rendering (UInt64.ofNat (c.builders name).length))] true)), c)
  | .build target =>
    (.built (c.builders name) 0 true, (c.keepBuilder name []).keep target (c.builders name))

def walkedBy (c : Contents α) (name : String) (near : End) (xs : List α) :
    Response (List α) α × Contents α :=
  (.size (.ofNat xs.length), c.keepWalk name near xs)

def walking (c : Contents α) (name : String) : Walking → Response (List α) α × Contents α
  | .start source near => c.walkedBy name near (near.arrange (c.sequences source))
  | .copy other => c.walkedBy name (c.walks other).1 (c.walks other).2
  | .ask request =>
    (.replies [(request.queued (c.walks name).2).1],
      c.keepWalk name (c.walks name).1 (request.queued (c.walks name).2).2)

def draining (c : Contents α) (name : String) : Draining → Response (List α) α × Contents α
  | .start source => (.size (.ofNat (c.sequences source).length), c.keepDrain name (c.sequences source))
  | .ask request =>
    (.replies [(request.queued (c.drains name)).1], c.keepDrain name (request.queued (c.drains name)).2)

def answering (c : Contents α) (target : Option String) (xs : List α) :
    Response (List α) α × Contents α :=
  (.sequence xs, c.keep target xs)

def answeringPop (c : Contents α) (target : Option String) (popped : Option (α × List α)) :
    Response (List α) α × Contents α :=
  match popped with
  | none => (.popped none, c)
  | some (element, rest) => (.popped (some (element, rest)), c.keep target rest)

def decoded (c : Contents α) (document : Json) (target : Option String) :
    Except Problem (Response (List α) α × Contents α) :=
  match Listed.ofJson document with
  | .ok xs => return c.answering target xs
  | .error mismatch => throw (.mismatch mismatch)

def step [Json.Spelling] (c : Contents α) : Command α → Except Problem (Response (List α) α × Contents α)
  | .empty target => return c.answering target []
  | .singleton element target => return c.answering target [element]
  | .ofList elements target => return c.answering target elements
  | .decode document target => c.decoded document target
  | .read text target =>
    match Json.Spelling.parse? text with
    | none => throw .unreadable
    | some document =>
      match c.decoded document target with
      | .ok answered => return answered
      | .error _ => throw .unreadable
  | .transform source change target => do
    return c.answering target (← (c.transformed (c.sequences source) change).mapError .outOfRange)
  | .popFront source target => return c.answeringPop target (Listed.popFront (c.sequences source))
  | .popBack source target => return c.answeringPop target (Listed.popBack (c.sequences source))
  | .split source index targets => do
    let (before, element, after) ← (Listed.split (c.sequences source) index).mapError .outOfRange
    return (.split before element after, c.keepHalves targets before after)
  | .splitAt source index targets => do
    let (before, after) ← (Listed.splitAt (c.sequences source) index).mapError .outOfRange
    return (.halves before after, c.keepHalves targets before after)
  | .query source question => do return (← c.queried (c.sequences source) question, c)
  | .gather builder step => return c.gathering builder step
  | .walk walk step => return c.walking walk step
  | .drain drain step => return c.draining drain step

omit [Element α] in
theorem outOfRange_of_error {β γ : Type} {spec : Except OutOfRange β} {next : β → γ} {problem : Problem}
    (failed : spec.mapError .outOfRange >>= (fun b => pure (next b)) = .error problem) :
    ∃ refused, problem = .outOfRange refused := by
  cases spec with
  | error refused => exact ⟨refused, (Except.error.inj failed).symm⟩
  | ok b => cases failed

variable [Json.Spelling]

theorem step_error {c : Contents α} {command : Command α} {problem : Problem}
    (failed : c.step command = .error problem) :
    (∃ refused, problem = .outOfRange refused) ∨ (∃ mismatch, problem = .mismatch mismatch) ∨
      problem = .unreadable ∨
      ∃ source index, command = .query source (.demand index) ∧
        problem = .absent ⟨index, .ofNat (c.sequences source).length⟩ ∧
        (c.sequences source).length ≤ index.toNat := by
  cases command with
  | empty target | singleton element target | ofList elements target => cases failed
  | popFront source target | popBack source target => cases failed
  | gather builder step | walk walk step | drain drain step => cases failed
  | decode document target =>
    rw [step, decoded] at failed
    cases spec : (Listed.ofJson document : Except Json.Mismatch (List α)) with
    | error mismatch =>
      rw [spec] at failed
      exact .inr (.inl ⟨mismatch, (Except.error.inj failed).symm⟩)
    | ok xs =>
      rw [spec] at failed
      cases failed
  | read text target =>
    rw [step] at failed
    refine .inr (.inr (.inl ?_))
    split at failed
    · exact (Except.error.inj failed).symm
    · split at failed
      · cases failed
      · exact (Except.error.inj failed).symm
  | transform source change target => exact .inl (outOfRange_of_error failed)
  | split source index targets => exact .inl (outOfRange_of_error failed)
  | splitAt source index targets => exact .inl (outOfRange_of_error failed)
  | query source question =>
    cases question with
    | elementAt index =>
      rw [step, queried] at failed
      cases spec : Listed.elementAt (c.sequences source) index with
      | error refused =>
        rw [spec] at failed
        exact .inl ⟨refused, (Except.error.inj failed).symm⟩
      | ok element =>
        rw [spec] at failed
        cases failed
    | demand index =>
      rw [step, queried, Listed.elementAt] at failed
      cases found : (c.sequences source)[index.toNat]? with
      | none =>
        rw [found] at failed
        exact .inr (.inr (.inr ⟨source, index, rfl, (Except.error.inj failed).symm,
          List.getElem?_eq_none_iff.mp found⟩))
      | some element =>
        rw [found] at failed
        cases failed
    | _ => cases failed

def run (c : Contents α) : List (Command α) → List (Except Problem (Response (List α) α)) × Contents α
  | [] => ([], c)
  | command :: later =>
    match c.step command with
    | .ok (response, moved) => ((.ok response :: (moved.run later).1), (moved.run later).2)
    | .error problem => ((.error problem :: (c.run later).1), (c.run later).2)

theorem run_ok {c : Contents α} {command : Command α} {answered : Response (List α) α × Contents α}
    (made : c.step command = .ok answered) (later : List (Command α)) :
    c.run (command :: later) = (.ok answered.1 :: (answered.2.run later).1, (answered.2.run later).2) := by
  rw [run, made]

theorem run_error {c : Contents α} {command : Command α} {problem : Problem}
    (made : c.step command = .error problem) (later : List (Command α)) :
    c.run (command :: later) = (.error problem :: (c.run later).1, (c.run later).2) := by
  rw [run, made]

end Contents

end IndexedSequence
