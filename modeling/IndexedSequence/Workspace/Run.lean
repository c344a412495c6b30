import IndexedSequence.Element
import IndexedSequence.Tree.Inspection
import IndexedSequence.Workspace.Command
import IndexedSequence.Workspace.Registers

set_option autoImplicit false

namespace IndexedSequence

structure Workspace (α : Type) where
  sequences : Registers (Sequence α)
  builders : Registers (Builder α)
  walks : Registers (Walk α)
  drains : Registers (Drain α)

namespace Workspace

variable {α : Type}

def empty : Workspace α := ⟨.empty, .empty, .empty, .empty⟩

def sequence (w : Workspace α) (name : String) : Sequence α := w.sequences.get .empty name

def builder (w : Workspace α) (name : String) : Builder α := w.builders.get .empty name

def walk (w : Workspace α) (name : String) : Walk α := w.walks.get (.ofTree .empty .front) name

def drain (w : Workspace α) (name : String) : Drain α := w.drains.get ⟨.empty⟩ name

def keep (w : Workspace α) (target : Option String) (s : Sequence α) : Workspace α :=
  { w with sequences := w.sequences.keep target s }

def keepBuilder (w : Workspace α) (name : String) (b : Builder α) : Workspace α :=
  { w with builders := w.builders.set name b }

def keepWalk (w : Workspace α) (name : String) (walk : Walk α) : Workspace α :=
  { w with walks := w.walks.set name walk }

def keepDrain (w : Workspace α) (name : String) (drain : Drain α) : Workspace α :=
  { w with drains := w.drains.set name drain }

def keepHalves (w : Workspace α) (targets : Halves) (before after : Sequence α) : Workspace α :=
  (w.keep targets.before before).keep targets.after after

def transformed [Arithmetic] (w : Workspace α) (s : Sequence α) : Transform α → Except Problem (Sequence α)
  | .copy => return s
  | .pushFront element => return s.pushFront element
  | .pushBack element => return s.pushBack element
  | .pushAllFront elements => return s.pushAllFront elements
  | .pushAllBack elements => return s.pushAllBack elements
  | .extend elements => s.extend elements
  | .doubled times => s.doubled times.toNat
  | .concat other => s.concat (w.sequence other)
  | .reversed => return s.reversed
  | .insertAt index element => s.insertAt index element
  | .removeAt index => s.removeAt index
  | .update index element => s.update index element
  | .slice start stop => s.slice start stop

variable [Element α]

def queried [Arithmetic] [Json.Spelling] (w : Workspace α) (s : Sequence α) : Query → Except Problem (Answer α)
  | .whole => return .sequence s
  | .size => return .size s.size
  | .isEmpty => return .truth s.isEmpty
  | .front => return .element (← s.front?)
  | .back => return .element (← s.back?)
  | .get index => return .element (← s.get? index)
  | .elementAt index => return .element (some (← s.elementAt index))
  | .demand index =>
    match s.elementAt index with
    | .ok element => return .element (some element)
    | .error (.outOfRange error) => throw (.absent error)
    | .error (.fault fault) => throw (.fault fault)
  | .walk near requests => return .replies (← CursorRequest.answerAll (s.walk near) requests)
  | .drain requests => return .replies (← CursorRequest.answerAll s.drain requests)
  | .compare other => return .comparison (Element.compareSequences s (w.sequence other))
  | .trace => return .trace (Element.traceSequence s)
  | .inspect layout => return .text (layout.text (rendering s))
  | .inspectTree layout => return .text (layout.text (rendering s.tree))
  | .serialize => return .text (Json.Spelling.print (JsonCodec.toJson s))
  | .audit =>
    match s.audit with
    | .ok () => return .sound
    | .error flaw => return .flawed flaw

def gatheredBy (w : Workspace α) (name : String) (b : Builder α) : Answer α × Workspace α :=
  (.gathered b.size b.isEmpty, w.keepBuilder name b)

def gathering (w : Workspace α) (name : String) : Gathering α → Except Problem (Answer α × Workspace α)
  | .restart => return w.gatheredBy name .empty
  | .pushFront element => return w.gatheredBy name ((w.builder name).pushFront element)
  | .pushBack element => return w.gatheredBy name ((w.builder name).pushBack element)
  | .append source => return w.gatheredBy name (← (w.builder name).append (w.sequence source))
  | .prepend source => return w.gatheredBy name (← (w.builder name).prepend (w.sequence source))
  | .extend elements => return w.gatheredBy name ((w.builder name).extend elements)
  | .measure => return w.gatheredBy name (w.builder name)
  | .inspect layout => return (.text (layout.text (rendering (w.builder name))), w)
  | .build target => do
    let (s, rest) ← (w.builder name).build
    return (.built s rest.size rest.isEmpty, (w.keepBuilder name rest).keep target s)

def walkedBy (w : Workspace α) (name : String) (walk : Walk α) : Answer α × Workspace α :=
  (.size walk.remaining, w.keepWalk name walk)

def walking (w : Workspace α) (name : String) : Walking → Except Problem (Answer α × Workspace α)
  | .start source near => return w.walkedBy name ((w.sequence source).walk near)
  | .copy other => return w.walkedBy name (w.walk other)
  | .ask request => do
    let (reply, moved) ← request.answer (w.walk name)
    return (.replies [reply], w.keepWalk name moved)

def draining [Arithmetic] (w : Workspace α) (name : String) :
    Draining → Except Problem (Answer α × Workspace α)
  | .start source =>
    let drain := (w.sequence source).drain
    return (.size drain.remaining, w.keepDrain name drain)
  | .ask request => do
    let (reply, moved) ← request.answer (w.drain name)
    return (.replies [reply], w.keepDrain name moved)

def answering (w : Workspace α) (target : Option String) (s : Sequence α) : Answer α × Workspace α :=
  (.sequence s, w.keep target s)

def answeringPop (w : Workspace α) (target : Option String) (popped : Option (α × Sequence α)) :
    Answer α × Workspace α :=
  match popped with
  | none => (.popped none, w)
  | some (element, rest) => (.popped (some (element, rest)), w.keep target rest)

def decoded (w : Workspace α) (document : Json) (target : Option String) :
    Except Problem (Answer α × Workspace α) :=
  match JsonCodec.ofJson document with
  | .ok s => return w.answering target s
  | .error mismatch => throw (.mismatch mismatch)

variable [Arithmetic] [Json.Spelling]

def step (w : Workspace α) : Command α → Except Problem (Answer α × Workspace α)
  | .empty target => return w.answering target .empty
  | .singleton element target => return w.answering target (.singleton element)
  | .ofList elements target => return w.answering target (.ofList elements)
  | .decode document target => w.decoded document target
  | .read text target =>
    match Json.Spelling.parse? text with
    | none => throw .unreadable
    | some document =>
      match w.decoded document target with
      | .ok answered => return answered
      | .error _ => throw .unreadable
  | .transform source change target => do
    return w.answering target (← w.transformed (w.sequence source) change)
  | .popFront source target => do return w.answeringPop target (← (w.sequence source).popFront)
  | .popBack source target => do return w.answeringPop target (← (w.sequence source).popBack)
  | .split source index targets => do
    let (before, element, after) ← (w.sequence source).split index
    return (.split before element after, w.keepHalves targets before after)
  | .splitAt source index targets => do
    let (before, after) ← (w.sequence source).splitAt index
    return (.halves before after, w.keepHalves targets before after)
  | .query source question => do return (← w.queried (w.sequence source) question, w)
  | .gather builder step => w.gathering builder step
  | .walk walk step => w.walking walk step
  | .drain drain step => w.draining drain step

def run (w : Workspace α) : List (Command α) → List (Except Problem (Answer α)) × Workspace α
  | [] => ([], w)
  | command :: later =>
    match w.step command with
    | .ok (answer, moved) =>
      let (answers, final) := moved.run later
      (.ok answer :: answers, final)
    | .error problem =>
      let (answers, final) := w.run later
      (.error problem :: answers, final)

end Workspace

end IndexedSequence
