import IndexedSequence.Checked.Sequence
import IndexedSequence.Workspace.Run

set_option autoImplicit false

namespace IndexedSequence.Workspace

variable {α : Type}

def transformedChecked (w : Workspace α) (s : Sequence α) :
    Transform α → Except Problem (Sequence α)
  | .copy => return s
  | .pushFront element => s.pushFrontChecked element
  | .pushBack element => s.pushBackChecked element
  | .pushAllFront elements => s.pushAllFrontChecked elements
  | .pushAllBack elements => s.pushAllBackChecked elements
  | .extend elements => s.extendChecked elements
  | .doubled times => s.doubledChecked times.toNat
  | .concat other => s.concatChecked (w.sequence other)
  | .reversed => s.reversedChecked
  | .insertAt index element => s.insertAtChecked index element
  | .removeAt index => s.removeAtChecked index
  | .update index element => s.updateChecked index element
  | .slice start stop => s.sliceChecked start stop

variable [Element α]

/-- What only walks a sequence is asked as it stands, for a walk never counts below zero. -/
def queriedChecked [Json.Spelling] (w : Workspace α) (s : Sequence α) : Query → Except Problem (Answer α)
  | .whole => return .sequence s
  | .size => return .size s.size
  | .isEmpty => return .truth s.isEmpty
  | .front => return .element (← s.tree.frontChecked?)
  | .back => return .element (← s.tree.backChecked?)
  | .get index => return .element (← s.tree.getChecked? index)
  | .elementAt index => return .element (some (← s.elementAtChecked index))
  | .demand index =>
    match s.elementAtChecked index with
    | .ok element => return .element (some element)
    | .error (.outOfRange error) => throw (.absent error)
    | .error (.fault fault) => throw (.fault fault)
  | .walk near requests =>
    return .replies (← @CursorRequest.answerAll _ _ Walk.checkedCursor (s.walk near) requests)
  | .drain requests =>
    return .replies (← @CursorRequest.answerAll _ _ Drain.checkedCursor s.drain requests)
  | .compare other => return .comparison (Element.compareSequences s (w.sequence other))
  | .trace => return .trace (Element.traceSequence s)
  | .inspect layout => return .text (layout.text (rendering s))
  | .inspectTree layout => return .text (layout.text (rendering s.tree))
  | .serialize => return .text (Json.Spelling.print (JsonCodec.toJson s))
  | .audit =>
    match s.auditChecked with
    | .ok () => return .sound
    | .error (.inr flaw) => return .flawed flaw
    | .error (.inl fault) => throw (.fault fault)

def gatheredByChecked (w : Workspace α) (name : String) (b : Builder α) :
    Except Problem (Answer α × Workspace α) := do
  return (.gathered (← b.sizeChecked) (← b.isEmptyChecked), w.keepBuilder name b)

def gatheringChecked (w : Workspace α) (name : String) :
    Gathering α → Except Problem (Answer α × Workspace α)
  | .restart => w.gatheredByChecked name .empty
  | .pushFront element => w.gatheredByChecked name ((w.builder name).pushFront element)
  | .pushBack element => w.gatheredByChecked name ((w.builder name).pushBack element)
  | .append source => do
    w.gatheredByChecked name (← (w.builder name).appendChecked (w.sequence source))
  | .prepend source => do
    w.gatheredByChecked name (← (w.builder name).prependChecked (w.sequence source))
  | .extend elements => w.gatheredByChecked name ((w.builder name).extend elements)
  | .measure => w.gatheredByChecked name (w.builder name)
  | .inspect layout => do
    let size ← (w.builder name).sizeChecked
    return (.text (layout.text (.record "SequenceBuilder" [("len", rendering size)] true)), w)
  | .build target => do
    let (s, rest) ← (w.builder name).buildChecked
    return (.built s (← rest.sizeChecked) (← rest.isEmptyChecked),
      (w.keepBuilder name rest).keep target s)

def walkingChecked (w : Workspace α) (name : String) :
    Walking → Except Problem (Answer α × Workspace α)
  | .start source near => return w.walkedBy name ((w.sequence source).walk near)
  | .copy other => return w.walkedBy name (w.walk other)
  | .ask request => do
    let (reply, moved) ← @CursorRequest.answer _ _ Walk.checkedCursor (w.walk name) request
    return (.replies [reply], w.keepWalk name moved)

def drainingChecked (w : Workspace α) (name : String) :
    Draining → Except Problem (Answer α × Workspace α)
  | .start source =>
    let drain := (w.sequence source).drain
    return (.size drain.remaining, w.keepDrain name drain)
  | .ask request => do
    let (reply, moved) ← @CursorRequest.answer _ _ Drain.checkedCursor (w.drain name) request
    return (.replies [reply], w.keepDrain name moved)

def decodedChecked (w : Workspace α) (document : Json) (target : Option String) :
    Except Problem (Answer α × Workspace α) :=
  match document with
  | .array items =>
    match JsonCodec.ofItems items with
    | .ok elements => do return w.answering target (← Sequence.ofListChecked elements)
    | .error mismatch => throw (.mismatch mismatch)
  | other => throw (.mismatch (.wrongType other .sequence))

def stepChecked [Json.Spelling] (w : Workspace α) : Command α → Except Problem (Answer α × Workspace α)
  | .empty target => return w.answering target .empty
  | .singleton element target => return w.answering target (.singleton element)
  | .ofList elements target => do
    return w.answering target (← Sequence.ofListChecked elements)
  | .decode document target => w.decodedChecked document target
  | .read text target =>
    match Json.Spelling.parse? text with
    | none => throw .unreadable
    | some document =>
      match w.decodedChecked document target with
      | .ok answered => return answered
      | .error (.fault fault) => throw (.fault fault)
      | .error _ => throw .unreadable
  | .transform source change target => do
    return w.answering target (← w.transformedChecked (w.sequence source) change)
  | .popFront source target => do
    return w.answeringPop target (← (w.sequence source).popFrontChecked)
  | .popBack source target => do
    return w.answeringPop target (← (w.sequence source).popBackChecked)
  | .split source index targets => do
    let (before, element, after) ← (w.sequence source).splitChecked index
    return (.split before element after, w.keepHalves targets before after)
  | .splitAt source index targets => do
    let (before, after) ← (w.sequence source).splitAtChecked index
    return (.halves before after, w.keepHalves targets before after)
  | .query source question => do return (← w.queriedChecked (w.sequence source) question, w)
  | .gather builder step => w.gatheringChecked builder step
  | .walk walk step => w.walkingChecked walk step
  | .drain drain step => w.drainingChecked drain step

def runChecked [Json.Spelling] (w : Workspace α) :
    List (Command α) → List (Except Problem (Answer α)) × Workspace α
  | [] => ([], w)
  | command :: later =>
    match w.stepChecked command with
    | .ok (answer, moved) =>
      let (answers, final) := moved.runChecked later
      (.ok answer :: answers, final)
    | .error problem =>
      let (answers, final) := w.runChecked later
      (.error problem :: answers, final)

end IndexedSequence.Workspace
