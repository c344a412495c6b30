import IndexedSequence.Traversal.Drain
import IndexedSequence.Traversal.Walk

set_option autoImplicit false

namespace IndexedSequence

inductive Side where
  | near
  | far
  deriving DecidableEq

class Cursor (σ : Type) (α : outParam Type) where
  take : Side → σ → Except Fault (Option (α × σ))
  remaining : σ → UInt64

variable {α : Type}

instance : Cursor (Walk α) α where
  take
    | .near, walk => .ok (walk.takeFrom walk.near)
    | .far, walk => .ok (walk.takeFrom walk.near.opposite)
  remaining walk := walk.remaining

instance [Arithmetic] : Cursor (Drain α) α where
  take
    | .near, drain => drain.takeFront
    | .far, drain => drain.takeBack
  remaining drain := drain.remaining

namespace Cursor

variable {σ : Type} [Cursor σ α]

/-- Drops `count` elements and gives the one after them. Running out on the way gives none. -/
def nth (side : Side) : Nat → σ → Except Fault (Option α × σ)
  | 0, cursor => do
    match ← take side cursor with
    | none => return (none, cursor)
    | some (element, rest) => return (some element, rest)
  | count + 1, cursor => do
    match ← take side cursor with
    | none => return (none, cursor)
    | some (_, rest) => nth side count rest

/-- Collects at most `count` elements; `read` holds those already taken, the latest first. -/
def collectOnto (side : Side) (read : List α) : Nat → σ → Except Fault (List α × σ)
  | 0, cursor => .ok (read.reverse, cursor)
  | count + 1, cursor => do
    match ← take side cursor with
    | none => return (read.reverse, cursor)
    | some (element, rest) => collectOnto side (element :: read) count rest

def collect (side : Side) (count : Nat) (cursor : σ) : Except Fault (List α × σ) :=
  collectOnto side [] count cursor

def rest (side : Side) (cursor : σ) : Except Fault (List α × σ) :=
  collect side (remaining cursor).toNat cursor

end Cursor

inductive CursorRequest where
  | nth (side : Side) (count : UInt64)
  | collect (side : Side) (count : UInt64)
  | rest (side : Side)
  /-- What `rest` would give, the cursor staying where it is. -/
  | fork (side : Side)
  | remaining
  /-- The bounds on what is left, which coincide. -/
  | bounds

inductive CursorReply (α : Type) where
  | element (element : Option α)
  | elements (elements : List α)
  | remaining (count : UInt64)
  | bounds (lower upper : UInt64)

namespace CursorRequest

variable {σ : Type} [Cursor σ α]

def answer (cursor : σ) : CursorRequest → Except Fault (CursorReply α × σ)
  | nth side count => do
    let (element, moved) ← Cursor.nth side count.toNat cursor
    return (.element element, moved)
  | collect side count => do
    let (elements, moved) ← Cursor.collect side count.toNat cursor
    return (.elements elements, moved)
  | rest side => do
    let (elements, moved) ← Cursor.rest side cursor
    return (.elements elements, moved)
  | fork side => do
    let (elements, _) ← Cursor.rest side cursor
    return (.elements elements, cursor)
  | remaining => .ok (.remaining (Cursor.remaining cursor), cursor)
  | bounds => .ok (.bounds (Cursor.remaining cursor) (Cursor.remaining cursor), cursor)

/-- The replies to requests in turn, each with the cursor as it is left. -/
def course (cursor : σ) : List CursorRequest → Except Fault (List (CursorReply α × σ))
  | [] => .ok []
  | request :: later => do
    let answered ← request.answer cursor
    return answered :: (← course answered.2 later)

def answerAll (cursor : σ) (requests : List CursorRequest) : Except Fault (List (CursorReply α)) :=
  List.map Prod.fst <$> course cursor requests

end CursorRequest

end IndexedSequence
