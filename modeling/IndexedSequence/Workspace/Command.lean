import IndexedSequence.Builder
import IndexedSequence.Json.Codec
import IndexedSequence.Sequence.Comparison
import IndexedSequence.Sequence.Positional
import IndexedSequence.Trace

/-!
What can be asked of a workspace, and what it answers. Sequences, builders, walks and drains are kept under
names; a command that gives a sequence may say where to keep it.
-/

set_option autoImplicit false

namespace IndexedSequence

inductive Transform (α : Type) where
  | copy
  | pushFront (element : α)
  | pushBack (element : α)
  | pushAllFront (elements : List α)
  | pushAllBack (elements : List α)
  | extend (elements : List α)
  | doubled (times : UInt64)
  | concat (other : String)
  | reversed
  | insertAt (index : UInt64) (element : α)
  | removeAt (index : UInt64)
  | update (index : UInt64) (element : α)
  | slice (start stop : Bound)

structure Halves where
  before : Option String
  after : Option String

inductive Query where
  | whole
  | size
  | isEmpty
  | front
  | back
  | get (index : UInt64)
  | elementAt (index : UInt64)
  /-- As `elementAt`, but with no way to go on without an element. -/
  | demand (index : UInt64)
  | walk (near : End) (requests : List CursorRequest)
  | drain (requests : List CursorRequest)
  | compare (other : String)
  | trace
  | inspect (layout : Layout)
  | inspectTree (layout : Layout)
  | serialize
  | audit

inductive Gathering (α : Type) where
  | restart
  | pushFront (element : α)
  | pushBack (element : α)
  | append (source : String)
  | prepend (source : String)
  | extend (elements : List α)
  | measure
  | inspect (layout : Layout)
  | build (target : Option String)

inductive Walking where
  | start (source : String) (near : End)
  /-- Goes on from where another walk has come to. -/
  | copy (other : String)
  | ask (request : CursorRequest)

inductive Draining where
  | start (source : String)
  | ask (request : CursorRequest)

inductive Command (α : Type) where
  | empty (target : Option String)
  | singleton (element : α) (target : Option String)
  | ofList (elements : List α) (target : Option String)
  | decode (document : Json) (target : Option String)
  /-- Reads the document from its text first. -/
  | read (text : String) (target : Option String)
  | transform (source : String) (change : Transform α) (target : Option String)
  | popFront (source : String) (target : Option String)
  | popBack (source : String) (target : Option String)
  | split (source : String) (index : UInt64) (targets : Halves)
  | splitAt (source : String) (index : UInt64) (targets : Halves)
  | query (source : String) (question : Query)
  | gather (builder : String) (step : Gathering α)
  | walk (walk : String) (step : Walking)
  | drain (drain : String) (step : Draining)

/-- What a command is answered, with sequences given as values of `σ`. -/
inductive Response (σ α : Type) where
  | sequence (s : σ)
  | popped (result : Option (α × σ))
  | split (before : σ) (element : α) (after : σ)
  | halves (before after : σ)
  | size (n : UInt64)
  | truth (value : Bool)
  | element (element : Option α)
  | replies (replies : List (CursorReply α))
  | comparison (comparison : Comparison)
  | trace (tokens : Option (List Token))
  | text (text : String)
  | sound
  | flawed (flaw : Flaw)
  | gathered (size : UInt64) (isEmpty : Bool)
  | built (s : σ) (size : UInt64) (isEmpty : Bool)

abbrev Answer (α : Type) := Response (Sequence α) α

inductive Problem where
  | outOfRange (error : OutOfRange)
  /-- An element was demanded where there is none. -/
  | absent (error : OutOfRange)
  | fault (fault : Fault)
  | mismatch (mismatch : Json.Mismatch)
  /-- The text is no document, or not one of a sequence. -/
  | unreadable

def Failure.problem : Failure → Problem
  | .outOfRange error => .outOfRange error
  | .fault broken => .fault broken

instance : MonadLift (Except Fault) (Except Problem) where
  monadLift result := result.mapError .fault

instance : MonadLift (Except Failure) (Except Problem) where
  monadLift result := result.mapError Failure.problem

end IndexedSequence
