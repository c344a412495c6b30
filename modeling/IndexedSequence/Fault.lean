/-!
What can go wrong. A `Fault` is a broken assumption inside the tree: a caller that keeps sizes exact and
levels apart never meets one. `OutOfRange` is the answer to a position that a sequence does not have.
-/

set_option autoImplicit false

namespace IndexedSequence

inductive Fault where
  | beyondNodes (index : UInt64)
  | beyondDigit (index : UInt64)
  | leafUnpacked
  | loneNode
  | negativeDifference
  | overflowingSum
  deriving DecidableEq

def Fault.message : Fault → String
  | .beyondNodes index => s!"index {index} lies beyond the nodes it was located in"
  | .beyondDigit index => s!"index {index} lies beyond the digit"
  | .leafUnpacked => "only branch nodes are unpacked into digits"
  | .loneNode => "a lone node cannot be grouped into a branch"
  | .negativeDifference => "attempt to subtract with overflow"
  | .overflowingSum => "attempt to add with overflow"

def Fault.report : Fault → String
  | .negativeDifference => Fault.negativeDifference.message
  | .overflowingSum => Fault.overflowingSum.message
  | broken => "internal error: entered unreachable code: " ++ broken.message

structure OutOfRange where
  index : UInt64
  size : UInt64
  deriving DecidableEq

def OutOfRange.message (error : OutOfRange) : String :=
  s!"index {error.index} is out of range for a sequence of size {error.size}"

inductive Failure where
  | outOfRange (error : OutOfRange)
  | fault (fault : Fault)
  deriving DecidableEq

instance : MonadLift (Except Fault) (Except Failure) where
  monadLift result := result.mapError .fault

end IndexedSequence
