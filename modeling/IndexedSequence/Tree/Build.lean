import IndexedSequence.Grouping
import IndexedSequence.Tree.Basic

set_option autoImplicit false

namespace IndexedSequence.Tree

variable {α : Type}

/-- The first three nodes make the left digit. Of the others, those that stay pending make the right one, and the
branches given out the middle. -/
def build : List (Node α) → Tree α
  | [] => empty
  | [a] => ofDigit (.one a)
  | [a, b] => ofDigit (.two a b)
  | a :: b :: c :: rest =>
    let folded := Buffer.empty.fold rest
    match folded.1.pending with
    | none => ofDigit (.three a b c)
    | some right => level (.three a b c) (build folded.2) right
termination_by nodes => nodes.length
decreasing_by
  have := Buffer.empty.length_fold_le rest
  simp only [List.length_cons]
  omega

end IndexedSequence.Tree
