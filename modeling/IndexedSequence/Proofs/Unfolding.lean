import IndexedSequence.Proofs.Walking

/-!
Unfolding any stack, whatever trees and nodes are on it and whatever they cache. It comes to an end, because what
is put back weighs less than what was taken off; it gives out the elements below the stack one by one, each once,
in the order in which they stand from its end; and it gives nothing only when there are none.
-/

set_option autoImplicit false

namespace IndexedSequence

variable {α : Type}

/-- The same as `advance` where no more frames than `turns` are unfolded on the way. -/
def advanceWithin (e : End) : Nat → List (Frame α) → Option (Option (α × List (Frame α)))
  | _, [] => some none
  | _, .node (.leaf element) :: rest => some (some (element, rest))
  | 0, _ :: _ => none
  | turns + 1, frame :: rest => advanceWithin e turns (e.arrange frame.parts ++ rest)

/-- There are never more to unfold than the stack weighs. -/
theorem advanceWithin_stackWeight (e : End) {stack : List (Frame α)} {turns : Nat}
    (enough : Frame.stackWeight stack ≤ turns) : advanceWithin e turns stack = some (advance e stack) := by
  fun_induction advance e stack generalizing turns with
  | case1 => cases turns <;> rfl
  | case2 element rest => cases turns <;> rfl
  | case3 frame rest unfolds ih =>
    have lighter := frame.stackWeight_parts_lt
    rw [Frame.stackWeight] at enough
    cases turns with
    | zero => omega
    | succ turns =>
      rw [advanceWithin]
      · apply ih
        calc
          Frame.stackWeight (e.arrange frame.parts ++ rest) =
              Frame.stackWeight frame.parts + Frame.stackWeight rest := by
            rw [Frame.stackWeight_append, Frame.stackWeight_arrange]
          _ ≤ turns := by omega
      · exact unfolds

theorem End.arrange_eq_nil_iff {e : End} {run : List α} : e.arrange run = [] ↔ run = [] := by
  rw [← List.length_eq_zero_iff, e.length_arrange, List.length_eq_zero_iff]

theorem Frame.given_eq_nil_iff {e : End} {stack : List (Frame α)} :
    given e stack = [] ↔ ∀ frame ∈ stack, frame.toList = [] := by
  rw [given, List.flatMap_eq_nil_iff]
  simp only [End.arrange_eq_nil_iff]

theorem advance_eq_none_iff {e : End} {stack : List (Frame α)} :
    advance e stack = none ↔ ∀ frame ∈ stack, frame.toList = [] := by
  rw [← Frame.given_eq_nil_iff (e := e)]
  obtain ⟨ended, nothing⟩ | ⟨element, rest, advanced, given⟩ := advance_cases e stack
  · exact iff_of_true ended nothing
  · rw [advanced, given]
    exact iff_of_false nofun nofun

theorem given_eq_cons_iff {e : End} {stack : List (Frame α)} {element : α} {later : List α} :
    Frame.given e stack = element :: later ↔
      ∃ rest, advance e stack = some (element, rest) ∧ Frame.given e rest = later := by
  obtain ⟨ended, nothing⟩ | ⟨first, rest, advanced, given⟩ := advance_cases e stack
  · rw [ended, nothing]
    exact iff_of_false nofun nofun
  · rw [advanced, given, List.cons.injEq]
    constructor
    · rintro ⟨rfl, rfl⟩
      exact ⟨rest, rfl, rfl⟩
    · rintro ⟨rest', same, rfl⟩
      cases same
      exact ⟨rfl, rfl⟩

/-- The answers to so many calls on a stack, one after the other. Once there is nothing, the stack is empty. -/
def Frame.answers (e : End) : Nat → List (Frame α) → List (Option α)
  | 0, _ => []
  | calls + 1, stack =>
    match advance e stack with
    | none => none :: answers e calls []
    | some (element, rest) => some element :: answers e calls rest

theorem Frame.answers_eq (e : End) (calls : Nat) (stack : List (Frame α)) :
    answers e calls stack = (List.range calls).map ((given e stack)[·]?) := by
  induction calls generalizing stack with
  | zero => rfl
  | succ calls ih =>
    rw [answers, List.range_succ_eq_map, List.map_cons, List.map_map]
    obtain ⟨ended, nothing⟩ | ⟨element, rest, advanced, given⟩ := advance_cases e stack
    · rw [ended, nothing]
      exact congrArg (none :: ·) (ih [])
    · rw [advanced, given]
      exact congrArg (some element :: ·) (ih rest)

/-- The same branches and leaves, with every cached size forgotten. -/
def Node.unsized : Node α → Node α
  | leaf element => leaf element
  | two _ first second => two 0 first.unsized second.unsized
  | three _ first second third => three 0 first.unsized second.unsized third.unsized

def Digit.unsized : Digit α → Digit α
  | one a => one a.unsized
  | two a b => two a.unsized b.unsized
  | three a b c => three a.unsized b.unsized c.unsized
  | four a b c d => four a.unsized b.unsized c.unsized d.unsized

def Tree.unsized : Tree α → Tree α
  | empty => empty
  | single node => single node.unsized
  | deep _ left middle right => deep 0 left.unsized middle.unsized right.unsized

theorem Node.toList_unsized (node : Node α) : node.unsized.toList = node.toList := by
  induction node with
  | leaf element => rfl
  | two size first second ihf ihs => rw [unsized, toList, toList, ihf, ihs]
  | three size first second third ihf ihs iht => rw [unsized, toList, toList, ihf, ihs, iht]

theorem Digit.toList_unsized (digit : Digit α) : digit.unsized.toList = digit.toList := by
  cases digit <;> simp [unsized, toList, nodes, Node.elements, Node.toList_unsized]

theorem Tree.toList_unsized (tree : Tree α) : tree.unsized.toList = tree.toList := by
  induction tree with
  | empty => rfl
  | single node => exact node.toList_unsized
  | deep size left middle right ih =>
    rw [unsized, toList, toList, left.toList_unsized, ih, right.toList_unsized]

/-- A stack of any frames is unfolded in finitely many turns to the first of the elements that it gives
from this end. -/
theorem advance_unfolds_all (e : End) (stack : List (Frame α)) (tree : Tree α) :
    (∀ turns, Frame.stackWeight stack ≤ turns → advanceWithin e turns stack = some (advance e stack)) ∧
    (advance e stack = none ↔ ∀ frame ∈ stack, frame.toList = []) ∧
    (∀ element later, Frame.given e stack = element :: later ↔
      ∃ rest, advance e stack = some (element, rest) ∧ Frame.given e rest = later) ∧
    (∀ calls, Frame.answers e calls [.tree tree] =
      (List.range calls).map fun call => (e.arrange tree.toList)[call]?) ∧
    ∀ other : Tree α, other.unsized = tree.unsized →
      ∀ calls, Frame.answers e calls [.tree other] = Frame.answers e calls [.tree tree] := by
  have alone (tree : Tree α) : Frame.given e [.tree tree] = e.arrange tree.toList := List.append_nil _
  refine ⟨fun turns => advanceWithin_stackWeight e, advance_eq_none_iff, fun element later => given_eq_cons_iff,
    fun calls => ?_, fun other alike calls => ?_⟩
  · rw [Frame.answers_eq, alone]
  · have same : other.toList = tree.toList := by rw [← other.toList_unsized, alike, tree.toList_unsized]
    rw [Frame.answers_eq, Frame.answers_eq, alone, alone, same]

theorem advance_unfolds_miscounted :
    let tree : Tree Nat := .deep 0 (.one (.leaf 1)) .empty (.two (.two 9 (.leaf 2) (.leaf 3)) (.leaf 4))
    let counted : Tree Nat := .level (.one (.leaf 1)) .empty (.two (.pair (.leaf 2) (.leaf 3)) (.leaf 4))
    let stack : List (Frame Nat) := [.tree .empty, .tree tree, .node (.two 0 (.leaf 5) (.leaf 6))]
    (∃ rest, advance .back stack = some (4, rest) ∧ Frame.given .back rest = [3, 2, 1, 6, 5] ∧
      advanceWithin .back (Frame.stackWeight stack) stack = some (some (4, rest))) ∧
    Frame.answers .back 5 [.tree tree] = [some 4, some 3, some 2, some 1, none] ∧
    counted.unsized = tree.unsized ∧ Frame.answers .back 5 [.tree counted] = Frame.answers .back 5 [.tree tree] := by
  intro tree counted stack
  obtain ⟨ended, -, first, all, alike⟩ := advance_unfolds_all .back stack tree
  obtain ⟨rest, advanced, given⟩ := (first 4 [3, 2, 1, 6, 5]).mp rfl
  have unsized : counted.unsized = tree.unsized := rfl
  exact ⟨⟨rest, advanced, given, advanced ▸ ended _ (Nat.le_refl _)⟩, all 5, unsized, alike counted unsized 5⟩

end IndexedSequence
