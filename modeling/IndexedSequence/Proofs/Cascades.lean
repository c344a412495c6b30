import IndexedSequence.Proofs.Levels
import IndexedSequence.Tree.Reach

/-!
Work at the ends is short on the whole. One push or pop may go down through every level, but only past digits of
four or of one, and it leaves two or three nodes in each of them; so what goes deep now has been paid for by what
filled or emptied those digits before.
-/

set_option autoImplicit false

namespace IndexedSequence

variable {α : Type}

inductive EndAction (α : Type) where
  | pushFront (element : α)
  | pushBack (element : α)
  | popFront
  | popBack
  deriving DecidableEq

namespace EndAction

def perform [Arithmetic] : EndAction α → Tree α → Except Fault (Tree α)
  | pushFront element, tree => .ok (tree.pushFront (.leaf element))
  | pushBack element, tree => .ok (tree.pushBack (.leaf element))
  | popFront, tree => (fun popped => popped.elim tree Prod.snd) <$> tree.popFront
  | popBack, tree => (fun popped => popped.elim tree Prod.snd) <$> tree.popBack

/-- The number of trees that the push or pop is called on, from the tree itself to the last middle. -/
def calls : EndAction α → Tree α → Nat
  | pushFront _, tree => tree.pushFrontReach + 1
  | pushBack _, tree => tree.pushBackReach + 1
  | popFront, tree => tree.popFrontReach + 1
  | popBack, tree => tree.popBackReach + 1

end EndAction

/-- Each action in turn, on the tree that the one before has left: the calls of all of them, and the last tree. -/
def Tree.perform [Arithmetic] (tree : Tree α) : List (EndAction α) → Except Fault (Nat × Tree α)
  | [] => .ok (0, tree)
  | action :: rest => do
    let next ← action.perform tree
    let (calls, final) ← next.perform rest
    return (action.calls tree + calls, final)

/-- Full digits and those of one node pass a push or a pop on to the middle. -/
def Digit.strain : Digit α → Nat
  | one _ | four .. => 1
  | two .. | three .. => 0

def Tree.strain : Tree α → Nat
  | deep _ left middle right => left.strain + middle.strain + right.strain
  | _ => 0

theorem Digit.strain_one (node : Node α) : (one node).strain = 1 := rfl

theorem Digit.strain_le (digit : Digit α) : digit.strain ≤ 1 := by
  cases digit <;> simp [strain]

theorem Tree.strain_le (tree : Tree α) : tree.strain ≤ 2 * tree.height := by
  induction tree with
  | empty | single node => exact Nat.zero_le _
  | deep size left middle right ih =>
    have := left.strain_le
    have := right.strain_le
    rw [strain, height]
    omega

theorem Tree.pushFront_strain (tree : Tree α) (node : Node α) :
    tree.pushFrontReach + (tree.pushFront node).strain ≤ 2 + tree.strain := by
  induction tree generalizing node with
  | empty | single a => simp [pushFrontReach, pushFront, strain, Digit.strain]
  | deep size left middle right ih =>
    cases left with
    | one a | two a b | three a b c =>
      simp only [pushFrontReach, pushFront, strain, Digit.strain]
      omega
    | four a b c d =>
      -- The digit is left with two nodes, which pays for the call on the middle.
      have carried := ih (.triple b c d)
      simp only [pushFrontReach, pushFront, strain, Digit.strain]
      omega

theorem Tree.pushBack_strain (tree : Tree α) (node : Node α) :
    tree.pushBackReach + (tree.pushBack node).strain ≤ 2 + tree.strain := by
  induction tree generalizing node with
  | empty | single a => simp [pushBackReach, pushBack, strain, Digit.strain]
  | deep size left middle right ih =>
    cases right with
    | one a | two a b | three a b c =>
      simp only [pushBackReach, pushBack, strain, Digit.strain]
      omega
    | four a b c d =>
      have carried := ih (.triple a b c)
      simp only [pushBackReach, pushBack, strain, Digit.strain]
      omega

theorem Digit.strain_of_ofBranch {branch : Node α} {digit : Digit α}
    (unpacked : Digit.ofBranch branch = .ok digit) : digit.strain = 0 := by
  cases branch with
  | leaf element => cases unpacked
  | two size a b | three size a b c =>
    cases unpacked
    rfl

theorem Tree.strain_ofDigit_le (digit : Digit α) : (ofDigit digit).strain ≤ 2 := by
  cases digit <;> simp [ofDigit, level, strain, Digit.strain]

theorem Tree.strain_refillLeft {popped : Option (Node α × Tree α)} {right : Digit α} {rest : Tree α}
    (refilled : refillLeft popped right = .ok rest) :
    rest.strain ≤ popped.elim 2 fun parts => parts.2.strain + right.strain := by
  cases popped with
  | none =>
    cases refilled
    exact strain_ofDigit_le right
  | some parts =>
    obtain ⟨left, unpacked, made⟩ := bind_eq_ok_iff.mp refilled
    cases made
    rw [level, strain, Digit.strain_of_ofBranch unpacked, Nat.zero_add]
    exact Nat.le_refl _

theorem Tree.strain_refillRight {left : Digit α} {popped : Option (Node α × Tree α)} {rest : Tree α}
    (refilled : refillRight left popped = .ok rest) :
    rest.strain ≤ popped.elim 2 fun parts => parts.2.strain + left.strain := by
  cases popped with
  | none =>
    cases refilled
    exact strain_ofDigit_le left
  | some parts =>
    obtain ⟨right, unpacked, made⟩ := bind_eq_ok_iff.mp refilled
    cases made
    rw [level, strain, Digit.strain_of_ofBranch unpacked, Nat.add_zero, Nat.add_comm]
    exact Nat.le_refl _

/-- A digit of one that runs empty pays for the pop of the middle. -/
theorem Tree.strain_lent {popped : Option (Node α × Tree α)} {middle rest : Tree α} {other : Digit α}
    {reach : Nat} (stopped : popped = none → reach = 0)
    (lower : reach + (popped.elim middle Prod.snd).strain ≤ 2 + middle.strain)
    (spread : rest.strain ≤ popped.elim 2 fun parts => parts.2.strain + other.strain) :
    reach + 1 + rest.strain ≤ 2 + (1 + middle.strain + other.strain) := by
  cases popped with
  | none =>
    have := stopped rfl
    simp only [Option.elim] at spread
    omega
  | some parts =>
    calc
      reach + 1 + rest.strain ≤ reach + 1 + (parts.2.strain + other.strain) := Nat.add_le_add_left spread _
      _ = (reach + parts.2.strain) + (1 + other.strain) := by omega
      _ ≤ (2 + middle.strain) + (1 + other.strain) := Nat.add_le_add_right lower _
      _ = 2 + (1 + middle.strain + other.strain) := by omega

section

variable [Arithmetic]

theorem Tree.popFront_level_cases {size : UInt64} {left right : Digit α} {middle : Tree α}
    {popped : Option (Node α × Tree α)} (given : (deep size left middle right).popFront = .ok popped) :
    (∃ node kept digit, left.popFront = (node, some digit) ∧
        popped = some (node, deep kept digit middle right)) ∨
      ∃ node inner rest, left = .one node ∧ middle.popFront = .ok inner ∧
        refillLeft inner right = .ok rest ∧ popped = some (node, rest) := by
  obtain ⟨node, rfl⟩ | ⟨node, digit, parts, -⟩ := left.popFront_cases
  · obtain ⟨inner, lent, later⟩ := bind_eq_ok_iff.mp given
    obtain ⟨rest, refilled, made⟩ := bind_eq_ok_iff.mp later
    exact .inr ⟨node, inner, rest, rfl, lent, refilled, (Except.ok.inj made).symm⟩
  · simp only [popFront, parts] at given
    obtain ⟨kept, -, made⟩ := bind_eq_ok_iff.mp given
    exact .inl ⟨node, kept, digit, parts, (Except.ok.inj made).symm⟩

theorem Tree.popBack_level_cases {size : UInt64} {left right : Digit α} {middle : Tree α}
    {popped : Option (Node α × Tree α)} (given : (deep size left middle right).popBack = .ok popped) :
    (∃ node kept digit, right.popBack = (node, some digit) ∧
        popped = some (node, deep kept left middle digit)) ∨
      ∃ node inner rest, right = .one node ∧ middle.popBack = .ok inner ∧
        refillRight left inner = .ok rest ∧ popped = some (node, rest) := by
  obtain ⟨node, rfl⟩ | ⟨node, digit, parts, -⟩ := right.popBack_cases
  · obtain ⟨inner, lent, later⟩ := bind_eq_ok_iff.mp given
    obtain ⟨rest, refilled, made⟩ := bind_eq_ok_iff.mp later
    exact .inr ⟨node, inner, rest, rfl, lent, refilled, (Except.ok.inj made).symm⟩
  · simp only [popBack, parts] at given
    obtain ⟨kept, -, made⟩ := bind_eq_ok_iff.mp given
    exact .inl ⟨node, kept, digit, parts, (Except.ok.inj made).symm⟩

theorem Tree.popFrontReach_of_none {tree : Tree α} {popped : Option (Node α × Tree α)}
    (given : tree.popFront = .ok popped) (nothing : popped = none) : tree.popFrontReach = 0 := by
  cases tree with
  | empty | single node => rfl
  | deep size left middle right =>
    subst nothing
    obtain ⟨_, _, _, _, same⟩ | ⟨_, _, _, _, _, _, same⟩ := popFront_level_cases given
    · cases same
    · cases same

theorem Tree.popBackReach_of_none {tree : Tree α} {popped : Option (Node α × Tree α)}
    (given : tree.popBack = .ok popped) (nothing : popped = none) : tree.popBackReach = 0 := by
  cases tree with
  | empty | single node => rfl
  | deep size left middle right =>
    subst nothing
    obtain ⟨_, _, _, _, same⟩ | ⟨_, _, _, _, _, _, same⟩ := popBack_level_cases given
    · cases same
    · cases same

theorem Tree.popFront_strain {tree : Tree α} {popped : Option (Node α × Tree α)}
    (given : tree.popFront = .ok popped) :
    tree.popFrontReach + (popped.elim tree Prod.snd).strain ≤ 2 + tree.strain := by
  induction tree generalizing popped with
  | empty | single node =>
    cases given
    exact Nat.zero_le _
  | deep size left middle right ih =>
    obtain ⟨node, kept, digit, parts, rfl⟩ | ⟨node, inner, rest, rfl, lent, refilled, rfl⟩ :=
      popFront_level_cases given
    · have := digit.strain_le
      cases left with
      | one a => cases parts
      | two a b | three a b c | four a b c d =>
        simp only [popFrontReach, Option.elim, strain]
        omega
    · exact strain_lent (popFrontReach_of_none lent) (ih lent) (strain_refillLeft refilled)

theorem Tree.popBack_strain {tree : Tree α} {popped : Option (Node α × Tree α)}
    (given : tree.popBack = .ok popped) :
    tree.popBackReach + (popped.elim tree Prod.snd).strain ≤ 2 + tree.strain := by
  induction tree generalizing popped with
  | empty | single node =>
    cases given
    exact Nat.zero_le _
  | deep size left middle right ih =>
    obtain ⟨node, kept, digit, parts, rfl⟩ | ⟨node, inner, rest, rfl, lent, refilled, rfl⟩ :=
      popBack_level_cases given
    · have := digit.strain_le
      cases right with
      | one a => cases parts
      | two a b | three a b c | four a b c d =>
        simp only [popBackReach, Option.elim, strain]
        omega
    · have paid := strain_lent (popBackReach_of_none lent) (ih lent) (strain_refillRight refilled)
      simp only [popBackReach, Option.elim, strain, Digit.strain_one]
      omega

/-- The calls of one action beyond three come out of what the digits had in store. -/
theorem EndAction.calls_strain {action : EndAction α} {tree next : Tree α}
    (performed : action.perform tree = .ok next) :
    action.calls tree + next.strain ≤ 3 + tree.strain := by
  cases action with
  | pushFront element =>
    cases performed
    have := tree.pushFront_strain (.leaf element)
    rw [calls]
    omega
  | pushBack element =>
    cases performed
    have := tree.pushBack_strain (.leaf element)
    rw [calls]
    omega
  | popFront =>
    obtain ⟨popped, given, rfl⟩ := map_eq_ok_iff.mp performed
    have := Tree.popFront_strain given
    rw [calls]
    omega
  | popBack =>
    obtain ⟨popped, given, rfl⟩ := map_eq_ok_iff.mp performed
    have := Tree.popBack_strain given
    rw [calls]
    omega

theorem Tree.perform_strain {tree final : Tree α} {actions : List (EndAction α)} {calls : Nat}
    (performed : tree.perform actions = .ok (calls, final)) :
    calls + final.strain ≤ 3 * actions.length + tree.strain := by
  induction actions generalizing tree calls with
  | nil =>
    cases performed
    exact Nat.le_refl _
  | cons action rest ih =>
    obtain ⟨next, first, later⟩ := bind_eq_ok_iff.mp performed
    obtain ⟨⟨others, last⟩, remaining, made⟩ := bind_eq_ok_iff.mp later
    cases made
    calc
      action.calls tree + others + final.strain = action.calls tree + (others + final.strain) := Nat.add_assoc ..
      _ ≤ action.calls tree + (3 * rest.length + next.strain) := Nat.add_le_add_left (ih remaining) _
      _ = (action.calls tree + next.strain) + 3 * rest.length := by omega
      _ ≤ (3 + tree.strain) + 3 * rest.length := Nat.add_le_add_right (EndAction.calls_strain first) _
      _ = 3 * (action :: rest).length + tree.strain := by
        rw [List.length_cons]
        omega

theorem EndAction.perform_ok (action : EndAction α) {tree : Tree α} (h : tree.Consistent 0)
    (differs : Arithmetic.DiffersUpTo tree.toList.length) :
    ∃ next, action.perform tree = .ok next ∧ next.Consistent 0 ∧
      next.toList.length ≤ tree.toList.length + 1 := by
  cases action with
  | pushFront element =>
    refine ⟨_, rfl, h.pushFront (Node.consistent_leaf element), ?_⟩
    rw [Tree.toList_pushFront, List.length_append, Nat.add_comm]
    exact Nat.le_refl _
  | pushBack element =>
    refine ⟨_, rfl, h.pushBack (Node.consistent_leaf element), ?_⟩
    rw [Tree.toList_pushBack, List.length_append]
    exact Nat.le_refl _
  | popFront =>
    by_cases ne : tree = .empty
    · subst ne
      exact ⟨.empty, rfl, trivial, Nat.zero_le _⟩
    · obtain ⟨node, rest, popped, -, hr, same⟩ := h.popsFront_of_differs differs ne
      refine ⟨rest, by rw [perform, popped]; rfl, hr, ?_⟩
      rw [h.toList_eq, hr.toList_eq, same, Node.elements_cons, List.length_append]
      omega
  | popBack =>
    by_cases ne : tree = .empty
    · subst ne
      exact ⟨.empty, rfl, trivial, Nat.zero_le _⟩
    · obtain ⟨node, rest, popped, -, hr, same⟩ := h.popsBack_of_differs differs ne
      refine ⟨rest, by rw [perform, popped]; rfl, hr, ?_⟩
      rw [h.toList_eq, hr.toList_eq, same, Node.elements_append, List.length_append]
      omega

theorem Tree.perform_ok (actions : List (EndAction α)) {tree : Tree α} (h : tree.Consistent 0)
    (differs : Arithmetic.DiffersUpTo (tree.toList.length + actions.length)) :
    ∃ calls final, tree.perform actions = .ok (calls, final) := by
  induction actions generalizing tree with
  | nil => exact ⟨0, tree, rfl⟩
  | cons action rest ih =>
    rw [List.length_cons] at differs
    obtain ⟨next, first, hn, grown⟩ := action.perform_ok h (differs.mono (by omega))
    obtain ⟨others, final, remaining⟩ := ih hn (differs.mono (by omega))
    refine ⟨action.calls tree + others, final, ?_⟩
    rw [perform, first, ok_bind, remaining]
    rfl

/-- The actions can all be performed, with no more calls than this. -/
def Tree.PerformsWithin (limit : Nat) (tree : Tree α) (actions : List (EndAction α)) : Prop :=
  ∃ calls final, tree.perform actions = .ok (calls, final) ∧ calls ≤ limit

theorem Tree.Consistent.performsWithin {tree : Tree α} (h : tree.Consistent 0)
    {actions : List (EndAction α)}
    (differs : Arithmetic.DiffersUpTo (tree.toList.length + actions.length)) :
    tree.PerformsWithin (3 * actions.length + 2 * tree.height) actions := by
  obtain ⟨calls, final, performed⟩ := Tree.perform_ok actions h differs
  refine ⟨calls, final, performed, ?_⟩
  calc
    calls ≤ calls + final.strain := Nat.le_add_right _ _
    _ ≤ 3 * actions.length + tree.strain := perform_strain performed
    _ ≤ 3 * actions.length + 2 * tree.height := Nat.add_le_add_left tree.strain_le _

end

/-- A series of pushes and pops calls for three levels each at most, and two for every level that was
there at first. -/
theorem Tree.calls_le_three_mul_add_two_mul_height {tree : Tree α} (h : tree.WellFormed 0)
    (actions : List (EndAction α)) :
    tree.PerformsWithin (3 * actions.length + 2 * tree.height) actions ∧
      (empty : Tree α).PerformsWithin (3 * actions.length) actions ∧
      ∀ [Arithmetic] [Arithmetic.Exact], tree.toList.length + actions.length < UInt64.size →
        tree.PerformsWithin (3 * actions.length + 2 * tree.height) actions := by
  refine ⟨?_, ?_, ?_⟩
  · exact h.consistent.performsWithin (.wrapping _)
  · have nothing : (empty : Tree α).Consistent 0 := trivial
    exact nothing.performsWithin (.wrapping _)
  · intro _ _ bound
    exact h.consistent.performsWithin (.of_lt bound)

def thinLevels : Tree Nat :=
  let pair (n : Nat) : Node Nat := .pair (.leaf n) (.leaf (n + 1))
  let four (n : Nat) : Node Nat := .pair (pair n) (pair (n + 2))
  .level (.one (.leaf 0))
    (.level (.one (pair 1)) (.level (.one (four 3)) .empty (.one (four 7))) (.one (pair 11)))
    (.one (.leaf 13))

/-- The first two pops make more than three calls each, for which the digits of one have paid. -/
theorem Tree.thinLevels_calls_le :
    let actions : List (EndAction Nat) := [.popFront, .popBack, .pushFront 20, .pushFront 21, .pushFront 22,
      .pushBack 23, .pushBack 24, .popFront]
    thinLevels.WellFormed 0 ∧ thinLevels.height = 3 ∧ EndAction.popFront.calls thinLevels = 4 ∧
      (thinLevels.perform (actions.take 2)).map Prod.fst = .ok 7 ∧
      thinLevels.PerformsWithin 30 actions ∧ (empty : Tree Nat).PerformsWithin 24 actions ∧
      @PerformsWithin _ .checked 30 thinLevels actions := by
  intro actions
  have h : thinLevels.WellFormed 0 := by decide
  obtain ⟨wrapping, fromEmpty, exact_words⟩ := calls_le_three_mul_add_two_mul_height h actions
  exact ⟨h, by decide, by decide, by rfl, wrapping, fromEmpty,
    @exact_words .checked Arithmetic.exact_checked (by decide)⟩

end IndexedSequence
