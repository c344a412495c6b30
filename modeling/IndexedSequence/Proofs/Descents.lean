import IndexedSequence.Proofs.Outcome
import IndexedSequence.Proofs.Ends
import IndexedSequence.Tree.Descent
import IndexedSequence.Tree.Reach

set_option autoImplicit false

namespace IndexedSequence

variable {α β γ δ : Type}

namespace Descent

/-- What comes out of a descent, and how far it goes, where each of the two is known by itself. -/
def of (reach : Except Fault Nat) (outcome : Except Fault β) : Descent β :=
  Except.bind reach fun reach => Except.map (reach, ·) outcome

theorem outcome_of (reach : Nat) (outcome : Except Fault β) : (of (.ok reach) outcome).outcome = outcome := by
  cases outcome <;> rfl

theorem outcome_bind (d : Descent β) (next : β → Descent γ) :
    (d >>= next).outcome = d.outcome >>= fun b => (next b).outcome := by
  cases d with
  | error fault => rfl
  | ok gone =>
    change Except.map Prod.snd (Except.bind (next gone.2) _) = Except.map Prod.snd (next gone.2)
    cases next gone.2 <;> rfl

theorem outcome_lift (found : Except Fault β) : (liftM found : Descent β).outcome = found := by
  cases found <;> rfl

theorem outcome_below (d : Descent β) : d.below.outcome = d.outcome := by
  cases d <;> rfl

theorem Within.of_reach {limit reach : Nat} {outcome : Except Fault β} {d : Descent β} {b : β}
    (same : d.outcome = outcome) (counted : d = of (.ok reach) outcome) (gone : outcome = .ok b)
    (le : reach ≤ limit) : d.Within limit outcome := by
  refine ⟨same, reach, ?_, le⟩
  rw [counted, gone]
  rfl

theorem lift_ok_bind (b : β) (next : β → Descent γ) :
    (liftM (Except.ok b : Except Fault β) : Descent β) >>= next = next b := by
  change Except.bind (next b) (fun gone => Except.ok (max 0 gone.1, gone.2)) = next b
  simp only [Nat.zero_max]
  cases next b <;> rfl

theorem lift_return (found : Except Fault β) (wrap : β → γ) :
    (do return wrap (← found) : Descent γ) = liftM (do return wrap (← found) : Except Fault γ) := by
  cases found <;> rfl

theorem of_lift (reach : Nat) (found : Except Fault β) (next : β → Except Fault γ) :
    (do next (← of (.ok reach) found) : Descent γ) = of (.ok reach) (found >>= next) := by
  cases found with
  | error fault => rfl
  | ok b =>
    change Except.bind (Except.map (0, ·) (next b)) _ = of (.ok reach) (next b)
    cases next b with
    | error fault => rfl
    | ok c =>
      change Except.ok (max reach 0, c) = Except.ok (reach, c)
      rw [Nat.max_zero]

/-- A step that goes down nowhere leaves the count to what follows it. -/
theorem lift_bind_eq (found : Except Fault β) {next : β → Descent γ} {reach : β → Except Fault Nat}
    {outcome : β → Except Fault γ} (each : ∀ b, next b = of (reach b) (outcome b)) :
    (liftM found >>= next) = of (found >>= reach) (found >>= outcome) := by
  cases found with
  | error fault => rfl
  | ok b => exact (lift_ok_bind b next).trans (each b)

def after (reach : Nat) (d : Descent β) : Descent β := Except.map (fun (further, b) => (max reach further, b)) d

theorem after_lift_bind (reach : Nat) (found : Except Fault β) (next : β → Descent γ) :
    (liftM found >>= next : Descent γ).after reach = liftM found >>= fun b => (next b).after reach := by
  cases found with
  | error fault => rfl
  | ok b => rw [lift_ok_bind, lift_ok_bind]

theorem of_bind_eq (reach : Nat) (found : Except Fault β) {next : β → Descent γ}
    {further : β → Except Fault Nat} {outcome : β → Except Fault γ}
    (each : ∀ b, (next b).after reach = of (further b) (outcome b)) :
    (of (.ok reach) found >>= next) = of (found >>= further) (found >>= outcome) := by
  cases found with
  | error fault => rfl
  | ok b =>
    refine Eq.trans ?_ (each b)
    change Except.bind (next b) _ = Except.map _ (next b)
    cases next b <;> rfl

theorem after_of (reach : Nat) (further : Except Fault Nat) (outcome : Except Fault β) :
    (of further outcome).after reach = of (max reach <$> further) outcome := by
  cases further with
  | error fault => rfl
  | ok further => cases outcome <;> rfl

theorem of_both (reach further : Nat) (first : Except Fault β) (second : Except Fault γ) (wrap : β → γ → δ) :
    (do return wrap (← of (.ok reach) first) (← of (.ok further) second) : Descent δ) =
      of (.ok (max reach further)) (do return wrap (← first) (← second)) := by
  cases first with
  | error fault => rfl
  | ok b =>
    cases second with
    | error fault => rfl
    | ok c =>
      change Except.ok (max reach (max further 0), wrap b c) = Except.ok (max reach further, wrap b c)
      rw [Nat.max_zero]

theorem below_of (reach : Except Fault Nat) (outcome : Except Fault β) :
    (of reach outcome).below = of ((· + 1) <$> reach) outcome := by
  cases reach with
  | error fault => rfl
  | ok reach => cases outcome <;> rfl

end Descent

open Descent (of)

section

variable [Arithmetic]

theorem Node.outcome_lookupDescent (node : Node α) (index : UInt64) :
    (node.lookupDescent index).outcome = node.lookup index := by
  induction node generalizing index with
  | leaf element => rfl
  | two size first second ihf ihs =>
    simp only [lookupDescent, lookup, apply_ite Descent.outcome, Descent.outcome_bind, Descent.outcome_lift,
      Descent.outcome_below, ihf, ihs]
  | three size first second third ihf ihs iht =>
    simp only [lookupDescent, lookup, apply_ite Descent.outcome, Descent.outcome_bind, Descent.outcome_lift,
      Descent.outcome_below, ihf, ihs, iht]

theorem Node.lookupDescent_eq (node : Node α) (index : UInt64) :
    node.lookupDescent index = of (node.lookupReach index) (node.lookup index) := by
  induction node generalizing index with
  | leaf element => rfl
  | two size first second ihf ihs =>
    rw [lookupDescent, lookupReach, lookup, ihf, Descent.below_of]
    split
    · rfl
    · refine Descent.lift_bind_eq (minus index first.size) fun pastFirst => ?_
      rw [ihs, Descent.below_of]
      split <;> rfl
  | three size first second third ihf ihs iht =>
    rw [lookupDescent, lookupReach, lookup, ihf, Descent.below_of]
    split
    · rfl
    · refine Descent.lift_bind_eq (minus index first.size) fun pastFirst => ?_
      rw [ihs, Descent.below_of]
      split
      · rfl
      · refine Descent.lift_bind_eq (minus pastFirst second.size) fun pastSecond => ?_
        rw [iht, Descent.below_of]
        split <;> rfl

end

namespace Tree

theorem pushFrontDescent_eq (tree : Tree α) (node : Node α) :
    tree.pushFrontDescent node = of (.ok tree.pushFrontReach) (.ok (tree.pushFront node)) := by
  induction tree generalizing node with
  | empty | single a => rfl
  | deep size left middle right ih =>
    cases left with
    | one a | two a b | three a b c => rfl
    | four a b c d =>
      rw [pushFrontDescent, ih]
      rfl

theorem pushBackDescent_eq (tree : Tree α) (node : Node α) :
    tree.pushBackDescent node = of (.ok tree.pushBackReach) (.ok (tree.pushBack node)) := by
  induction tree generalizing node with
  | empty | single a => rfl
  | deep size left middle right ih =>
    cases right with
    | one a | two a b | three a b c => rfl
    | four a b c d =>
      rw [pushBackDescent, ih]
      rfl

theorem pushFrontAllDescent_eq (tree : Tree α) (nodes : List (Node α)) :
    tree.pushFrontAllDescent nodes = of (.ok (tree.pushFrontAllReach nodes)) (.ok (tree.pushFrontAll nodes)) := by
  induction nodes with
  | nil => rfl
  | cons node rest ih =>
    rw [pushFrontAllDescent, ih]
    change Except.bind ((tree.pushFrontAll rest).pushFrontDescent node) _ = _
    rw [pushFrontDescent_eq]
    rfl

theorem pushBackAllDescent_eq (tree : Tree α) (nodes : List (Node α)) :
    tree.pushBackAllDescent nodes = of (.ok (tree.pushBackAllReach nodes)) (.ok (tree.pushBackAll nodes)) := by
  induction nodes generalizing tree with
  | nil => rfl
  | cons node rest ih =>
    rw [pushBackAllDescent, pushBackDescent_eq]
    change Except.bind ((tree.pushBack node).pushBackAllDescent rest) _ = _
    rw [ih]
    rfl

theorem buildDescent_eq (nodes : List (Node α)) :
    buildDescent nodes = of (.ok (buildReach nodes)) (.ok (build nodes)) := by
  fun_induction build nodes with
  | case1 | case2 a | case3 a b =>
    rw [buildDescent, buildReach]
    · rfl
    · intro _ _ _ _ same
      cases same
  | case4 a b c rest folded pending =>
    simp only [folded] at pending
    rw [buildDescent, buildReach, pending]
    rfl
  | case5 a b c rest folded right pending ih =>
    simp only [folded] at pending ih
    simp only [buildDescent, buildReach, pending, ih]
    rfl

theorem joinDescent_eq (left : Tree α) (between : List (Node α)) (right : Tree α) :
    left.joinDescent between right = of (left.joinReach between right) (left.join between right) := by
  fun_induction joinDescent left between right with
  | case1 between right =>
    rw [pushFrontAllDescent_eq, joinReach, join]
  | case2 node between => rw [pushBackAllDescent_eq, joinReach, join]
  | case3 size outer middle inner between => rw [pushBackAllDescent_eq, joinReach, join]
  | case4 node between right other =>
    rw [pushFrontAllDescent_eq]
    cases right <;> first | rfl | exact absurd rfl other
  | case5 size outer middle inner between node =>
    rw [pushBackAllDescent_eq, pushBackAll, List.foldl_append]
    rfl
  | case6 _ leftOuter leftMiddle leftInner between _ rightInner rightMiddle rightOuter ih =>
    rw [joinReach, join]
    refine Descent.lift_bind_eq (regroup (leftInner.nodes ++ (between ++ rightInner.nodes))) fun branches => ?_
    rw [ih]
    cases leftMiddle.joinReach branches rightMiddle with
    | error fault => rfl
    | ok reach => cases leftMiddle.join branches rightMiddle <;> rfl

/-- Counting the levels changes nothing in what the operations give. -/
theorem outcome_pushFrontDescent (tree : Tree α) (node : Node α) :
    (tree.pushFrontDescent node).outcome = .ok (tree.pushFront node) := by
  rw [pushFrontDescent_eq, Descent.outcome_of]

theorem outcome_pushBackDescent (tree : Tree α) (node : Node α) :
    (tree.pushBackDescent node).outcome = .ok (tree.pushBack node) := by
  rw [pushBackDescent_eq, Descent.outcome_of]

theorem outcome_pushFrontAllDescent (tree : Tree α) (nodes : List (Node α)) :
    (tree.pushFrontAllDescent nodes).outcome = .ok (tree.pushFrontAll nodes) := by
  rw [pushFrontAllDescent_eq, Descent.outcome_of]

theorem outcome_pushBackAllDescent (tree : Tree α) (nodes : List (Node α)) :
    (tree.pushBackAllDescent nodes).outcome = .ok (tree.pushBackAll nodes) := by
  rw [pushBackAllDescent_eq, Descent.outcome_of]

theorem outcome_buildDescent (nodes : List (Node α)) : (buildDescent nodes).outcome = .ok (build nodes) := by
  rw [buildDescent_eq, Descent.outcome_of]

theorem outcome_joinDescent (left : Tree α) (between : List (Node α)) (right : Tree α) :
    (left.joinDescent between right).outcome = left.join between right := by
  fun_induction joinDescent left between right with
  | case1 between right => rw [outcome_pushFrontAllDescent, join]
  | case2 node between => rw [outcome_pushBackAllDescent, join]
  | case3 size outer middle inner between => rw [outcome_pushBackAllDescent, join]
  | case4 node between right other =>
    rw [outcome_pushFrontAllDescent]
    cases right <;> first | rfl | exact absurd rfl other
  | case5 size outer middle inner between node =>
    rw [outcome_pushBackAllDescent, pushBackAll, List.foldl_append]
    rfl
  | case6 _ leftOuter leftMiddle leftInner between _ rightInner rightMiddle rightOuter ih =>
    simp only [join, Descent.outcome_bind, Descent.outcome_lift, Descent.outcome_below, ih]
    rfl

section

variable [Arithmetic]

theorem popFrontDescent_eq (tree : Tree α) :
    tree.popFrontDescent = of (.ok tree.popFrontReach) tree.popFront := by
  induction tree with
  | empty | single node => rfl
  | deep size left middle right ih =>
    cases left with
    | one a =>
      change (do return some (a, ← refillLeft (← middle.popFrontDescent.below) right) : Descent _) = _
      rw [ih, Descent.below_of]
      simp only [Descent.lift_return]
      exact Descent.of_lift (middle.popFrontReach + 1) middle.popFront _
    | two a b | three a b c | four a b c d => exact Descent.lift_return (minus size a.size) _

theorem popBackDescent_eq (tree : Tree α) :
    tree.popBackDescent = of (.ok tree.popBackReach) tree.popBack := by
  induction tree with
  | empty | single node => rfl
  | deep size left middle right ih =>
    cases right with
    | one a =>
      change (do return some (a, ← refillRight left (← middle.popBackDescent.below)) : Descent _) = _
      rw [ih, Descent.below_of]
      simp only [Descent.lift_return]
      exact Descent.of_lift (middle.popBackReach + 1) middle.popBack _
    | two a b => exact Descent.lift_return (minus size b.size) _
    | three a b c => exact Descent.lift_return (minus size c.size) _
    | four a b c d => exact Descent.lift_return (minus size d.size) _

theorem levelLeftDescent_eq (before : List (Node α)) (middle : Tree α) (right : Digit α) :
    levelLeftDescent before middle right =
      of (.ok (levelLeftReach before middle)) (levelLeft before middle right) := by
  rw [levelLeftDescent, levelLeftReach, levelLeft]
  cases Digit.ofNodes? before with
  | some left => rfl
  | none =>
    rw [popFrontDescent_eq, Descent.below_of]
    exact Descent.of_lift (middle.popFrontReach + 1) middle.popFront (refillLeft · right)

theorem levelRightDescent_eq (left : Digit α) (middle : Tree α) (after : List (Node α)) :
    levelRightDescent left middle after =
      of (.ok (levelRightReach middle after)) (levelRight left middle after) := by
  rw [levelRightDescent, levelRightReach, levelRight]
  cases Digit.ofNodes? after with
  | some right => rfl
  | none =>
    rw [popBackDescent_eq, Descent.below_of]
    exact Descent.of_lift (middle.popBackReach + 1) middle.popBack (refillRight left)

theorem outcome_popFrontDescent (tree : Tree α) : tree.popFrontDescent.outcome = tree.popFront := by
  rw [popFrontDescent_eq, Descent.outcome_of]

theorem outcome_popBackDescent (tree : Tree α) : tree.popBackDescent.outcome = tree.popBack := by
  rw [popBackDescent_eq, Descent.outcome_of]

theorem outcome_levelLeftDescent (before : List (Node α)) (middle : Tree α) (right : Digit α) :
    (levelLeftDescent before middle right).outcome = levelLeft before middle right := by
  rw [levelLeftDescent_eq, Descent.outcome_of]

theorem outcome_levelRightDescent (left : Digit α) (middle : Tree α) (after : List (Node α)) :
    (levelRightDescent left middle after).outcome = levelRight left middle after := by
  rw [levelRightDescent_eq, Descent.outcome_of]

theorem outcome_getDescent (tree : Tree α) (index : UInt64) : (tree.getDescent index).outcome = tree.get? index := by
  induction tree generalizing index with
  | empty => rfl
  | single node =>
    simp only [getDescent, get?, apply_ite Descent.outcome, Descent.outcome_bind, Descent.outcome_lift]
    rfl
  | deep size left middle right ih =>
    simp only [getDescent, get?, apply_ite Descent.outcome, Descent.outcome_bind, Descent.outcome_lift,
      Descent.outcome_below, ih]
    rfl

theorem outcome_splitDescent (tree : Tree α) (index : UInt64) :
    (tree.splitDescent index).outcome = tree.split? index := by
  induction tree generalizing index with
  | empty | single node => rfl
  | deep size left middle right ih =>
    rw [splitDescent, split?]
    split
    · split
      · simp only [Descent.outcome_bind, Descent.outcome_lift, outcome_buildDescent, outcome_levelLeftDescent]
        rfl
      · rw [Descent.outcome_bind, Descent.outcome_lift]
        refine bind_congr fun pastLeft => ?_
        split
        · rw [Descent.outcome_bind, Descent.outcome_below, ih]
          refine bind_congr fun found => ?_
          cases found with
          | none => rfl
          | some outer =>
            simp only [Descent.outcome_bind, Descent.outcome_lift, outcome_levelLeftDescent,
              outcome_levelRightDescent]
            rfl
        · simp only [Descent.outcome_bind, Descent.outcome_lift, outcome_buildDescent, outcome_levelRightDescent]
          rfl
    · rfl

theorem getDescent_eq (tree : Tree α) (index : UInt64) :
    tree.getDescent index = of (tree.getReach index) (tree.get? index) := by
  induction tree generalizing index with
  | empty => rfl
  | single node =>
    rw [getDescent, getReach, get?]
    split
    · exact Descent.lift_return (node.lookup index) some
    · rfl
  | deep size left middle right ih =>
    rw [getDescent, getReach, get?]
    split
    · split
      · exact Descent.lift_return (left.lookup index) some
      · refine Descent.lift_bind_eq (minus index left.size) fun pastLeft => ?_
        rw [ih, Descent.below_of]
        split
        · rfl
        · cases minus pastLeft middle.size with
          | error fault => rfl
          | ok pastMiddle =>
            rw [Descent.lift_ok_bind, ok_bind]
            exact Descent.lift_return (right.lookup pastMiddle) some
    · rfl

theorem splitDescent_eq (tree : Tree α) (index : UInt64) :
    tree.splitDescent index = of (tree.splitReach index) (tree.split? index) := by
  induction tree generalizing index with
  | empty | single node => rfl
  | deep size left middle right ih =>
    rw [splitDescent, splitReach, split?]
    split
    · split
      · refine Descent.lift_bind_eq (left.split index) fun cut => ?_
        rw [buildDescent_eq, levelLeftDescent_eq]
        exact Descent.of_both _ _ (.ok (build cut.before)) (levelLeft cut.after middle right)
          fun before after => some (⟨before, cut.node, cut.offset, after⟩ : Cut (Tree α) α)
      · refine Descent.lift_bind_eq (minus index left.size) fun pastLeft => ?_
        split
        · rw [ih, Descent.below_of]
          cases middle.splitReach pastLeft with
          | error fault => rfl
          | ok reach =>
            refine Descent.of_bind_eq (reach + 1) (middle.split? pastLeft) fun found => ?_
            cases found with
            | none => rfl
            | some outer =>
              refine (Descent.after_lift_bind _ (Digit.ofBranch outer.node) _).trans ?_
              refine Descent.lift_bind_eq (Digit.ofBranch outer.node) fun digit => ?_
              refine (Descent.after_lift_bind _ (digit.split outer.offset) _).trans ?_
              refine Descent.lift_bind_eq (digit.split outer.offset) fun cut => ?_
              rw [levelRightDescent_eq, levelLeftDescent_eq, Descent.of_both _ _
                (levelRight left outer.before cut.before) (levelLeft cut.after outer.after right)
                fun before after => some (⟨before, cut.node, cut.offset, after⟩ : Cut (Tree α) α), Descent.after_of]
              rfl
        · refine Descent.lift_bind_eq (minus pastLeft middle.size) fun pastMiddle => ?_
          refine Descent.lift_bind_eq (right.split pastMiddle) fun cut => ?_
          rw [buildDescent_eq, levelRightDescent_eq]
          exact Descent.of_both _ _ (levelRight left middle cut.before) (.ok (build cut.after))
            fun before after => some (⟨before, cut.node, cut.offset, after⟩ : Cut (Tree α) α)
    · rfl

end

end Tree

end IndexedSequence
