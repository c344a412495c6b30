import IndexedSequence.Proofs.Descents
import IndexedSequence.Proofs.Occurrence
import Mathlib.Algebra.Group.Nat.Defs

set_option autoImplicit false

namespace IndexedSequence

variable {α : Type} {depth : Nat}

theorem Node.Consistent.length_ge {node : Node α} (h : node.Consistent depth) :
    2 ^ depth ≤ node.toList.length := by
  induction node generalizing depth with
  | leaf element =>
    cases depth with
    | zero => exact Nat.le_refl 1
    | succ depth => exact h.elim
  | two size first second ihf ihs =>
    cases depth with
    | zero => exact h.elim
    | succ depth =>
      calc
        2 ^ (depth + 1) = 2 ^ depth + 2 ^ depth := by rw [Nat.pow_succ, Nat.mul_two]
        _ ≤ first.toList.length + second.toList.length := Nat.add_le_add (ihf h.1) (ihs h.2.1)
        _ = (two size first second).toList.length := List.length_append.symm
  | three size first second third ihf ihs iht =>
    cases depth with
    | zero => exact h.elim
    | succ depth =>
      calc
        2 ^ (depth + 1) = 2 ^ depth + 2 ^ depth := by rw [Nat.pow_succ, Nat.mul_two]
        _ ≤ first.toList.length + second.toList.length := Nat.add_le_add (ihf h.1) (ihs h.2.1)
        _ ≤ first.toList.length + (second.toList ++ third.toList).length := by
          rw [List.length_append]
          exact Nat.add_le_add_left (Nat.le_add_right _ _) _
        _ = (three size first second third).toList.length := List.length_append.symm

theorem Node.Consistent.length_le {node : Node α} (h : node.Consistent depth) :
    node.toList.length ≤ 3 ^ depth := by
  induction node generalizing depth with
  | leaf element => exact Nat.pow_pos (by decide)
  | two size first second ihf ihs =>
    cases depth with
    | zero => exact h.elim
    | succ depth =>
      calc
        (two size first second).toList.length = first.toList.length + second.toList.length := List.length_append
        _ ≤ 3 ^ depth + 3 ^ depth := Nat.add_le_add (ihf h.1) (ihs h.2.1)
        _ ≤ 3 ^ (depth + 1) := by
          rw [Nat.pow_succ]
          omega
  | three size first second third ihf ihs iht =>
    cases depth with
    | zero => exact h.elim
    | succ depth =>
      calc
        (three size first second third).toList.length =
            first.toList.length + (second.toList.length + third.toList.length) := by
          rw [toList, List.length_append, List.length_append]
        _ ≤ 3 ^ depth + (3 ^ depth + 3 ^ depth) :=
          Nat.add_le_add (ihf h.1) (Nat.add_le_add (ihs h.2.1) (iht h.2.2.1))
        _ = 3 ^ (depth + 1) := by
          rw [Nat.pow_succ]
          omega

theorem Digit.Consistent.length_ge {digit : Digit α} (h : digit.Consistent depth) :
    2 ^ depth ≤ digit.toList.length := by
  have mem : digit.head ∈ digit.nodes := by cases digit <;> exact List.mem_cons_self
  calc
    2 ^ depth ≤ digit.head.toList.length := (h digit.head mem).length_ge
    _ ≤ digit.toList.length := Node.length_le_of_mem mem

theorem Digit.Consistent.length_le {digit : Digit α} (h : digit.Consistent depth) :
    digit.toList.length ≤ 4 * 3 ^ depth := by
  have each : ∀ node ∈ digit.nodes, node.toList.length ≤ 3 ^ depth :=
    fun node mem => (h node mem).length_le
  cases digit <;>
    simp only [nodes, List.forall_mem_cons] at each <;>
    simp only [toList, nodes, Node.elements, List.flatMap_cons, List.flatMap_nil, List.length_append,
      List.length_nil] <;>
    omega

/-- A tree at its thinnest has two nodes to a level, and none below the last. -/
theorem Tree.Consistent.length_ge {tree : Tree α} (h : tree.Consistent depth) :
    2 ^ (depth + tree.height + 1) ≤ tree.toList.length + 2 ^ (depth + 1) := by
  induction tree generalizing depth with
  | empty => exact Nat.le_add_left _ _
  | single node => exact Nat.le_add_left _ _
  | deep size left middle right ih =>
    obtain ⟨hl, hm, hr, -⟩ := h
    have sides : 2 ^ (depth + 1) ≤ left.toList.length + right.toList.length := by
      rw [Nat.pow_succ, Nat.mul_two]
      exact Nat.add_le_add hl.length_ge hr.length_ge
    calc
      2 ^ (depth + (middle.height + 1) + 1) = 2 ^ (depth + 1 + middle.height + 1) := by
        rw [Nat.add_comm middle.height 1, ← Nat.add_assoc depth]
      _ ≤ middle.toList.length + 2 ^ (depth + 1 + 1) := ih hm
      _ = middle.toList.length + (2 ^ (depth + 1) + 2 ^ (depth + 1)) := by rw [Nat.pow_succ, Nat.mul_two]
      _ ≤ (Tree.deep size left middle right).toList.length + 2 ^ (depth + 1) := by
        rw [Tree.toList, List.length_append, List.length_append]
        omega

/-- A tree at its widest has eight nodes to a level, and one below the last. -/
theorem Tree.Consistent.length_le {tree : Tree α} (h : tree.Consistent depth) :
    tree.toList.length + 4 * 3 ^ depth ≤ 5 * 3 ^ (depth + tree.height) := by
  induction tree generalizing depth with
  | empty =>
    change 0 + 4 * 3 ^ depth ≤ 5 * 3 ^ depth
    omega
  | single node =>
    have node_le := Node.Consistent.length_le h
    change node.toList.length + 4 * 3 ^ depth ≤ 5 * 3 ^ depth
    omega
  | deep size left middle right ih =>
    obtain ⟨hl, hm, hr, -⟩ := h
    have sides : left.toList.length + right.toList.length ≤ 4 * 3 ^ depth + 4 * 3 ^ depth :=
      Nat.add_le_add hl.length_le hr.length_le
    calc
      (Tree.deep size left middle right).toList.length + 4 * 3 ^ depth ≤
          middle.toList.length + 4 * (3 ^ depth * 3) := by
        rw [Tree.toList, List.length_append, List.length_append]
        omega
      _ = middle.toList.length + 4 * 3 ^ (depth + 1) := by rw [Nat.pow_succ]
      _ ≤ 5 * 3 ^ (depth + 1 + middle.height) := ih hm
      _ = 5 * 3 ^ (depth + (middle.height + 1)) := by rw [Nat.add_comm middle.height 1, ← Nat.add_assoc depth]

/-- The nodes on a level are as deep as the level lies below the tree's own, and none is below the last. -/
theorem Tree.Consistent.of_mem_nodesAt {tree : Tree α} {level : Nat} {node : Node α}
    (h : tree.Consistent depth) (mem : node ∈ tree.nodesAt level) :
    node.Consistent (depth + level) ∧ level ≤ tree.height := by
  induction tree generalizing depth level with
  | empty => exact absurd mem List.not_mem_nil
  | single n =>
    cases level with
    | zero =>
      rw [nodesAt, List.mem_singleton] at mem
      exact ⟨mem ▸ h, Nat.le_refl 0⟩
    | succ level => exact absurd mem List.not_mem_nil
  | deep size left middle right ih =>
    obtain ⟨hl, hm, hr, -⟩ := h
    cases level with
    | zero =>
      rw [nodesAt, List.mem_append] at mem
      exact ⟨mem.elim (hl node) (hr node), Nat.zero_le _⟩
    | succ level =>
      obtain ⟨deeper, within⟩ := ih hm mem
      rw [Nat.add_assoc, Nat.add_comm 1] at deeper
      exact ⟨deeper, Nat.succ_le_succ within⟩

theorem Tree.length_le_of_mem_nodesAt {tree : Tree α} {level : Nat} {node : Node α}
    (mem : node ∈ tree.nodesAt level) : node.toList.length ≤ tree.toList.length := by
  induction tree generalizing level with
  | empty => exact absurd mem List.not_mem_nil
  | single n =>
    cases level with
    | zero =>
      rw [nodesAt, List.mem_singleton] at mem
      exact mem ▸ Nat.le_refl _
    | succ level => exact absurd mem List.not_mem_nil
  | deep size left middle right ih =>
    simp only [toList, List.length_append]
    cases level with
    | zero =>
      rw [nodesAt, List.mem_append] at mem
      obtain inLeft | inRight := mem
      · calc
          node.toList.length ≤ left.toList.length := Node.length_le_of_mem inLeft
          _ ≤ left.toList.length + (middle.toList.length + right.toList.length) := Nat.le_add_right _ _
      · calc
          node.toList.length ≤ right.toList.length := Node.length_le_of_mem inRight
          _ ≤ left.toList.length + (middle.toList.length + right.toList.length) := by omega
    | succ level =>
      calc
        node.toList.length ≤ middle.toList.length := ih mem
        _ ≤ left.toList.length + (middle.toList.length + right.toList.length) := by omega

theorem Tree.Consistent.height_le {tree : Tree α} (h : tree.Consistent depth)
    (bound : tree.toList.length < UInt64.size) : tree.height ≤ 63 - depth := by
  have thin := h.length_ge
  by_cases flat : tree.height = 0
  · omega
  · -- One level more than the tree's own has at least as many elements again.
    have own : 2 ^ (depth + 1) ≤ 2 ^ (depth + tree.height) :=
      Nat.pow_le_pow_right (by decide) (by omega)
    rw [Nat.pow_succ] at thin
    have many : 2 ^ (depth + tree.height) < 2 ^ 64 := by
      calc
        2 ^ (depth + tree.height) ≤ tree.toList.length := by omega
        _ < 2 ^ 64 := bound
    have := (Nat.pow_lt_pow_iff_right (by decide : 1 < 2)).mp many
    omega

theorem Tree.Consistent.depth_lt {size : UInt64} {left right : Digit α} {middle : Tree α}
    (h : (Tree.deep size left middle right).Consistent depth)
    (bound : (Tree.deep size left middle right).toList.length < UInt64.size) : depth < 63 := by
  have within := h.height_le bound
  rw [height] at within
  omega

theorem Tree.pushFrontReach_le (tree : Tree α) : tree.pushFrontReach ≤ tree.height := by
  induction tree with
  | empty | single node => exact Nat.zero_le _
  | deep size left middle right ih =>
    cases left with
    | one _ | two _ _ | three _ _ _ => exact Nat.zero_le _
    | four a b c d => exact Nat.succ_le_succ ih

theorem Tree.pushBackReach_le (tree : Tree α) : tree.pushBackReach ≤ tree.height := by
  induction tree with
  | empty | single node => exact Nat.zero_le _
  | deep size left middle right ih =>
    cases right with
    | one _ | two _ _ | three _ _ _ => exact Nat.zero_le _
    | four a b c d => exact Nat.succ_le_succ ih

theorem Tree.popFrontReach_le (tree : Tree α) : tree.popFrontReach ≤ tree.height := by
  induction tree with
  | empty | single node => exact Nat.zero_le _
  | deep size left middle right ih =>
    cases left with
    | one a => exact Nat.succ_le_succ ih
    | two _ _ | three _ _ _ | four _ _ _ _ => exact Nat.zero_le _

theorem Tree.popBackReach_le (tree : Tree α) : tree.popBackReach ≤ tree.height := by
  induction tree with
  | empty | single node => exact Nat.zero_le _
  | deep size left middle right ih =>
    cases right with
    | one a => exact Nat.succ_le_succ ih
    | two _ _ | three _ _ _ | four _ _ _ _ => exact Nat.zero_le _

theorem Tree.buildReach_le (nodes : List (Node α)) : buildReach nodes ≤ (build nodes).height := by
  fun_induction build nodes with
  | case1 | case2 a | case3 a b =>
    rw [buildReach]
    · exact Nat.zero_le _
    · intro _ _ _ _ same
      cases same
  | case4 a b c rest folded nothing =>
    rw [buildReach, nothing]
    exact Nat.zero_le _
  | case5 a b c rest folded right pending ih =>
    rw [buildReach, pending]
    exact Nat.succ_le_succ ih

theorem Tree.Consistent.pushFrontAllReach_le {tree : Tree α} {nodes : List (Node α)}
    (h : tree.Consistent depth) (hn : ∀ node ∈ nodes, node.Consistent depth)
    (bound : (Node.elements nodes).length + tree.toList.length < UInt64.size) :
    tree.pushFrontAllReach nodes ≤ 63 - depth := by
  induction nodes with
  | nil => exact Nat.zero_le _
  | cons node rest ih =>
    rw [List.forall_mem_cons] at hn
    rw [Node.elements_cons, List.length_append] at bound
    have grown : (tree.pushFrontAll rest).toList.length < UInt64.size := by
      rw [toList_pushFrontAll, List.length_append]
      omega
    refine Nat.max_le.mpr ⟨ih hn.2 (by omega), ?_⟩
    calc
      (tree.pushFrontAll rest).pushFrontReach ≤ (tree.pushFrontAll rest).height := pushFrontReach_le _
      _ ≤ 63 - depth := (h.pushFrontAll hn.2).height_le grown

theorem Tree.Consistent.pushBackAllReach_le {tree : Tree α} {nodes : List (Node α)}
    (h : tree.Consistent depth) (hn : ∀ node ∈ nodes, node.Consistent depth)
    (bound : tree.toList.length + (Node.elements nodes).length < UInt64.size) :
    tree.pushBackAllReach nodes ≤ 63 - depth := by
  induction nodes generalizing tree with
  | nil => exact Nat.zero_le _
  | cons node rest ih =>
    rw [List.forall_mem_cons] at hn
    rw [Node.elements_cons, List.length_append] at bound
    have grown : (tree.pushBack node).toList.length + (Node.elements rest).length < UInt64.size := by
      rw [toList_pushBack, List.length_append]
      omega
    refine Nat.max_le.mpr ⟨?_, ih (h.pushBack hn.1) hn.2 grown⟩
    calc
      tree.pushBackReach ≤ tree.height := pushBackReach_le tree
      _ ≤ 63 - depth := h.height_le (by omega)

theorem Tree.Consistent.buildReach_le {nodes : List (Node α)} (h : ∀ node ∈ nodes, node.Consistent depth)
    (bound : (Node.elements nodes).length < UInt64.size) : Tree.buildReach nodes ≤ 63 - depth := by
  have built := Tree.Consistent.build h
  calc
    Tree.buildReach nodes ≤ (Tree.build nodes).height := Tree.buildReach_le nodes
    _ ≤ 63 - depth := built.height_le (by rwa [built.toList_eq, nodes_build])

theorem Tree.Consistent.levelLeftReach_le {middle : Tree α} (hm : middle.Consistent (depth + 1))
    (bound : middle.toList.length < UInt64.size) (room : depth < 63) (before : List (Node α)) :
    Tree.levelLeftReach before middle ≤ 63 - depth := by
  have popped := Nat.le_trans middle.popFrontReach_le (hm.height_le bound)
  unfold Tree.levelLeftReach
  split <;> omega

theorem Tree.Consistent.levelRightReach_le {middle : Tree α} (hm : middle.Consistent (depth + 1))
    (bound : middle.toList.length < UInt64.size) (room : depth < 63) (after : List (Node α)) :
    Tree.levelRightReach middle after ≤ 63 - depth := by
  have popped := Nat.le_trans middle.popBackReach_le (hm.height_le bound)
  unfold Tree.levelRightReach
  split <;> omega

/-- Joining goes as far as the two spines do together, and then pushes into what is left of one of them. -/
theorem Tree.Consistent.joinReach_le {left right : Tree α} {between : List (Node α)}
    (hl : left.Consistent depth) (hb : ∀ node ∈ between, node.Consistent depth)
    (hr : right.Consistent depth)
    (bound : left.toList.length + (Node.elements between).length + right.toList.length < UInt64.size) :
    ∃ reach, left.joinReach between right = .ok reach ∧ reach ≤ 63 - depth := by
  fun_induction joinReach left between right generalizing depth with
  | case1 between right => exact ⟨_, rfl, hr.pushFrontAllReach_le hb (by omega)⟩
  | case2 node between => exact ⟨_, rfl, hl.pushBackAllReach_le hb (by omega)⟩
  | case3 size outer middle inner between => exact ⟨_, rfl, hl.pushBackAllReach_le hb (by omega)⟩
  | case4 node between right _ =>
    refine ⟨_, rfl, hr.pushFrontAllReach_le (List.forall_mem_cons.mpr ⟨hl, hb⟩) ?_⟩
    rw [Node.elements_cons, List.length_append]
    exact bound
  | case5 size outer middle inner between node =>
    refine ⟨_, rfl, hl.pushBackAllReach_le (List.forall_mem_append.mpr ⟨hb, ?_⟩) ?_⟩
    · intro n mem
      rw [List.mem_singleton] at mem
      exact mem ▸ hr
    · have last : Node.elements [node] = (Tree.single node).toList := List.append_nil _
      rw [Node.elements_append, List.length_append, last]
      omega
  | case6 _ leftOuter leftMiddle leftInner between _ rightInner rightMiddle rightOuter ih =>
    have room := hl.depth_lt (by omega)
    obtain ⟨-, hlm, hli, -⟩ := hl
    obtain ⟨hri, hrm, -, -⟩ := hr
    obtain ⟨branches, grouped, -, hbranches, kept⟩ := hli.regroup_between hb hri
    simp only [toList, List.length_append] at bound
    obtain ⟨reach, inner, within⟩ := ih branches hlm hbranches hrm (by omega)
    refine ⟨reach + 1, ?_, by omega⟩
    rw [grouped, ok_bind, inner]
    rfl

section

variable [Arithmetic] [Arithmetic.Exact]

theorem Node.Consistent.lookupReach {node : Node α} (h : node.Consistent depth)
    (bound : node.toList.length < UInt64.size) {i : Nat} (inside : i < node.toList.length) :
    node.lookupReach (.ofNat i) = .ok depth := by
  induction node generalizing depth i with
  | leaf element =>
    cases depth with
    | zero => rfl
    | succ depth => exact h.elim
  | two size first second ihf ihs =>
    cases depth with
    | zero => exact h.elim
    | succ depth =>
      obtain ⟨hf, hs, -⟩ := h
      simp only [toList, List.length_append] at bound inside
      rw [Node.lookupReach, within_or_past hf.size_eq (by omega) (by omega)]
      by_cases inFirst : i < first.toList.length
      · rw [if_pos inFirst, ihf hf (by omega) inFirst, map_ok]
      · rw [if_neg inFirst, if_pos ((ofNat_lt_size_iff hs.size_eq (by omega) (by omega)).mpr (by omega)),
          ihs hs (by omega) (by omega), map_ok]
  | three size first second third ihf ihs iht =>
    cases depth with
    | zero => exact h.elim
    | succ depth =>
      obtain ⟨hf, hs, ht, -⟩ := h
      simp only [toList, List.length_append] at bound inside
      rw [Node.lookupReach, within_or_past hf.size_eq (by omega) (by omega)]
      by_cases inFirst : i < first.toList.length
      · rw [if_pos inFirst, ihf hf (by omega) inFirst, map_ok]
      · rw [if_neg inFirst, within_or_past hs.size_eq (by omega) (by omega)]
        by_cases inSecond : i - first.toList.length < second.toList.length
        · rw [if_pos inSecond, ihs hs (by omega) inSecond, map_ok]
        · rw [if_neg inSecond, if_pos ((ofNat_lt_size_iff ht.size_eq (by omega) (by omega)).mpr (by omega)),
            iht ht (by omega) (by omega), map_ok]

theorem Tree.getReach_le (tree : Tree α) (index : UInt64) :
    ∃ reach, tree.getReach index = .ok reach ∧ reach ≤ tree.height := by
  induction tree generalizing index with
  | empty | single node => exact ⟨0, rfl, Nat.zero_le _⟩
  | deep size left middle right ih =>
    rw [getReach]
    by_cases inside : index < size
    · by_cases inLeft : index < left.size
      · exact ⟨0, by rw [if_pos inside, if_pos inLeft], Nat.zero_le _⟩
      · rw [if_pos inside, if_neg inLeft, minus_of_le (UInt64.not_lt.mp inLeft), ok_bind]
        by_cases inMiddle : index - left.size < middle.size
        · obtain ⟨reach, inner, within⟩ := ih (index - left.size)
          refine ⟨reach + 1, ?_, Nat.succ_le_succ within⟩
          rw [if_pos inMiddle, inner]
          rfl
        · exact ⟨0, by rw [if_neg inMiddle], Nat.zero_le _⟩
    · exact ⟨0, by rw [if_neg inside], Nat.zero_le _⟩

omit [Arithmetic] [Arithmetic.Exact] in
theorem Cut.Divides.buildReach_le {digit : Digit α} {cut : Cut (List (Node α)) α} {i : Nat}
    (h : cut.Divides id digit.nodes i) (hd : digit.Consistent depth)
    (bound : digit.toList.length < UInt64.size) :
    Tree.buildReach cut.before ≤ 63 - depth ∧ Tree.buildReach cut.after ≤ 63 - depth := by
  have parts : digit.nodes = cut.before ++ cut.node :: cut.after := h.nodes_eq
  rw [Digit.Consistent, parts, List.forall_mem_append, List.forall_mem_cons] at hd
  rw [Digit.toList_eq, parts, Node.elements_append, Node.elements_cons, List.length_append,
    List.length_append] at bound
  exact ⟨Tree.Consistent.buildReach_le hd.1 (by omega),
    Tree.Consistent.buildReach_le hd.2.2 (by omega)⟩

/-- Splitting goes down to where the index falls and, on the way back, as far as the sides are refilled. -/
theorem Tree.Consistent.splitReach_le {tree : Tree α} (h : tree.Consistent depth)
    (bound : tree.toList.length < UInt64.size) {i : Nat} (hi : i < UInt64.size) :
    ∃ reach, tree.splitReach (.ofNat i) = .ok reach ∧ reach ≤ 63 - depth := by
  induction tree generalizing depth i with
  | empty | single node => exact ⟨0, rfl, Nat.zero_le _⟩
  | deep size left middle right ih =>
    have room := h.depth_lt bound
    have sized : size = .ofNat (Tree.deep size left middle right).toList.length := h.size_eq
    have whole := ofNat_lt_size_iff sized hi bound
    rw [Tree.splitReach]
    by_cases inside : i < (Tree.deep size left middle right).toList.length
    case neg => exact ⟨0, if_neg (mt whole.mp inside), Nat.zero_le _⟩
    rw [if_pos (whole.mpr inside)]
    obtain ⟨hl, hm, hr, -⟩ := h
    simp only [toList, List.length_append] at bound inside
    rw [within_or_past hl.size_eq hi (by omega)]
    by_cases inLeft : i < left.toList.length
    · obtain ⟨cut, found, divides, -⟩ := hl.split (by omega) inLeft
      rw [if_pos inLeft, found, ok_bind]
      refine ⟨_, rfl, Nat.max_le.mpr ⟨?_, ?_⟩⟩
      · exact (divides.buildReach_le hl (by omega)).1
      · exact hm.levelLeftReach_le (by omega) room cut.after
    · obtain ⟨pastLeft, rfl⟩ := Nat.exists_eq_add_of_le (Nat.not_lt.mp inLeft)
      rw [if_neg inLeft, Nat.add_sub_cancel_left, within_or_past hm.size_eq (by omega) (by omega)]
      by_cases inMiddle : pastLeft < middle.toList.length
      · obtain ⟨reach, reached, within⟩ := ih hm (by omega) (i := pastLeft) (by omega)
        obtain ⟨outer, cutOuter, splits⟩ := hm.split? (by omega) inMiddle
        have lengths := splits.length_eq hm
        obtain ⟨digit, cut, before, after, unpacked, found, -⟩ :=
          @Tree.Splits.unpack _ _ _ _ size _ _ _ _ _ splits hl hm hr (by omega)
        rw [if_pos inMiddle, reached, ok_bind, cutOuter, ok_bind]
        simp only [unpacked, found, ok_bind]
        refine ⟨_, rfl, ?_⟩
        refine Nat.max_le.mpr ⟨by omega, Nat.max_le.mpr ⟨?_, ?_⟩⟩
        · exact splits.before.levelRightReach_le (by omega) room cut.before
        · exact splits.after.levelLeftReach_le (by omega) room cut.after
      · obtain ⟨pastMiddle, rfl⟩ := Nat.exists_eq_add_of_le (Nat.not_lt.mp inMiddle)
        obtain ⟨cut, found, divides, -⟩ := hr.split (by omega) (i := pastMiddle) (by omega)
        rw [if_neg inMiddle, Nat.add_sub_cancel_left, found, ok_bind]
        refine ⟨_, rfl, Nat.max_le.mpr ⟨?_, ?_⟩⟩
        · exact hm.levelRightReach_le (by omega) room cut.before
        · exact (divides.buildReach_le hr (by omega)).2

end

section

variable [Arithmetic]

/-- Whatever is asked of the tree is given from no further down the levels, or inside a node, than this. -/
structure Tree.ReachesWithin (limit : Nat) (tree : Tree α) : Prop where
  height : tree.height ≤ limit
  pushFront (node : Node α) : (tree.pushFrontDescent node).Within limit (.ok (tree.pushFront node))
  pushBack (node : Node α) : (tree.pushBackDescent node).Within limit (.ok (tree.pushBack node))
  popFront : tree.popFrontDescent.Within limit tree.popFront
  popBack : tree.popBackDescent.Within limit tree.popBack
  get (index : UInt64) : (tree.getDescent index).Within limit (tree.get? index)
  split (index : UInt64) : (tree.splitDescent index).Within limit (tree.split? index)
  lookup (level : Nat) (node : Node α) (i : Nat) : node ∈ tree.nodesAt level → i < node.toList.length →
    (node.lookupDescent (.ofNat i)).outcome = node.lookup (.ofNat i) ∧
      (node.lookupDescent (.ofNat i)).reach? = some level ∧ level ≤ limit

variable [Arithmetic.Exact]

theorem Tree.Consistent.popFrontDescent_within {tree : Tree α} (h : tree.Consistent depth)
    (bound : tree.toList.length < UInt64.size) : tree.popFrontDescent.Within (63 - depth) tree.popFront := by
  have within := Nat.le_trans tree.popFrontReach_le (h.height_le bound)
  obtain ⟨popped, gone⟩ : ∃ popped, tree.popFront = .ok popped := by
    by_cases nothing : tree = empty
    · subst nothing
      exact ⟨none, rfl⟩
    · obtain ⟨node, rest, popped, -⟩ := h.popsFront bound nothing
      exact ⟨some (node, rest), popped⟩
  exact .of_reach tree.outcome_popFrontDescent tree.popFrontDescent_eq gone within

theorem Tree.Consistent.popBackDescent_within {tree : Tree α} (h : tree.Consistent depth)
    (bound : tree.toList.length < UInt64.size) : tree.popBackDescent.Within (63 - depth) tree.popBack := by
  have within := Nat.le_trans tree.popBackReach_le (h.height_le bound)
  obtain ⟨popped, gone⟩ : ∃ popped, tree.popBack = .ok popped := by
    by_cases nothing : tree = empty
    · subst nothing
      exact ⟨none, rfl⟩
    · obtain ⟨node, rest, popped, -⟩ := h.popsBack bound nothing
      exact ⟨some (node, rest), popped⟩
  exact .of_reach tree.outcome_popBackDescent tree.popBackDescent_eq gone within

theorem Tree.Consistent.getDescent_within {tree : Tree α} (h : tree.Consistent depth)
    (bound : tree.toList.length < UInt64.size) (index : UInt64) :
    (tree.getDescent index).Within (63 - depth) (tree.get? index) := by
  obtain ⟨reach, reached, le⟩ := tree.getReach_le index
  have found := h.get? bound index.toNat_lt_size
  have counted := tree.getDescent_eq index
  rw [UInt64.ofNat_toNat] at found
  rw [reached] at counted
  exact .of_reach (tree.outcome_getDescent index) counted found (Nat.le_trans le (h.height_le bound))

theorem Tree.Consistent.splitDescent_within {tree : Tree α} (h : tree.Consistent depth)
    (bound : tree.toList.length < UInt64.size) (index : UInt64) :
    (tree.splitDescent index).Within (63 - depth) (tree.split? index) := by
  obtain ⟨reach, reached, le⟩ := h.splitReach_le bound index.toNat_lt_size
  obtain ⟨found, cut⟩ : ∃ found, tree.split? (.ofNat index.toNat) = .ok found := by
    by_cases inside : index.toNat < tree.toList.length
    · obtain ⟨cut, found, -⟩ := h.split? bound inside
      exact ⟨some cut, found⟩
    · exact ⟨none, h.split?_none bound index.toNat_lt_size inside⟩
  have counted := tree.splitDescent_eq index
  rw [UInt64.ofNat_toNat] at reached cut
  rw [reached] at counted
  exact .of_reach (tree.outcome_splitDescent index) counted cut le

omit [Arithmetic] [Arithmetic.Exact] in
theorem Tree.Consistent.joinDescent_within {left right : Tree α} (hl : left.Consistent depth)
    (hr : right.Consistent depth) (bound : left.toList.length + right.toList.length < UInt64.size) :
    (left.joinDescent [] right).Within (63 - depth) (left.join [] right) := by
  have nothing : ∀ node ∈ ([] : List (Node α)), node.Consistent depth := fun _ mem => absurd mem List.not_mem_nil
  obtain ⟨reach, reached, le⟩ := hl.joinReach_le nothing hr bound
  obtain ⟨tree, joined, -⟩ := hl.join nothing hr
  have counted := joinDescent_eq left [] right
  rw [reached] at counted
  exact .of_reach (outcome_joinDescent left [] right) counted joined le

/-- A lookup in a node of the level goes through as many branches as the level is deep. -/
theorem Tree.Consistent.reach?_lookupDescent {tree : Tree α} (h : tree.Consistent 0)
    (bound : tree.toList.length < UInt64.size) {level i : Nat} {node : Node α} (mem : node ∈ tree.nodesAt level)
    (inside : i < node.toList.length) : (node.lookupDescent (.ofNat i)).reach? = some level := by
  have deep := (h.of_mem_nodesAt mem).1
  rw [Nat.zero_add] at deep
  have small := Nat.lt_of_le_of_lt (Tree.length_le_of_mem_nodesAt mem) bound
  rw [Node.lookupDescent_eq, deep.lookupReach small inside, deep.lookup small (List.getElem?_eq_getElem inside)]
  rfl

theorem Tree.Consistent.reachesWithin {tree : Tree α} (h : tree.Consistent 0)
    (bound : tree.toList.length < UInt64.size) : tree.ReachesWithin 63 where
  height := h.height_le bound
  pushFront node := .of_reach (tree.outcome_pushFrontDescent node) (tree.pushFrontDescent_eq node) rfl
    (Nat.le_trans tree.pushFrontReach_le (h.height_le bound))
  pushBack node := .of_reach (tree.outcome_pushBackDescent node) (tree.pushBackDescent_eq node) rfl
    (Nat.le_trans tree.pushBackReach_le (h.height_le bound))
  popFront := h.popFrontDescent_within bound
  popBack := h.popBackDescent_within bound
  get := h.getDescent_within bound
  split := h.splitDescent_within bound
  lookup _ node i mem inside := ⟨node.outcome_lookupDescent (.ofNat i), h.reach?_lookupDescent bound mem inside,
    Nat.le_trans (h.of_mem_nodesAt mem).2 (h.height_le bound)⟩

variable [Element α] [Json.Spelling] [Arithmetic.Modular]

/-- A level holds at least two nodes and at most eight, those k levels down between 2^k and 3^k elements; and nothing
done to a tree of fewer than 2^64 elements goes deeper than 63 levels. -/
theorem height_logarithmic {program : List (Command α)} {tree : Tree α}
    (occurs : tree.OccursIn program) :
    2 ^ (tree.height + 1) - 2 ≤ tree.toList.length ∧
      tree.toList.length ≤ 5 * 3 ^ tree.height - 4 ∧
      (∀ level, ∀ node ∈ tree.nodesAt level,
        2 ^ level ≤ node.toList.length ∧ node.toList.length ≤ 3 ^ level) ∧
      (tree.toList.length < UInt64.size →
        tree.size.toNat = tree.toList.length ∧ tree.ReachesWithin 63) ∧
      (∀ (program' : List (Command α)) (other : Tree α), other.OccursIn program' →
        tree.toList.length + other.toList.length < UInt64.size →
          (tree.joinDescent [] other).Within 63 (tree.join [] other)) ∧
      ∀ elements : List α, elements.length < UInt64.size →
        (Tree.buildDescent (elements.map .leaf)).Within 63 (.ok (Tree.build (elements.map .leaf))) := by
  have h := occurs.consistent
  have thin := h.length_ge
  have wide := h.length_le
  simp only [Nat.zero_add, Nat.pow_zero, Nat.pow_one] at thin wide
  refine ⟨by omega, by omega, ?_, ?_, ?_, ?_⟩
  · intro level node mem
    have deep := (h.of_mem_nodesAt mem).1
    rw [Nat.zero_add] at deep
    exact ⟨deep.length_ge, deep.length_le⟩
  · intro bound
    exact ⟨h.toNat_size bound, h.reachesWithin bound⟩
  · intro program' other occurs' bound
    exact h.joinDescent_within occurs'.consistent bound
  · intro elements bound
    have leaves := Sequence.forall_leaf_consistent elements
    rw [← Sequence.elements_map_leaf elements] at bound
    exact .of_reach (Tree.outcome_buildDescent _) (Tree.buildDescent_eq _) rfl
      (Tree.Consistent.buildReach_le leaves bound)

end

theorem splitTwice_height_logarithmic :
    let tree := ((Workspace.empty.run splitTwice).2.sequence "b").tree
    tree.height = 2 ∧ 2 ^ (2 + 1) - 2 ≤ tree.toList.length ∧ tree.toList.length ≤ 5 * 3 ^ 2 - 4 ∧
      tree.size.toNat = tree.toList.length ∧ tree.ReachesWithin 63 ∧
      (tree.joinDescent [] tree).Within 63 (tree.join [] tree) ∧
      (Tree.buildDescent ([1, 2, 3].map .leaf : List (Node Int64))).Within 63
        (.ok (Tree.build ([1, 2, 3].map .leaf))) ∧
      (tree.getDescent 4).reach? = some 1 ∧ (tree.splitDescent 4).reach? = some 2 ∧
      (tree.joinDescent [] tree).reach? = some 2 ∧
      (tree.pushFrontAllDescent (.replicate 9 (.leaf 0))).reach? = some 2 ∧
      (tree.pushBackAllDescent (.replicate 11 (.leaf 0))).reach? = some 2 := by
  intro tree
  have occurs : tree.OccursIn splitTwice := .kept "b"
  have two : tree.height = 2 := by decide +kernel
  have small : tree.toList.length + tree.toList.length < UInt64.size := by decide +kernel
  obtain ⟨thin, wide, -, counted, joined, built⟩ := height_logarithmic occurs
  rw [two] at thin wide
  obtain ⟨exact_size, within⟩ := counted (by omega)
  refine ⟨two, thin, wide, exact_size, within, joined splitTwice tree occurs small,
    built [1, 2, 3] (by decide), ?_, ?_, ?_, ?_, ?_⟩ <;> decide +kernel

end IndexedSequence
