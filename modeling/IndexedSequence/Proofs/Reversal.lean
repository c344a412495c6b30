import IndexedSequence.Proofs.Consistency

set_option autoImplicit false

namespace IndexedSequence

variable {α : Type} {depth : Nat}

@[simp]
theorem Node.toList_reversed (node : Node α) : node.reversed.toList = node.toList.reverse := by
  induction node with
  | leaf element => rfl
  | two size first second ihf ihs =>
    rw [reversed, pair, toList, toList, ihf, ihs, List.reverse_append]
  | three size first second third ihf ihs iht =>
    calc
      (three size first second third).reversed.toList =
          third.toList.reverse ++ (second.toList.reverse ++ first.toList.reverse) := by
        rw [reversed, triple, toList, ihf, ihs, iht]
      _ = (three size first second third).toList.reverse := by
        rw [toList, List.reverse_append, List.reverse_append, List.append_assoc]

theorem Node.Consistent.reversed {node : Node α} (h : node.Consistent depth) :
    node.reversed.Consistent depth := by
  induction node generalizing depth with
  | leaf element => exact h
  | two size first second ihf ihs =>
    cases depth with
    | zero => exact h.elim
    | succ depth => exact .pair (ihs h.2.1) (ihf h.1)
  | three size first second third ihf ihs iht =>
    cases depth with
    | zero => exact h.elim
    | succ depth => exact .triple (iht h.2.2.1) (ihs h.2.1) (ihf h.1)

theorem Node.Consistent.size_reversed {node : Node α} (h : node.Consistent depth) :
    node.reversed.size = node.size := by
  rw [h.reversed.size_eq, h.size_eq, toList_reversed, List.length_reverse]

/-- Counting afresh puts back the sizes that were there, since those are exact. -/
theorem Node.Consistent.reversed_reversed {node : Node α} (h : node.Consistent depth) :
    node.reversed.reversed = node := by
  induction node generalizing depth with
  | leaf element => rfl
  | two size first second ihf ihs =>
    cases depth with
    | zero => exact h.elim
    | succ depth =>
      obtain ⟨hf, hs, sized⟩ := h
      change Node.pair first.reversed.reversed second.reversed.reversed = _
      rw [ihf hf, ihs hs, Node.pair, hf.size_eq, hs.size_eq, sized, UInt64.ofNat_add]
  | three size first second third ihf ihs iht =>
    cases depth with
    | zero => exact h.elim
    | succ depth =>
      obtain ⟨hf, hs, ht, sized⟩ := h
      change Node.triple first.reversed.reversed second.reversed.reversed third.reversed.reversed = _
      calc
        Node.triple first.reversed.reversed second.reversed.reversed third.reversed.reversed =
            Node.triple first second third := by rw [ihf hf, ihs hs, iht ht]
        _ = .three size first second third := by
          rw [Node.triple, hf.size_eq, hs.size_eq, ht.size_eq, sized, UInt64.ofNat_add, UInt64.ofNat_add]

theorem Node.children_reversed (node : Node α) :
    node.reversed.children = (node.children.map reversed).reverse := by
  cases node <;> rfl

theorem Digit.nodes_reversed (digit : Digit α) :
    digit.reversed.nodes = (digit.nodes.map Node.reversed).reverse := by
  cases digit <;> rfl

@[simp]
theorem Digit.toList_reversed (digit : Digit α) : digit.reversed.toList = digit.toList.reverse := by
  cases digit <;> simp [reversed, toList, nodes, Node.elements]

theorem Digit.Consistent.reversed {digit : Digit α} (h : digit.Consistent depth) :
    digit.reversed.Consistent depth := by
  intro node mem
  rw [nodes_reversed, List.mem_reverse, List.mem_map] at mem
  obtain ⟨node, inside, rfl⟩ := mem
  exact (h node inside).reversed

theorem Digit.Consistent.reversed_reversed {digit : Digit α} (h : digit.Consistent depth) :
    digit.reversed.reversed = digit := by
  have restored : ∀ node ∈ digit.nodes, node.reversed.reversed = node :=
    fun node mem => (h node mem).reversed_reversed
  cases digit <;> simp_all [Digit.reversed, Digit.nodes]

@[simp]
theorem Tree.toList_reversed (tree : Tree α) : tree.reversed.toList = tree.toList.reverse := by
  induction tree with
  | empty => rfl
  | single node => exact node.toList_reversed
  | deep size left middle right ih =>
    calc
      (deep size left middle right).reversed.toList =
          right.toList.reverse ++ (middle.toList.reverse ++ left.toList.reverse) := by
        rw [reversed, toList, ih, Digit.toList_reversed, Digit.toList_reversed]
      _ = (deep size left middle right).toList.reverse := by
        rw [toList, List.reverse_append, List.reverse_append, List.append_assoc]

theorem Tree.Consistent.reversed {tree : Tree α} (h : tree.Consistent depth) :
    tree.reversed.Consistent depth := by
  induction tree generalizing depth with
  | empty => trivial
  | single node => exact Node.Consistent.reversed h
  | deep size left middle right ih =>
    obtain ⟨hl, hm, hr, sized⟩ := h
    refine ⟨hr.reversed, ih hm, hl.reversed, ?_⟩
    simp only [Digit.toList_reversed, toList_reversed, List.length_reverse]
    rw [sized]
    congr 1
    omega

theorem Tree.Consistent.size_reversed {tree : Tree α} (h : tree.Consistent depth) :
    tree.reversed.size = tree.size := by
  rw [h.reversed.size_eq, h.size_eq, toList_reversed, List.length_reverse]

theorem Tree.nodes_reversed (tree : Tree α) :
    tree.reversed.nodes = (tree.nodes.map Node.reversed).reverse := by
  induction tree with
  | empty => rfl
  | single node => rfl
  | deep size left middle right ih =>
    -- The branches of the middle come in reverse order, and each with its children in reverse order.
    have unpacked (branches : List (Node α)) :
        (branches.map Node.reversed).reverse.flatMap Node.children =
          ((branches.flatMap Node.children).map Node.reversed).reverse := by
      rw [List.map_flatMap, List.reverse_flatMap, ← List.map_reverse, List.flatMap_map]
      exact congrArg (branches.reverse.flatMap ·) (funext Node.children_reversed)
    calc
      (deep size left middle right).reversed.nodes =
          (right.nodes.map Node.reversed).reverse ++
            (((middle.nodes.flatMap Node.children).map Node.reversed).reverse ++
              (left.nodes.map Node.reversed).reverse) := by
        rw [reversed, nodes, ih, unpacked, Digit.nodes_reversed, Digit.nodes_reversed]
      _ = ((deep size left middle right).nodes.map Node.reversed).reverse := by
        rw [nodes, List.map_append, List.map_append, List.reverse_append, List.reverse_append, List.append_assoc]

theorem Tree.Consistent.reversed_reversed {tree : Tree α} (h : tree.Consistent depth) :
    tree.reversed.reversed = tree := by
  induction tree generalizing depth with
  | empty => rfl
  | single node => exact congrArg Tree.single (Node.Consistent.reversed_reversed h)
  | deep size left middle right ih =>
    obtain ⟨hl, hm, hr, -⟩ := h
    rw [Tree.reversed, Tree.reversed, hl.reversed_reversed, ih hm, hr.reversed_reversed]

end IndexedSequence
