import IndexedSequence.Proofs.Consistency
import IndexedSequence.Proofs.Outcome
import IndexedSequence.Tree.Ends

set_option autoImplicit false

namespace IndexedSequence

variable {α : Type} {depth : Nat}

theorem Digit.nodes_prepend? {digit grown : Digit α} {node : Node α} (roomy : digit.prepend? node = some grown) :
    grown.nodes = node :: digit.nodes := by
  cases digit with
  | one a | two a b | three a b c =>
    cases roomy
    rfl
  | four a b c d => cases roomy

theorem Digit.nodes_append? {digit grown : Digit α} {node : Node α} (roomy : digit.append? node = some grown) :
    grown.nodes = digit.nodes ++ [node] := by
  cases digit with
  | one a | two a b | three a b c =>
    cases roomy
    rfl
  | four a b c d => cases roomy

section

variable {size : UInt64} {left right grown : Digit α} {middle : Tree α} {node : Node α}

theorem Tree.pushFront_of_prepend? (roomy : left.prepend? node = some grown) :
    (deep size left middle right).pushFront node = deep (size + node.size) grown middle right := by
  cases left with
  | one a | two a b | three a b c =>
    cases roomy
    rfl
  | four a b c d => cases roomy

theorem Tree.pushBack_of_append? (roomy : right.append? node = some grown) :
    (deep size left middle right).pushBack node = deep (size + node.size) left middle grown := by
  cases right with
  | one a | two a b | three a b c =>
    cases roomy
    rfl
  | four a b c d => cases roomy

/-- A digit without room is a full one, and three of its nodes are carried into the middle. -/
theorem Tree.pushFront_of_full (full : left.prepend? node = none) :
    ∃ a b c d, left = .four a b c d ∧ (deep size left middle right).pushFront node =
      deep (size + node.size) (.two node a) (middle.pushFront (.triple b c d)) right := by
  cases left with
  | one a | two a b | three a b c => cases full
  | four a b c d => exact ⟨a, b, c, d, rfl, rfl⟩

theorem Tree.pushBack_of_full (full : right.append? node = none) :
    ∃ a b c d, right = .four a b c d ∧ (deep size left middle right).pushBack node =
      deep (size + node.size) left (middle.pushBack (.triple a b c)) (.two d node) := by
  cases right with
  | one a | two a b | three a b c => cases full
  | four a b c d => exact ⟨a, b, c, d, rfl, rfl⟩

end

@[simp]
theorem Tree.nodes_pushFront (tree : Tree α) (node : Node α) :
    (tree.pushFront node).nodes = node :: tree.nodes := by
  induction tree generalizing node with
  | empty => rfl
  | single a => rfl
  | deep size left middle right ih =>
    cases room : left.prepend? node with
    | some grown =>
      rw [pushFront_of_prepend? room, nodes, nodes, Digit.nodes_prepend? room]
      rfl
    | none =>
      obtain ⟨a, b, c, d, rfl, carried⟩ := pushFront_of_full room
      rw [carried, nodes, nodes, ih]
      rfl

@[simp]
theorem Tree.nodes_pushBack (tree : Tree α) (node : Node α) :
    (tree.pushBack node).nodes = tree.nodes ++ [node] := by
  induction tree generalizing node with
  | empty => rfl
  | single a => rfl
  | deep size left middle right ih =>
    cases room : right.append? node with
    | some grown =>
      rw [pushBack_of_append? room, nodes, nodes, Digit.nodes_append? room]
      simp only [List.append_assoc]
    | none =>
      obtain ⟨a, b, c, d, rfl, carried⟩ := pushBack_of_full room
      rw [carried, nodes, nodes, ih]
      simp [Digit.nodes, Node.children, Node.triple]

@[simp]
theorem Tree.toList_pushFront (tree : Tree α) (node : Node α) :
    (tree.pushFront node).toList = node.toList ++ tree.toList := by
  induction tree generalizing node with
  | empty => simp [pushFront, toList]
  | single a => simp [pushFront, toList, Digit.toList, Digit.nodes, Node.elements]
  | deep size left middle right ih =>
    cases room : left.prepend? node with
    | some grown =>
      rw [pushFront_of_prepend? room, toList, toList, Digit.toList_eq grown, Digit.nodes_prepend? room,
        Node.elements_cons, Digit.toList_eq left, List.append_assoc]
    | none =>
      obtain ⟨a, b, c, d, rfl, carried⟩ := pushFront_of_full room
      rw [carried]
      simp [toList, Digit.toList, Digit.nodes, Node.elements, Node.triple, Node.toList, ih]

@[simp]
theorem Tree.toList_pushBack (tree : Tree α) (node : Node α) :
    (tree.pushBack node).toList = tree.toList ++ node.toList := by
  induction tree generalizing node with
  | empty => simp [pushBack, toList]
  | single a => simp [pushBack, toList, Digit.toList, Digit.nodes, Node.elements]
  | deep size left middle right ih =>
    cases room : right.append? node with
    | some grown =>
      rw [pushBack_of_append? room, toList, toList, Digit.toList_eq grown, Digit.nodes_append? room,
        Node.elements_append, Digit.toList_eq right]
      simp [Node.elements]
    | none =>
      obtain ⟨a, b, c, d, rfl, carried⟩ := pushBack_of_full room
      rw [carried]
      simp [toList, Digit.toList, Digit.nodes, Node.elements, Node.triple, Node.toList, ih]

theorem Tree.size_pushFront (tree : Tree α) (node : Node α) :
    (tree.pushFront node).size = tree.size + node.size := by
  cases tree with
  | empty => simp [pushFront, size]
  | single a => simp [pushFront, size, UInt64.add_comm]
  | deep size left middle right => cases left <;> rfl

theorem Tree.size_pushBack (tree : Tree α) (node : Node α) :
    (tree.pushBack node).size = tree.size + node.size := by
  cases tree with
  | empty => simp [pushBack, size]
  | single a => rfl
  | deep size left middle right => cases right <;> rfl

theorem Tree.Consistent.deep {size : UInt64} {left right : Digit α} {middle : Tree α}
    (hl : left.Consistent depth) (hm : middle.Consistent (depth + 1)) (hr : right.Consistent depth)
    (hs : size = .ofNat (Tree.deep size left middle right).toList.length) :
    (Tree.deep size left middle right).Consistent depth := by
  refine ⟨hl, hm, hr, hs.trans ?_⟩
  rw [Tree.toList, List.length_append, List.length_append, Nat.add_assoc]

theorem Tree.Consistent.size_pushFront {tree : Tree α} {node : Node α} (h : tree.Consistent depth)
    (hn : node.Consistent depth) :
    (tree.pushFront node).size = .ofNat (tree.pushFront node).toList.length := by
  calc
    (tree.pushFront node).size = .ofNat tree.toList.length + .ofNat node.toList.length := by
      rw [Tree.size_pushFront, h.size_eq, hn.size_eq]
    _ = .ofNat (node.toList.length + tree.toList.length) := by rw [Nat.add_comm, UInt64.ofNat_add]
    _ = .ofNat (tree.pushFront node).toList.length := by rw [toList_pushFront, List.length_append]

theorem Tree.Consistent.size_pushBack {tree : Tree α} {node : Node α} (h : tree.Consistent depth)
    (hn : node.Consistent depth) :
    (tree.pushBack node).size = .ofNat (tree.pushBack node).toList.length := by
  calc
    (tree.pushBack node).size = .ofNat tree.toList.length + .ofNat node.toList.length := by
      rw [Tree.size_pushBack, h.size_eq, hn.size_eq]
    _ = .ofNat (tree.pushBack node).toList.length := by
      rw [toList_pushBack, List.length_append, UInt64.ofNat_add]

theorem Tree.Consistent.pushFront {tree : Tree α} {node : Node α} (h : tree.Consistent depth)
    (hn : node.Consistent depth) : (tree.pushFront node).Consistent depth := by
  have sized := h.size_pushFront hn
  induction tree generalizing depth node with
  | empty => exact hn
  | single a =>
    refine Tree.Consistent.deep ?_ trivial ?_ sized
    · simpa [Digit.Consistent, Digit.nodes] using hn
    · simpa [Digit.Consistent, Digit.nodes, Tree.Consistent] using h
  | deep size left middle right ih =>
    obtain ⟨hl, hm, hr, -⟩ := h
    cases room : left.prepend? node with
    | some grown =>
      rw [Tree.pushFront_of_prepend? room] at sized ⊢
      refine Tree.Consistent.deep ?_ hm hr sized
      rw [Digit.Consistent, Digit.nodes_prepend? room]
      exact List.forall_mem_cons.mpr ⟨hn, hl⟩
    | none =>
      obtain ⟨a, b, c, d, rfl, full⟩ := Tree.pushFront_of_full room
      rw [full] at sized ⊢
      simp only [Digit.Consistent, Digit.nodes, List.forall_mem_cons] at hl
      have carried : (Node.triple b c d).Consistent (depth + 1) := .triple hl.2.1 hl.2.2.1 hl.2.2.2.1
      refine Tree.Consistent.deep ?_ (ih hm carried (hm.size_pushFront carried)) hr sized
      simp [Digit.Consistent, Digit.nodes, hn, hl.1]

theorem Tree.Consistent.pushBack {tree : Tree α} {node : Node α} (h : tree.Consistent depth)
    (hn : node.Consistent depth) : (tree.pushBack node).Consistent depth := by
  have sized := h.size_pushBack hn
  induction tree generalizing depth node with
  | empty => exact hn
  | single a =>
    refine Tree.Consistent.deep ?_ trivial ?_ sized
    · simpa [Digit.Consistent, Digit.nodes, Tree.Consistent] using h
    · simpa [Digit.Consistent, Digit.nodes] using hn
  | deep size left middle right ih =>
    obtain ⟨hl, hm, hr, -⟩ := h
    cases room : right.append? node with
    | some grown =>
      rw [Tree.pushBack_of_append? room] at sized ⊢
      refine Tree.Consistent.deep hl hm ?_ sized
      rw [Digit.Consistent, Digit.nodes_append? room]
      exact List.forall_mem_append.mpr ⟨hr, List.forall_mem_singleton.mpr hn⟩
    | none =>
      obtain ⟨a, b, c, d, rfl, full⟩ := Tree.pushBack_of_full room
      rw [full] at sized ⊢
      simp only [Digit.Consistent, Digit.nodes, List.forall_mem_cons] at hr
      have carried : (Node.triple a b c).Consistent (depth + 1) := .triple hr.1 hr.2.1 hr.2.2.1
      refine Tree.Consistent.deep hl (ih hm carried (hm.size_pushBack carried)) ?_ sized
      simp [Digit.Consistent, Digit.nodes, hn, hr.2.2.2.1]

theorem Tree.nodes_pushFrontAll (tree : Tree α) (nodes : List (Node α)) :
    (tree.pushFrontAll nodes).nodes = nodes ++ tree.nodes := by
  induction nodes with
  | nil => rfl
  | cons node rest ih =>
    rw [pushFrontAll, List.foldr_cons, nodes_pushFront]
    exact congrArg (node :: ·) ih

theorem Tree.nodes_pushBackAll (tree : Tree α) (nodes : List (Node α)) :
    (tree.pushBackAll nodes).nodes = tree.nodes ++ nodes := by
  induction nodes generalizing tree with
  | nil => simp [pushBackAll]
  | cons node rest ih =>
    rw [pushBackAll, List.foldl_cons, ← pushBackAll, ih, nodes_pushBack, List.append_assoc]
    rfl

theorem Tree.toList_pushFrontAll (tree : Tree α) (nodes : List (Node α)) :
    (tree.pushFrontAll nodes).toList = Node.elements nodes ++ tree.toList := by
  induction nodes with
  | nil => rfl
  | cons node rest ih =>
    change ((tree.pushFrontAll rest).pushFront node).toList = _
    rw [toList_pushFront, ih, Node.elements_cons, List.append_assoc]

theorem Tree.Consistent.pushFrontAll {tree : Tree α} {nodes : List (Node α)}
    (h : tree.Consistent depth) (hn : ∀ node ∈ nodes, node.Consistent depth) :
    (tree.pushFrontAll nodes).Consistent depth := by
  induction nodes with
  | nil => exact h
  | cons node rest ih =>
    rw [List.forall_mem_cons] at hn
    exact (ih hn.2).pushFront hn.1

theorem Tree.Consistent.pushBackAll {tree : Tree α} {nodes : List (Node α)}
    (h : tree.Consistent depth) (hn : ∀ node ∈ nodes, node.Consistent depth) :
    (tree.pushBackAll nodes).Consistent depth := by
  induction nodes generalizing tree with
  | nil => exact h
  | cons node rest ih =>
    rw [List.forall_mem_cons] at hn
    exact ih (h.pushBack hn.1) hn.2

theorem Digit.popFront_cases (digit : Digit α) :
    (∃ node, digit = .one node) ∨
      ∃ node rest, digit.popFront = (node, some rest) ∧ digit.nodes = node :: rest.nodes := by
  cases digit with
  | one a => exact .inl ⟨a, rfl⟩
  | two a b => exact .inr ⟨a, .one b, rfl, rfl⟩
  | three a b c => exact .inr ⟨a, .two b c, rfl, rfl⟩
  | four a b c d => exact .inr ⟨a, .three b c d, rfl, rfl⟩

theorem Digit.popBack_cases (digit : Digit α) :
    (∃ node, digit = .one node) ∨
      ∃ node rest, digit.popBack = (node, some rest) ∧ digit.nodes = rest.nodes ++ [node] := by
  cases digit with
  | one a => exact .inl ⟨a, rfl⟩
  | two a b => exact .inr ⟨b, .one a, rfl, rfl⟩
  | three a b c => exact .inr ⟨c, .two a b, rfl, rfl⟩
  | four a b c d => exact .inr ⟨d, .three a b c, rfl, rfl⟩

section

variable [Arithmetic] [Arithmetic.Exact]

/-- Unless it is empty, the tree gives up its first node and a consistent rest. -/
def Tree.PopsFront (depth : Nat) (tree : Tree α) : Prop :=
  tree ≠ empty → ∃ node rest, tree.popFront = .ok (some (node, rest)) ∧
    node.Consistent depth ∧ rest.Consistent depth ∧ tree.nodes = node :: rest.nodes

def Tree.PopsBack (depth : Nat) (tree : Tree α) : Prop :=
  tree ≠ empty → ∃ node rest, tree.popBack = .ok (some (node, rest)) ∧
    node.Consistent depth ∧ rest.Consistent depth ∧ tree.nodes = rest.nodes ++ [node]

omit [Arithmetic.Exact] in
theorem Tree.PopsFront.refill {middle : Tree α} {right : Digit α} (h : middle.PopsFront (depth + 1))
    (hr : right.Consistent depth) :
    ∃ rest, (do refillLeft (← middle.popFront) right) = Except.ok rest ∧ rest.Consistent depth ∧
      rest.nodes = middle.nodes.flatMap Node.children ++ right.nodes := by
  by_cases ne : middle = empty
  · subst ne
    exact ⟨ofDigit right, rfl, .ofDigit hr, nodes_ofDigit right⟩
  · obtain ⟨branch, inner, popped, hb, hi, same⟩ := h ne
    obtain ⟨left, unpacked, children, hl⟩ := hb.ofBranch
    refine ⟨level left inner right, ?_, .level hl hi hr, ?_⟩
    · rw [popped, ok_bind, refillLeft, unpacked]
      rfl
    · rw [nodes_level, same, List.flatMap_cons, children, List.append_assoc]

omit [Arithmetic.Exact] in
theorem Tree.PopsBack.refill {left : Digit α} {middle : Tree α} (h : middle.PopsBack (depth + 1))
    (hl : left.Consistent depth) :
    ∃ rest, (do refillRight left (← middle.popBack)) = Except.ok rest ∧ rest.Consistent depth ∧
      rest.nodes = left.nodes ++ middle.nodes.flatMap Node.children := by
  by_cases ne : middle = empty
  · subst ne
    exact ⟨ofDigit left, rfl, .ofDigit hl, by simp [nodes]⟩
  · obtain ⟨branch, inner, popped, hb, hi, same⟩ := h ne
    obtain ⟨right, unpacked, children, hr⟩ := hb.ofBranch
    refine ⟨level left inner right, ?_, .level hl hi hr, ?_⟩
    · rw [popped, ok_bind, refillRight, unpacked]
      rfl
    · rw [nodes_level, same, List.flatMap_append, children, List.flatMap_singleton]

omit [Arithmetic.Exact] in
theorem Tree.Consistent.minus_size {tree : Tree α} {node : Node α} (h : tree.Consistent depth)
    (differs : Arithmetic.DiffersUpTo tree.toList.length) (hn : node.Consistent depth) {rest : Nat}
    (split : tree.toList.length = node.toList.length + rest) :
    minus tree.size node.size = .ok (.ofNat rest) := by
  rw [h.size_eq, hn.size_eq, split]
  exact differs _ _ (Nat.le_of_eq split.symm)

omit [Arithmetic.Exact] in
theorem Tree.Consistent.popsFront_of_differs {tree : Tree α} (h : tree.Consistent depth)
    (differs : Arithmetic.DiffersUpTo tree.toList.length) : tree.PopsFront depth := by
  induction tree generalizing depth with
  | empty => exact fun ne => absurd rfl ne
  | single node => exact fun _ => ⟨node, empty, rfl, h, trivial, rfl⟩
  | deep size left middle right ih =>
    intro _
    obtain ⟨hl, hm, hr, -⟩ := id h
    have inner : Arithmetic.DiffersUpTo middle.toList.length := by
      refine differs.mono ?_
      rw [toList, List.length_append, List.length_append]
      omega
    obtain ⟨node, rfl⟩ | ⟨node, digit, popped, same⟩ := left.popFront_cases
    · obtain ⟨rest, refilled, hrest, nodes⟩ := (ih hm inner).refill hr
      refine ⟨node, rest, ?_, hl node List.mem_cons_self, hrest, by rw [nodes]; rfl⟩
      simp only [popFront, Digit.popFront]
      rw [← bind_assoc, refilled]
      rfl
    · rw [Digit.Consistent, same, List.forall_mem_cons] at hl
      let kept := (digit.toList ++ (middle.toList ++ right.toList)).length
      have sized : minus size node.size = .ok (.ofNat kept) := by
        refine h.minus_size differs hl.1 ?_
        rw [toList, Digit.toList_eq, same, Node.elements_cons, List.append_assoc, List.length_append]
        rfl
      refine ⟨node, Tree.deep (.ofNat kept) digit middle right, ?_, hl.1, .deep hl.2 hm hr rfl, ?_⟩
      · simp only [popFront, popped, sized]
        rfl
      · rw [nodes, same]
        rfl

omit [Arithmetic.Exact] in
theorem Tree.Consistent.popsBack_of_differs {tree : Tree α} (h : tree.Consistent depth)
    (differs : Arithmetic.DiffersUpTo tree.toList.length) : tree.PopsBack depth := by
  induction tree generalizing depth with
  | empty => exact fun ne => absurd rfl ne
  | single node => exact fun _ => ⟨node, empty, rfl, h, trivial, rfl⟩
  | deep size left middle right ih =>
    intro _
    obtain ⟨hl, hm, hr, -⟩ := id h
    have inner : Arithmetic.DiffersUpTo middle.toList.length := by
      refine differs.mono ?_
      rw [toList, List.length_append, List.length_append]
      omega
    obtain ⟨node, rfl⟩ | ⟨node, digit, popped, same⟩ := right.popBack_cases
    · obtain ⟨rest, refilled, hrest, same⟩ := (ih hm inner).refill hl
      refine ⟨node, rest, ?_, hr node List.mem_cons_self, hrest, ?_⟩
      · simp only [popBack, Digit.popBack]
        rw [← bind_assoc, refilled]
        rfl
      · rw [same, nodes, List.append_assoc]
        rfl
    · have hd : digit.Consistent depth :=
        fun n mem => hr n (same ▸ List.mem_append_left _ mem)
      have hn : node.Consistent depth := hr node (same ▸ List.mem_append_right _ List.mem_cons_self)
      let kept := (left.toList ++ (middle.toList ++ digit.toList)).length
      have sized : minus size node.size = .ok (.ofNat kept) := by
        refine h.minus_size differs hn ?_
        simp only [toList, Digit.toList_eq right, same, Node.elements_append, Node.elements_cons,
          List.length_append, kept, ← Digit.toList_eq digit]
        simp only [Node.elements, List.flatMap_nil, List.length_nil]
        omega
      refine ⟨node, Tree.deep (.ofNat kept) left middle digit, ?_, hn, .deep hl hm hd rfl, ?_⟩
      · simp only [popBack, popped, sized]
        rfl
      · rw [nodes, nodes, same, List.append_assoc, List.append_assoc]

theorem Tree.Consistent.popsFront {tree : Tree α} (h : tree.Consistent depth)
    (bound : tree.toList.length < UInt64.size) : tree.PopsFront depth :=
  h.popsFront_of_differs (.of_lt bound)

theorem Tree.Consistent.popsBack {tree : Tree α} (h : tree.Consistent depth)
    (bound : tree.toList.length < UInt64.size) : tree.PopsBack depth :=
  h.popsBack_of_differs (.of_lt bound)

theorem Tree.Consistent.levelLeft {before : List (Node α)} {middle : Tree α} {right : Digit α}
    (hb : ∀ node ∈ before, node.Consistent depth) (short : before.length ≤ 4)
    (hm : middle.Consistent (depth + 1)) (bound : middle.toList.length < UInt64.size)
    (hr : right.Consistent depth) :
    ∃ tree, Tree.levelLeft before middle right = .ok tree ∧ tree.Consistent depth ∧
      tree.nodes = before ++ (middle.nodes.flatMap Node.children ++ right.nodes) := by
  obtain ⟨rfl, nothing⟩ | ⟨left, found, rfl⟩ := Digit.ofNodes?_cases short
  · obtain ⟨tree, refilled, ht, same⟩ := (hm.popsFront bound).refill hr
    exact ⟨tree, by simpa only [Tree.levelLeft, nothing] using refilled, ht, same⟩
  · exact ⟨Tree.level left middle right, by simp only [Tree.levelLeft, found], .level hb hm hr, rfl⟩

theorem Tree.Consistent.levelRight {left : Digit α} {middle : Tree α} {after : List (Node α)}
    (hl : left.Consistent depth) (hm : middle.Consistent (depth + 1))
    (bound : middle.toList.length < UInt64.size) (ha : ∀ node ∈ after, node.Consistent depth)
    (short : after.length ≤ 4) :
    ∃ tree, Tree.levelRight left middle after = .ok tree ∧ tree.Consistent depth ∧
      tree.nodes = left.nodes ++ (middle.nodes.flatMap Node.children ++ after) := by
  obtain ⟨rfl, nothing⟩ | ⟨right, found, rfl⟩ := Digit.ofNodes?_cases short
  · obtain ⟨tree, refilled, ht, same⟩ := (hm.popsBack bound).refill hl
    refine ⟨tree, by simpa only [Tree.levelRight, nothing] using refilled, ht, ?_⟩
    rw [same, List.append_nil]
  · exact ⟨Tree.level left middle right, by simp only [Tree.levelRight, found], .level hl hm ha, rfl⟩

end

end IndexedSequence
