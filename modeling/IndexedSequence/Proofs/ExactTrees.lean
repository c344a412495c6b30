import IndexedSequence.Checked.Tree
import IndexedSequence.Proofs.Preservation
import IndexedSequence.Proofs.Reversal

set_option autoImplicit false

namespace IndexedSequence

variable {α : Type} {depth : Nat}

theorem add_eq_ofNat {a b : UInt64} {m n : Nat} (ha : a = .ofNat m) (hb : b = .ofNat n) :
    a + b = .ofNat (m + n) := by
  rw [ha, hb, UInt64.ofNat_add]

theorem plus_eq {a b : UInt64} {m n : Nat} (ha : a = .ofNat m) (hb : b = .ofNat n)
    (bound : m + n < UInt64.size) : plus a b = .ok (a + b) := by
  refine if_pos ?_
  rwa [toNat_ofNat_of_eq ha (by omega), toNat_ofNat_of_eq hb (by omega)]

theorem plus_add_eq {a b c : UInt64} {l m n : Nat} (ha : a = .ofNat l) (hb : b = .ofNat m)
    (hc : c = .ofNat n) (bound : l + m + n < UInt64.size) : plus (a + b) c = .ok (a + b + c) :=
  plus_eq (add_eq_ofNat ha hb) hc bound

theorem minusChecked_of_le {a b : UInt64} (le : b ≤ a) : minusChecked a b = .ok (a - b) :=
  if_pos le

theorem minusChecked_ofNat {part rest : Nat} (bound : part + rest < UInt64.size) :
    minusChecked (.ofNat (part + rest)) (.ofNat part) = .ok (.ofNat (part + rest) - .ofNat part) := by
  refine minusChecked_of_le ?_
  exact (UInt64.ofNat_le_iff_le (by omega) bound).mpr (Nat.le_add_right part rest)

theorem Node.Consistent.pairChecked {a b : Node α} (ha : a.Consistent depth) (hb : b.Consistent depth)
    (bound : a.toList.length + b.toList.length < UInt64.size) :
    Node.pairChecked a b = .ok (Node.pair a b) := by
  rw [Node.pairChecked, plus_eq ha.size_eq hb.size_eq bound]
  rfl

theorem Node.Consistent.tripleChecked {a b c : Node α} (ha : a.Consistent depth)
    (hb : b.Consistent depth) (hc : c.Consistent depth)
    (bound : a.toList.length + b.toList.length + c.toList.length < UInt64.size) :
    Node.tripleChecked a b c = .ok (Node.triple a b c) := by
  have first : plus a.size b.size = .ok (a.size + b.size) :=
    plus_eq ha.size_eq hb.size_eq (by omega)
  have second : plus (a.size + b.size) c.size = .ok (a.size + b.size + c.size) :=
    plus_add_eq ha.size_eq hb.size_eq hc.size_eq bound
  rw [Node.tripleChecked, first, ok_bind, second]
  rfl

theorem Node.Consistent.reversedChecked {node : Node α} (h : node.Consistent depth)
    (bound : node.toList.length < UInt64.size) : node.reversedChecked = .ok node.reversed := by
  induction node generalizing depth with
  | leaf element => rfl
  | two size first second ihf ihs =>
    cases depth with
    | zero => exact h.elim
    | succ depth =>
      obtain ⟨hf, hs, -⟩ := h
      rw [toList, List.length_append] at bound
      rw [Node.reversedChecked, ihs hs (by omega), ok_bind, ihf hf (by omega), ok_bind]
      refine hs.reversed.pairChecked hf.reversed ?_
      rw [toList_reversed, toList_reversed, List.length_reverse, List.length_reverse]
      omega
  | three size first second third ihf ihs iht =>
    cases depth with
    | zero => exact h.elim
    | succ depth =>
      obtain ⟨hf, hs, ht, -⟩ := h
      rw [toList, List.length_append, List.length_append] at bound
      rw [Node.reversedChecked, iht ht (by omega), ok_bind, ihs hs (by omega), ok_bind,
        ihf hf (by omega), ok_bind]
      refine ht.reversed.tripleChecked hs.reversed hf.reversed ?_
      rw [toList_reversed, toList_reversed, toList_reversed, List.length_reverse, List.length_reverse,
        List.length_reverse]
      omega

theorem Node.sumChecked_eq {nodes : List (Node α)} (h : ∀ node ∈ nodes, node.Consistent depth)
    {total : UInt64} {n : Nat} (counted : total = .ofNat n)
    (bound : n + (Node.elements nodes).length < UInt64.size) :
    Node.sumChecked nodes total = .ok (.ofNat (n + (Node.elements nodes).length)) := by
  induction nodes generalizing total n with
  | nil =>
    rw [sumChecked, counted]
    rfl
  | cons node rest ih =>
    rw [List.forall_mem_cons] at h
    rw [elements_cons, List.length_append] at bound ⊢
    rw [sumChecked, plus_eq counted h.1.size_eq (by omega), ok_bind,
      ih h.2 (add_eq_ofNat counted h.1.size_eq) (by omega), Nat.add_assoc]

theorem Digit.Consistent.sizeChecked {digit : Digit α} (h : digit.Consistent depth)
    (bound : digit.toList.length < UInt64.size) : digit.sizeChecked = .ok digit.size := by
  have zero : (0 : UInt64) = .ofNat 0 := rfl
  rw [Digit.sizeChecked, Node.sumChecked_eq h zero (by rwa [Nat.zero_add, ← Digit.toList_eq]), h.size_eq,
    Nat.zero_add, ← Digit.toList_eq]

theorem Digit.Consistent.reversedChecked {digit : Digit α} (h : digit.Consistent depth)
    (bound : digit.toList.length < UInt64.size) : digit.reversedChecked = .ok digit.reversed := by
  have each : ∀ node ∈ digit.nodes, node.reversedChecked = .ok node.reversed := by
    intro node mem
    exact (h node mem).reversedChecked (Nat.lt_of_le_of_lt (Node.length_le_of_mem mem) bound)
  cases digit <;>
    simp only [nodes, List.forall_mem_cons] at each <;>
    simp only [Digit.reversedChecked, each, ok_bind] <;>
    rfl

theorem minusChecked_past_guard {β : Type} (index size : UInt64) (within : Except Fault β)
    (past : UInt64 → Except Fault β) :
    (if index < size then within else minusChecked index size >>= past) =
      if index < size then within else past (index - size) :=
  @minus_past_guard .checked Arithmetic.exact_checked β index size within past

theorem Node.lookupChecked_eq (node : Node α) (index : UInt64) :
    node.lookupChecked index = node.lookup index := by
  unfold lookupChecked
  induction node generalizing index with
  | leaf element => rfl
  | two size first second ihf ihs =>
    simp only [lookup, @minus_past_guard .checked Arithmetic.exact_checked,
      @minus_past_guard .wrapping Arithmetic.exact_wrapping, ihf, ihs]
  | three size first second third ihf ihs iht =>
    simp only [lookup, @minus_past_guard .checked Arithmetic.exact_checked,
      @minus_past_guard .wrapping Arithmetic.exact_wrapping, ihf, ihs, iht]

theorem Digit.lookupChecked_eq (digit : Digit α) (index : UInt64) :
    digit.lookupChecked index = digit.lookup index := by
  have run : ∀ (asked : UInt64) (nodes : List (Node α)) (index : UInt64),
      @lookupIn α .checked asked nodes index = lookupIn asked nodes index := by
    intro asked nodes
    induction nodes with
    | nil => exact fun index => rfl
    | cons node rest ih =>
      intro index
      have here : @Node.lookup α .checked node index = node.lookup index := node.lookupChecked_eq index
      simp only [lookupIn, @minus_past_guard .checked Arithmetic.exact_checked,
        @minus_past_guard .wrapping Arithmetic.exact_wrapping, here, ih]
  exact run index digit.nodes index

theorem Digit.splitChecked_eq (digit : Digit α) (index : UInt64) :
    digit.splitChecked index = digit.split index := by
  have run : ∀ (asked : UInt64) (nodes : List (Node α)) (index : UInt64),
      @Cut.ofNodesIn α .checked asked nodes index = Cut.ofNodesIn asked nodes index := by
    intro asked nodes
    induction nodes with
    | nil => exact fun index => rfl
    | cons node rest ih =>
      intro index
      simp only [Cut.ofNodesIn, @minus_past_guard .checked Arithmetic.exact_checked,
        @minus_past_guard .wrapping Arithmetic.exact_wrapping, ih]
  exact run index digit.nodes index

theorem Tree.Consistent.levelChecked {left right : Digit α} {middle : Tree α}
    (hl : left.Consistent depth) (hm : middle.Consistent (depth + 1)) (hr : right.Consistent depth)
    (bound : left.toList.length + middle.toList.length + right.toList.length < UInt64.size) :
    Tree.levelChecked left middle right = .ok (Tree.level left middle right) := by
  have first : plus left.size middle.size = .ok (left.size + middle.size) :=
    plus_eq hl.size_eq hm.size_eq (by omega)
  have second : plus (left.size + middle.size) right.size = .ok (left.size + middle.size + right.size) :=
    plus_add_eq hl.size_eq hm.size_eq hr.size_eq bound
  rw [Tree.levelChecked, hl.sizeChecked (by omega), ok_bind, first, ok_bind, hr.sizeChecked (by omega),
    ok_bind, second]
  rfl

theorem Tree.Consistent.ofDigitChecked {digit : Digit α} (h : digit.Consistent depth)
    (bound : digit.toList.length < UInt64.size) :
    Tree.ofDigitChecked digit = .ok (Tree.ofDigit digit) := by
  cases digit <;> simp only [Digit.Consistent, Digit.nodes, List.forall_mem_cons] at h
  case one a => rfl
  all_goals
    refine @Tree.Consistent.levelChecked _ depth _ _ _ ?_ trivial ?_ ?_
    · simp [Digit.Consistent, Digit.nodes, h]
    · simp [Digit.Consistent, Digit.nodes, h]
    · simp only [Digit.toList, Digit.nodes, Node.elements, List.flatMap_cons, List.flatMap_nil,
        List.length_append, List.length_nil, toList] at bound ⊢
      omega

theorem Tree.Consistent.reversedChecked {tree : Tree α} (h : tree.Consistent depth)
    (bound : tree.toList.length < UInt64.size) : tree.reversedChecked = .ok tree.reversed := by
  induction tree generalizing depth with
  | empty => rfl
  | single node =>
    rw [Tree.reversedChecked, Node.Consistent.reversedChecked h bound]
    rfl
  | deep size left middle right ih =>
    obtain ⟨hl, hm, hr, -⟩ := h
    simp only [toList, List.length_append] at bound
    rw [Tree.reversedChecked, hr.reversedChecked (by omega), ok_bind, ih hm (by omega), ok_bind,
      hl.reversedChecked (by omega)]
    rfl

theorem Tree.Consistent.pushFrontChecked {tree : Tree α} {node : Node α} (h : tree.Consistent depth)
    (hn : node.Consistent depth) (bound : node.toList.length + tree.toList.length < UInt64.size) :
    tree.pushFrontChecked node = .ok (tree.pushFront node) := by
  induction tree generalizing depth node with
  | empty => rfl
  | single a =>
    rw [Tree.pushFrontChecked, plus_eq hn.size_eq (Node.Consistent.size_eq h) bound]
    rfl
  | deep size left middle right ih =>
    have sum : plus size node.size = .ok (size + node.size) :=
      plus_eq h.size_eq hn.size_eq (by omega)
    obtain ⟨hl, hm, hr, -⟩ := h
    cases left with
    | one a | two a b | three a b c =>
      rw [Tree.pushFrontChecked, sum]
      rfl
    | four a b c d =>
      simp only [Digit.Consistent, Digit.nodes, List.forall_mem_cons] at hl
      obtain ⟨ha, hb, hc, hd, -⟩ := hl
      simp only [toList, Digit.toList, Digit.nodes, Node.elements, List.flatMap_cons, List.flatMap_nil,
        List.length_append] at bound
      have carried : (Node.triple b c d).Consistent (depth + 1) := hb.triple hc hd
      have inner : (Node.triple b c d).toList.length + middle.toList.length < UInt64.size := by
        rw [Node.triple, Node.toList, List.length_append, List.length_append]
        omega
      rw [Tree.pushFrontChecked, sum, ok_bind, hb.tripleChecked hc hd (by omega), ok_bind,
        ih hm carried inner]
      rfl

theorem Tree.Consistent.pushBackChecked {tree : Tree α} {node : Node α} (h : tree.Consistent depth)
    (hn : node.Consistent depth) (bound : tree.toList.length + node.toList.length < UInt64.size) :
    tree.pushBackChecked node = .ok (tree.pushBack node) := by
  induction tree generalizing depth node with
  | empty => rfl
  | single a =>
    rw [Tree.pushBackChecked, plus_eq (Node.Consistent.size_eq h) hn.size_eq bound]
    rfl
  | deep size left middle right ih =>
    have sum : plus size node.size = .ok (size + node.size) := plus_eq h.size_eq hn.size_eq bound
    obtain ⟨hl, hm, hr, -⟩ := h
    cases right with
    | one a | two a b | three a b c =>
      rw [Tree.pushBackChecked, sum]
      rfl
    | four a b c d =>
      simp only [Digit.Consistent, Digit.nodes, List.forall_mem_cons] at hr
      obtain ⟨ha, hb, hc, hd, -⟩ := hr
      simp only [toList, Digit.toList, Digit.nodes, Node.elements, List.flatMap_cons, List.flatMap_nil,
        List.length_append] at bound
      have carried : (Node.triple a b c).Consistent (depth + 1) := ha.triple hb hc
      have inner : middle.toList.length + (Node.triple a b c).toList.length < UInt64.size := by
        rw [Node.triple, Node.toList, List.length_append, List.length_append]
        omega
      rw [Tree.pushBackChecked, sum, ok_bind, ha.tripleChecked hb hc (by omega), ok_bind,
        ih hm carried inner]
      rfl

theorem Tree.Consistent.pushFrontAllChecked {tree : Tree α} {nodes : List (Node α)}
    (h : tree.Consistent depth) (hn : ∀ node ∈ nodes, node.Consistent depth)
    (bound : (Node.elements nodes).length + tree.toList.length < UInt64.size) :
    tree.pushFrontAllChecked nodes = .ok (tree.pushFrontAll nodes) := by
  induction nodes with
  | nil => rfl
  | cons node rest ih =>
    rw [List.forall_mem_cons] at hn
    rw [Node.elements_cons, List.length_append] at bound
    rw [Tree.pushFrontAllChecked, ih hn.2 (by omega), ok_bind]
    refine (h.pushFrontAll hn.2).pushFrontChecked hn.1 ?_
    rw [toList_pushFrontAll, List.length_append]
    omega

theorem Tree.Consistent.pushBackAllChecked {tree : Tree α} {nodes : List (Node α)}
    (h : tree.Consistent depth) (hn : ∀ node ∈ nodes, node.Consistent depth)
    (bound : tree.toList.length + (Node.elements nodes).length < UInt64.size) :
    tree.pushBackAllChecked nodes = .ok (tree.pushBackAll nodes) := by
  induction nodes generalizing tree with
  | nil => rfl
  | cons node rest ih =>
    rw [List.forall_mem_cons] at hn
    rw [Node.elements_cons, List.length_append] at bound
    rw [Tree.pushBackAllChecked, h.pushBackChecked hn.1 (by omega), ok_bind]
    refine ih (h.pushBack hn.1) hn.2 ?_
    rw [toList_pushBack, List.length_append]
    omega

theorem Tree.Consistent.minusChecked_size {tree : Tree α} {node : Node α} {rest : Nat}
    (h : tree.Consistent depth) (bound : tree.toList.length < UInt64.size) (hn : node.Consistent depth)
    (parts : tree.toList.length = node.toList.length + rest) :
    minusChecked tree.size node.size = .ok (tree.size - node.size) := by
  rw [h.size_eq, hn.size_eq, parts]
  exact minusChecked_ofNat (parts ▸ bound)

theorem Tree.Consistent.refillLeftChecked {middle : Tree α} {right : Digit α}
    (hm : middle.Consistent (depth + 1)) (hr : right.Consistent depth)
    (bound : middle.toList.length + right.toList.length < UInt64.size)
    (same : middle.popFrontChecked = middle.popFront) :
    (do Tree.refillLeftChecked (← middle.popFrontChecked) right) =
      (do Tree.refillLeft (← middle.popFront) right) := by
  rw [same]
  by_cases ne : middle = empty
  · subst ne
    exact Tree.Consistent.ofDigitChecked hr (by omega)
  · obtain ⟨branch, inner, popped, hb, hi, nodes⟩ := hm.popsFront (by omega) ne
    obtain ⟨digit, unpacked, children, hd⟩ := hb.ofBranch
    have parts : middle.toList.length = digit.toList.length + inner.toList.length := by
      rw [hm.toList_eq, nodes, Node.elements_cons, List.length_append, ← hi.toList_eq,
        Digit.toList_eq, children, hb.elements_children]
    rw [popped, ok_bind, ok_bind, Tree.refillLeftChecked, Tree.refillLeft, unpacked, ok_bind, ok_bind]
    exact Tree.Consistent.levelChecked hd hi hr (by omega)

theorem Tree.Consistent.refillRightChecked {left : Digit α} {middle : Tree α}
    (hl : left.Consistent depth) (hm : middle.Consistent (depth + 1))
    (bound : left.toList.length + middle.toList.length < UInt64.size)
    (same : middle.popBackChecked = middle.popBack) :
    (do Tree.refillRightChecked left (← middle.popBackChecked)) =
      (do Tree.refillRight left (← middle.popBack)) := by
  rw [same]
  by_cases ne : middle = empty
  · subst ne
    exact Tree.Consistent.ofDigitChecked hl (by omega)
  · obtain ⟨branch, inner, popped, hb, hi, nodes⟩ := hm.popsBack (by omega) ne
    obtain ⟨digit, unpacked, children, hd⟩ := hb.ofBranch
    have parts : middle.toList.length = inner.toList.length + digit.toList.length := by
      rw [hm.toList_eq, nodes, Node.elements_append, List.length_append, ← hi.toList_eq,
        Digit.toList_eq, children, hb.elements_children, Node.elements_cons]
      exact congrArg (inner.toList.length + List.length ·) (List.append_nil _)
    rw [popped, ok_bind, ok_bind, Tree.refillRightChecked, Tree.refillRight, unpacked, ok_bind, ok_bind]
    exact Tree.Consistent.levelChecked hl hi hd (by omega)

theorem Tree.Consistent.popFrontChecked {tree : Tree α} (h : tree.Consistent depth)
    (bound : tree.toList.length < UInt64.size) : tree.popFrontChecked = tree.popFront := by
  induction tree generalizing depth with
  | empty | single node => rfl
  | deep size left middle right ih =>
    obtain ⟨hl, hm, hr, -⟩ := id h
    rw [Tree.popFrontChecked, Tree.popFront]
    obtain ⟨node, rfl⟩ | ⟨node, digit, popped, same⟩ := left.popFront_cases
    · simp only [toList, List.length_append] at bound
      have refilled := refillLeftChecked hm hr (by omega) (ih hm (by omega))
      simp only [Digit.popFront]
      rw [← bind_assoc, refilled, bind_assoc]
    · have hn : node.Consistent depth := hl node (same ▸ List.mem_cons_self)
      have left_eq : left.toList.length = node.toList.length + digit.toList.length := by
        rw [Digit.toList_eq, same, Node.elements_cons, List.length_append]
        rfl
      have parts : (Tree.deep size left middle right).toList.length =
          node.toList.length + (digit.toList.length + (middle.toList.length + right.toList.length)) := by
        simp only [toList, List.length_append]
        omega
      have kept : minusChecked size node.size = .ok (size - node.size) :=
        h.minusChecked_size bound hn parts
      rw [popped]
      simp only [kept]
      rfl

theorem Tree.Consistent.popBackChecked {tree : Tree α} (h : tree.Consistent depth)
    (bound : tree.toList.length < UInt64.size) : tree.popBackChecked = tree.popBack := by
  induction tree generalizing depth with
  | empty | single node => rfl
  | deep size left middle right ih =>
    obtain ⟨hl, hm, hr, -⟩ := id h
    rw [Tree.popBackChecked, Tree.popBack]
    obtain ⟨node, rfl⟩ | ⟨node, digit, popped, same⟩ := right.popBack_cases
    · simp only [toList, List.length_append] at bound
      have refilled := refillRightChecked hl hm (by omega) (ih hm (by omega))
      simp only [Digit.popBack]
      rw [← bind_assoc, refilled, bind_assoc]
    · have hn : node.Consistent depth := hr node (same ▸ List.mem_append_right _ List.mem_cons_self)
      have right_eq : right.toList.length = digit.toList.length + node.toList.length := by
        rw [Digit.toList_eq, same, Node.elements_append, List.length_append, Node.elements_cons]
        exact congrArg (digit.toList.length + List.length ·) (List.append_nil _)
      have parts : (Tree.deep size left middle right).toList.length =
          node.toList.length + (left.toList.length + (middle.toList.length + digit.toList.length)) := by
        simp only [toList, List.length_append]
        omega
      have kept : minusChecked size node.size = .ok (size - node.size) :=
        h.minusChecked_size bound hn parts
      rw [popped]
      simp only [kept]
      rfl

theorem Tree.Consistent.levelLeftChecked {before : List (Node α)} {middle : Tree α} {right : Digit α}
    (hb : ∀ node ∈ before, node.Consistent depth) (short : before.length ≤ 4)
    (hm : middle.Consistent (depth + 1)) (hr : right.Consistent depth)
    (bound : (Node.elements before).length + middle.toList.length + right.toList.length < UInt64.size) :
    Tree.levelLeftChecked before middle right = Tree.levelLeft before middle right := by
  rw [Tree.levelLeftChecked, Tree.levelLeft]
  obtain ⟨rfl, nothing⟩ | ⟨left, found, rfl⟩ := Digit.ofNodes?_cases short
  · rw [nothing]
    exact refillLeftChecked hm hr (by omega) (hm.popFrontChecked (by omega))
  · rw [found]
    exact Tree.Consistent.levelChecked hb hm hr bound

theorem Tree.Consistent.levelRightChecked {left : Digit α} {middle : Tree α} {after : List (Node α)}
    (hl : left.Consistent depth) (hm : middle.Consistent (depth + 1))
    (ha : ∀ node ∈ after, node.Consistent depth) (short : after.length ≤ 4)
    (bound : left.toList.length + middle.toList.length + (Node.elements after).length < UInt64.size) :
    Tree.levelRightChecked left middle after = Tree.levelRight left middle after := by
  rw [Tree.levelRightChecked, Tree.levelRight]
  obtain ⟨rfl, nothing⟩ | ⟨right, found, rfl⟩ := Digit.ofNodes?_cases short
  · rw [nothing]
    exact refillRightChecked hl hm (by omega) (hm.popBackChecked (by omega))
  · rw [found]
    exact Tree.Consistent.levelChecked hl hm ha bound

theorem Buffer.pushChecked_eq {buffer : Buffer α} {node : Node α}
    (hb : ∀ n ∈ buffer.nodes, n.Consistent depth)
    (bound : (Node.elements buffer.nodes).length < UInt64.size) :
    buffer.pushChecked node = .ok (buffer.push node) := by
  rcases buffer with ⟨_ | digit⟩
  · rfl
  · cases digit with
    | one a | two a b | three a b c => rfl
    | four a b c d =>
      simp only [nodes, Digit.nodes, List.forall_mem_cons] at hb
      obtain ⟨ha, hb, hc, -⟩ := hb
      simp only [nodes, Digit.nodes, Node.elements, List.flatMap_cons, List.length_append] at bound
      simp only [pushChecked, ha.tripleChecked hb hc (by omega), ok_bind]
      rfl

theorem Buffer.length_elements_push_le (buffer : Buffer α) (node : Node α) :
    (Node.elements (buffer.push node).1.nodes).length ≤
      (Node.elements buffer.nodes).length + node.toList.length := by
  have conserved := congrArg (List.length ∘ Node.elements) (buffer.push_conserves node)
  have single : (Node.elements [node]).length = node.toList.length := by
    rw [Node.elements_cons]
    exact congrArg List.length (List.append_nil _)
  simp only [Function.comp, Node.elements_append, List.length_append, single] at conserved
  omega

theorem Buffer.pushAllChecked_eq {buffer : Buffer α} {emitted nodes : List (Node α)}
    (hb : ∀ n ∈ buffer.nodes, n.Consistent depth) (hn : ∀ n ∈ nodes, n.Consistent depth)
    (bound : (Node.elements buffer.nodes).length + (Node.elements nodes).length < UInt64.size) :
    buffer.pushAllChecked emitted nodes = .ok (buffer.pushAll emitted nodes) := by
  induction nodes generalizing buffer emitted with
  | nil => rfl
  | cons node rest ih =>
    rw [List.forall_mem_cons] at hn
    rw [Node.elements_cons, List.length_append] at bound
    have kept := (push_consistent hb hn.1).1
    have shorter : (Node.elements (buffer.push node).1.nodes).length + (Node.elements rest).length <
        UInt64.size := by
      have := buffer.length_elements_push_le node
      omega
    rw [pushAllChecked, pushAll, pushChecked_eq hb (by omega), ok_bind]
    generalize buffer.push node = pushed at kept shorter ⊢
    obtain ⟨grown, _ | branch⟩ := pushed
    · exact ih kept hn.2 shorter
    · exact ih kept hn.2 shorter

theorem Buffer.foldChecked_empty {nodes : List (Node α)} (hn : ∀ n ∈ nodes, n.Consistent depth)
    (bound : (Node.elements nodes).length < UInt64.size) :
    Buffer.empty.foldChecked nodes = .ok (Buffer.empty.fold nodes) := by
  have nothing : ∀ n ∈ (Buffer.empty : Buffer α).nodes, n.Consistent depth :=
    fun _ mem => absurd mem List.not_mem_nil
  have short : (Node.elements (Buffer.empty : Buffer α).nodes).length + (Node.elements nodes).length <
      UInt64.size := by
    rw [nodes_empty]
    change 0 + _ < _
    rwa [Nat.zero_add]
  rw [foldChecked, pushAllChecked_eq nothing hn short]
  rfl

theorem Buffer.flushChecked_eq {buffer : Buffer α} (hb : ∀ n ∈ buffer.nodes, n.Consistent depth)
    (bound : (Node.elements buffer.nodes).length < UInt64.size) :
    buffer.flushChecked = buffer.flush := by
  rcases buffer with ⟨_ | digit⟩
  · rfl
  · cases digit <;> simp only [nodes, Digit.nodes, List.forall_mem_cons] at hb <;>
      simp only [nodes, Digit.nodes, Node.elements, List.flatMap_cons, List.length_append] at bound
    case one a => rfl
    case two a b => simp only [flushChecked, hb.1.pairChecked hb.2.1 (by omega)]; rfl
    case three a b c => simp only [flushChecked, hb.1.tripleChecked hb.2.1 hb.2.2.1 (by omega)]; rfl
    case four a b c d =>
      simp only [flushChecked, hb.1.pairChecked hb.2.1 (by omega),
        hb.2.2.1.pairChecked hb.2.2.2.1 (by omega)]
      rfl

theorem regroupChecked_eq {nodes : List (Node α)} (hn : ∀ n ∈ nodes, n.Consistent depth)
    (bound : (Node.elements nodes).length < UInt64.size) : regroupChecked nodes = regroup nodes := by
  have pending := (Buffer.fold_empty_consistent hn).1
  have short : (Node.elements (Buffer.empty.fold nodes).1.nodes).length < UInt64.size := by
    have conserved := congrArg (List.length ∘ Node.elements) (Buffer.empty.fold_conserves nodes)
    simp only [Function.comp, Node.elements_append, List.length_append, Buffer.nodes_empty,
      List.nil_append] at conserved
    omega
  rw [regroupChecked, Buffer.foldChecked_empty hn bound]
  simp only [ok_bind, Buffer.flushChecked_eq pending short]
  rfl

theorem Tree.buildChecked_cons (a b c : Node α) (rest : List (Node α)) :
    buildChecked (a :: b :: c :: rest) = (do
      let (buffer, branches) ← Buffer.empty.foldChecked rest
      match buffer.pending with
      | none => ofDigitChecked (.three a b c)
      | some right => levelChecked (.three a b c) (← buildChecked branches) right) := by
  rw [buildChecked]
  split
  · next ran => rw [ran]; rfl
  · next ran => rw [ran]; rfl

theorem Digit.three_of_first {a b c : Node α} {rest : List (Node α)}
    (h : ∀ n ∈ a :: b :: c :: rest, n.Consistent depth) :
    (Digit.three a b c).Consistent depth ∧ (∀ n ∈ rest, n.Consistent depth) ∧
      (Node.elements (a :: b :: c :: rest)).length =
        (Digit.three a b c).toList.length + (Node.elements rest).length := by
  simp only [List.forall_mem_cons] at h
  obtain ⟨ha, hb, hc, hrest⟩ := h
  refine ⟨by simp [Digit.Consistent, Digit.nodes, ha, hb, hc], hrest, ?_⟩
  have split : a :: b :: c :: rest = (Digit.three a b c).nodes ++ rest := rfl
  rw [split, Node.elements_append, List.length_append, Digit.toList_eq]

theorem Buffer.length_elements_fold {stream branches : List (Node α)} {right : Digit α}
    (hs : ∀ n ∈ stream, n.Consistent depth) (given : (Buffer.empty.fold stream).2 = branches)
    (pending : (Buffer.empty.fold stream).1.pending = some right) :
    right.Consistent depth ∧ (∀ n ∈ branches, n.Consistent (depth + 1)) ∧
      (Node.elements branches).length + right.toList.length = (Node.elements stream).length := by
  obtain ⟨kept, emitted⟩ := Buffer.fold_empty_consistent hs
  have conserved := congrArg (List.length ∘ Node.elements) (Buffer.empty.fold_conserves stream)
  rw [Buffer.nodes, pending] at kept
  rw [Buffer.nodes, pending, given] at conserved
  rw [given] at emitted
  refine ⟨kept, emitted, ?_⟩
  simpa only [Function.comp, Node.elements_append, List.length_append, Buffer.nodes_empty,
    List.nil_append, Node.elements_flatMap_children emitted, Digit.toList_eq] using conserved

theorem Tree.Consistent.buildChecked {nodes : List (Node α)} (h : ∀ n ∈ nodes, n.Consistent depth)
    (bound : (Node.elements nodes).length < UInt64.size) :
    Tree.buildChecked nodes = .ok (Tree.build nodes) := by
  fun_induction Tree.build nodes generalizing depth with
  | case1 => rw [Tree.buildChecked]
  | case2 a =>
    rw [Tree.buildChecked]
    exact Tree.Consistent.ofDigitChecked h bound
  | case3 a b =>
    rw [Tree.buildChecked]
    exact Tree.Consistent.ofDigitChecked h bound
  | case4 a b c rest =>
    rename_i nothing
    have none : (Buffer.empty.fold rest).1.pending = none := nothing
    obtain ⟨hd, hrest, lengths⟩ := Digit.three_of_first h
    rw [Tree.buildChecked_cons, Buffer.foldChecked_empty hrest (by omega), ok_bind]
    simp only [none]
    exact Tree.Consistent.ofDigitChecked hd (by omega)
  | case5 a b c rest folded right pending =>
    rename_i ih
    obtain ⟨hd, hrest, lengths⟩ := Digit.three_of_first h
    obtain ⟨hr, hb, parts⟩ := Buffer.length_elements_fold hrest rfl pending
    have built := Tree.Consistent.build hb
    have same : (Tree.build (Buffer.empty.fold rest).2).toList.length =
        (Node.elements (Buffer.empty.fold rest).2).length := by
      rw [built.toList_eq, nodes_build]
    rw [Tree.buildChecked_cons, Buffer.foldChecked_empty hrest (by omega), ok_bind]
    have some : (Buffer.empty.fold rest).1.pending = some right := pending
    have inner : (Node.elements (Buffer.empty.fold rest).2).length < UInt64.size := by omega
    have whole : (Digit.three a b c).toList.length +
        (Tree.build (Buffer.empty.fold rest).2).toList.length + right.toList.length < UInt64.size := by
      omega
    simp only [some]
    rw [ih hb inner, ok_bind]
    exact Tree.Consistent.levelChecked hd built hr whole

theorem Tree.Consistent.joinChecked {left right : Tree α} {between : List (Node α)}
    (hl : left.Consistent depth) (hb : ∀ n ∈ between, n.Consistent depth) (hr : right.Consistent depth)
    (bound : left.toList.length + (Node.elements between).length + right.toList.length < UInt64.size) :
    left.joinChecked between right = left.join between right := by
  fun_induction Tree.join left between right generalizing depth with
  | case1 between right => exact hr.pushFrontAllChecked hb (by omega)
  | case2 node between => exact hl.pushBackAllChecked hb (by omega)
  | case3 size outer middle inner between => exact hl.pushBackAllChecked hb (by omega)
  | case4 node between right solid =>
    have unfolded : (single node).joinChecked between right =
        (do (← right.pushFrontAllChecked between).pushFrontChecked node) := by
      cases right with
      | empty => exact absurd rfl solid
      | single a => rfl
      | deep size outer middle inner => rfl
    rw [unfolded, hr.pushFrontAllChecked hb (by omega), ok_bind]
    refine (hr.pushFrontAll hb).pushFrontChecked hl ?_
    rw [toList_pushFrontAll, List.length_append, ← Nat.add_assoc]
    exact bound
  | case5 size outer middle inner between node =>
    rw [Tree.joinChecked, hl.pushBackAllChecked hb (by omega), ok_bind]
    refine (hl.pushBackAll hb).pushBackChecked hr ?_
    rw [(hl.pushBackAll hb).toList_eq, nodes_pushBackAll, Node.elements_append, List.length_append,
      ← hl.toList_eq]
    exact bound
  | case6 _ leftOuter leftMiddle leftInner between _ rightInner rightMiddle rightOuter ih =>
    obtain ⟨hlo, hlm, hli, -⟩ := hl
    obtain ⟨hri, hrm, hro, -⟩ := hr
    have loose := List.forall_mem_append.mpr ⟨hli, List.forall_mem_append.mpr ⟨hb, hri⟩⟩
    obtain ⟨branches, grouped, children, hbranches, carried⟩ := hli.regroup_between hb hri
    have kept : (Node.elements (leftInner.nodes ++ (between ++ rightInner.nodes))).length =
        leftInner.toList.length + ((Node.elements between).length + rightInner.toList.length) := by
      rw [← children, Node.elements_flatMap_children hbranches, carried]
    simp only [toList, List.length_append] at bound
    obtain ⟨middle, joined, hm, nodes⟩ := hlm.join hbranches hrm
    have inner : middle.toList.length = leftMiddle.toList.length +
        ((Node.elements branches).length + rightMiddle.toList.length) := by
      rw [hm.toList_eq, nodes, Node.elements_append, Node.elements_append, List.length_append,
        List.length_append, ← hlm.toList_eq, ← hrm.toList_eq]
    rw [Tree.joinChecked, regroupChecked_eq loose (by omega), grouped, ok_bind, ok_bind,
      ih branches hlm hbranches hrm (by omega), joined, ok_bind, ok_bind]
    exact Tree.Consistent.levelChecked hlo hm hro (by omega)

theorem Tree.Consistent.concatChecked {left right : Tree α} (hl : left.Consistent depth)
    (hr : right.Consistent depth)
    (bound : left.toList.length + right.toList.length < UInt64.size) :
    left.concatChecked right = left.concat right :=
  hl.joinChecked (fun _ mem => absurd mem List.not_mem_nil) hr bound

theorem Tree.Consistent.getChecked? {tree : Tree α} (h : tree.Consistent depth)
    (bound : tree.toList.length < UInt64.size) (index : UInt64) :
    tree.getChecked? index = tree.get? index := by
  induction tree generalizing depth index with
  | empty => rfl
  | single node => simp only [Tree.getChecked?, Tree.get?, node.lookupChecked_eq]
  | deep size left middle right ih =>
    obtain ⟨hl, hm, hr, -⟩ := h
    simp only [toList, List.length_append] at bound
    simp only [Tree.getChecked?, Tree.get?, hl.sizeChecked (by omega), ok_bind, ih hm (by omega),
      Digit.lookupChecked_eq, minusChecked_past_guard,
      @minus_past_guard .wrapping Arithmetic.exact_wrapping]

theorem Digit.Consistent.parts_of_split {digit : Digit α} {index : UInt64} {cut : Cut (List (Node α)) α}
    (h : digit.Consistent depth) (found : digit.split index = .ok cut) :
    (∀ node ∈ cut.before, node.Consistent depth) ∧ (∀ node ∈ cut.after, node.Consistent depth) ∧
      cut.before.length ≤ 4 ∧ cut.after.length ≤ 4 ∧
      (Node.elements cut.before).length + (Node.elements cut.after).length ≤ digit.toList.length := by
  obtain ⟨hb, -, ha, short, short'⟩ := h.ensures_split index cut found
  refine ⟨hb, ha, short, short', ?_⟩
  have parts := Cut.ensures_ofNodesIn index digit.nodes index cut found
  rw [Digit.toList_eq, parts, Node.elements_append, Node.elements_cons, List.length_append,
    List.length_append]
  omega

theorem Tree.Consistent.splitChecked? {tree : Tree α} (h : tree.Consistent depth)
    (bound : tree.toList.length < UInt64.size) (index : UInt64) :
    tree.splitChecked? index = tree.split? index := by
  induction tree generalizing depth index with
  | empty | single node => rfl
  | deep size left middle right ih =>
    obtain ⟨hl, hm, hr, -⟩ := h
    simp only [toList, List.length_append] at bound
    simp only [Tree.splitChecked?, Tree.split?, hl.sizeChecked (by omega), ok_bind, ih hm (by omega),
      Digit.splitChecked_eq, minusChecked_past_guard,
      @minus_past_guard .wrapping Arithmetic.exact_wrapping]
    by_cases inside : index < size
    case neg => rw [if_neg inside, if_neg inside]
    rw [if_pos inside, if_pos inside]
    by_cases inLeft : index < left.size
    · rw [if_pos inLeft, if_pos inLeft]
      refine bind_congr_ok fun cut found => ?_
      obtain ⟨hb, ha, -, short, parts⟩ := hl.parts_of_split found
      rw [Tree.Consistent.buildChecked hb (by omega), ok_bind, levelLeftChecked ha short hm hr (by omega)]
    rw [if_neg inLeft, if_neg inLeft]
    by_cases inMiddle : index - left.size < middle.size
    · rw [if_pos inMiddle, if_pos inMiddle]
      have within : (index - left.size).toNat < middle.toList.length := by
        rwa [← hm.toNat_size (by omega), ← UInt64.lt_iff_toNat_lt]
      obtain ⟨outer, split, splits⟩ := hm.split? (by omega) within
      rw [UInt64.ofNat_toNat] at split
      have lengths := splits.length_eq hm
      obtain ⟨digit, unpacked, children, hd⟩ := splits.node.ofBranch
      have digit_eq : digit.toList = outer.node.toList := by
        rw [Digit.toList_eq, children, splits.node.elements_children]
      rw [split, ok_bind, ok_bind]
      simp only [unpacked, ok_bind]
      refine bind_congr_ok fun cut found => ?_
      obtain ⟨hb, ha, short, short', parts⟩ := hd.parts_of_split found
      rw [digit_eq] at parts
      rw [levelRightChecked hl splits.before hb short (by omega),
        levelLeftChecked ha short' splits.after hr (by omega)]
    · rw [if_neg inMiddle, if_neg inMiddle]
      refine bind_congr_ok fun cut found => ?_
      obtain ⟨hb, ha, short, -, parts⟩ := hr.parts_of_split found
      rw [levelRightChecked hl hm hb short (by omega)]
      refine bind_congr_ok fun before made => ?_
      rw [Tree.Consistent.buildChecked ha (by omega), ok_bind]

theorem audited_of_fault {β : Type} (b : β) : (liftM (Except.ok b : Except Fault β) : Audited β) = .ok b :=
  rfl

theorem audited_of_flaw {β : Type} (b : β) : (liftM (Except.ok b : Except Flaw β) : Audited β) = .ok b :=
  rfl

theorem Node.Consistent.auditChecked {node : Node α} (h : node.Consistent depth)
    (bound : node.toList.length < UInt64.size) : node.auditChecked = .ok depth := by
  induction node generalizing depth with
  | leaf element =>
    cases depth with
    | zero => rfl
    | succ depth => exact h.elim
  | two size first second ihf ihs =>
    cases depth with
    | zero => exact h.elim
    | succ depth =>
      obtain ⟨hf, hs, sized⟩ := h
      rw [toList, List.length_append] at bound
      have sum := plus_eq hf.size_eq hs.size_eq bound
      have counted : first.size + second.size = size := by
        rw [sized, add_eq_ofNat hf.size_eq hs.size_eq]
      rw [Node.auditChecked, ihf hf (by omega), ihs hs (by omega), sum, counted]
      simp only [ok_bind, beq_self_eq_true, Flaw.unless_of, audited_of_fault, audited_of_flaw]
      rfl
  | three size first second third ihf ihs iht =>
    cases depth with
    | zero => exact h.elim
    | succ depth =>
      obtain ⟨hf, hs, ht, sized⟩ := h
      rw [toList, List.length_append, List.length_append] at bound
      have sum := plus_eq hf.size_eq hs.size_eq (by omega)
      have sums := plus_add_eq hf.size_eq hs.size_eq ht.size_eq (by omega)
      have counted : first.size + second.size + third.size = size := by
        rw [sized, add_eq_ofNat (add_eq_ofNat hf.size_eq hs.size_eq) ht.size_eq]
      rw [Node.auditChecked, ihf hf (by omega), ihs hs (by omega), iht ht (by omega), sum]
      simp only [ok_bind, beq_self_eq_true, Flaw.unless_of, audited_of_fault, audited_of_flaw, sums, counted]
      rfl

theorem Node.Consistent.auditAtChecked {node : Node α} (h : node.Consistent depth)
    (bound : node.toList.length < UInt64.size) : node.auditAtChecked depth = .ok () := by
  rw [Node.auditAtChecked, h.auditChecked bound, ok_bind, Flaw.unless_of _ (beq_self_eq_true depth)]
  rfl

theorem Digit.Consistent.auditAtChecked {digit : Digit α} (h : digit.Consistent depth)
    (bound : digit.toList.length < UInt64.size) : digit.auditAtChecked depth = .ok () := by
  rw [Digit.auditAtChecked]
  rw [Digit.toList_eq] at bound
  unfold Digit.Consistent at h
  generalize digit.nodes = nodes at h bound ⊢
  induction nodes with
  | nil => rfl
  | cons node rest ih =>
    rw [List.forall_mem_cons] at h
    rw [Node.elements_cons, List.length_append] at bound
    rw [List.forM, h.1.auditAtChecked (by omega), ok_bind, ih h.2 (by omega)]

theorem Tree.WellFormed.auditChecked {tree : Tree α} (h : tree.WellFormed depth) :
    tree.auditChecked depth = .ok () := by
  induction tree generalizing depth with
  | empty => rfl
  | single node =>
    obtain ⟨consistent, bound⟩ := Node.wellFormed_iff.mp h
    exact consistent.auditAtChecked bound
  | deep size left middle right ih =>
    obtain ⟨⟨hl, hm, hr, -⟩, bound⟩ := Tree.wellFormed_iff.mp h
    simp only [toList, List.length_append] at bound
    obtain ⟨-, inner, -, sized⟩ := h
    have left_pos := left.length_pos
    have right_pos := right.length_pos
    have sum := plus_eq hl.size_eq hm.size_eq (by omega)
    have sums := plus_add_eq hl.size_eq hm.size_eq hr.size_eq (by omega)
    have counted : left.size + middle.size + right.size = size := by
      rw [eq_ofNat_of_toNat sized, add_eq_ofNat (add_eq_ofNat hl.size_eq hm.size_eq) hr.size_eq]
    have many : decide (2 ≤ size) = true := by
      rw [decide_eq_true_eq, UInt64.le_iff_toNat_le, sized]
      change 2 ≤ _
      omega
    rw [Tree.auditChecked, hl.auditAtChecked (by omega), hr.auditAtChecked (by omega), ih inner,
      hl.sizeChecked (by omega), hr.sizeChecked (by omega)]
    simp only [ok_bind, audited_of_fault, sum, sums, counted, beq_self_eq_true, Flaw.unless_of, many,
      audited_of_flaw]

end IndexedSequence
