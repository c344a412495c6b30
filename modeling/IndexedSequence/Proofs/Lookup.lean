import IndexedSequence.Proofs.Descending
import IndexedSequence.Tree.Access
import IndexedSequence.Tree.Ends

set_option autoImplicit false

namespace IndexedSequence

variable {α : Type} {depth : Nat} [Arithmetic] [Arithmetic.Exact]

omit [Arithmetic] [Arithmetic.Exact] in
theorem ofNat_lt_size_iff {size : UInt64} {i n : Nat} (sized : size = .ofNat n) (hi : i < UInt64.size)
    (hn : n < UInt64.size) : UInt64.ofNat i < size ↔ i < n := by
  rw [sized, UInt64.ofNat_lt_iff_lt hi hn]

/-- Looking in the part that stands first, or past it, with positions as numbers. -/
theorem within_or_past {β : Type} {size : UInt64} {i n : Nat} (sized : size = .ofNat n)
    (hi : i < UInt64.size) (hn : n < UInt64.size) (within : Except Fault β)
    (past : UInt64 → Except Fault β) :
    (if UInt64.ofNat i < size then within else minus (.ofNat i) size >>= past) =
      if i < n then within else past (.ofNat (i - n)) := by
  have falls := ofNat_lt_size_iff sized hi hn
  by_cases inside : i < n
  · rw [if_pos (falls.mpr inside), if_pos inside]
  · obtain ⟨rest, rfl⟩ := Nat.exists_eq_add_of_le (Nat.not_lt.mp inside)
    rw [if_neg (mt falls.mp inside), if_neg inside, sized, minus_ofNat hi, Nat.add_sub_cancel_left]
    rfl

theorem Node.Consistent.lookup {node : Node α} (h : node.Consistent depth)
    (bound : node.toList.length < UInt64.size) {i : Nat} {element : α}
    (found : node.toList[i]? = some element) : node.lookup (.ofNat i) = .ok element := by
  have inside := (List.getElem?_eq_some_iff.mp found).1
  have same_index : (UInt64.ofNat i).toNat = i := UInt64.toNat_ofNat_of_lt' (Nat.lt_trans inside bound)
  exact (h.sizesExact bound).lookup (same_index.symm ▸ found)

theorem Node.Consistent.lookup_zero {node : Node α} (h : node.Consistent depth)
    (bound : node.toList.length < UInt64.size) :
    ∃ element, node.lookup 0 = .ok element ∧ node.toList.head? = some element := by
  obtain ⟨element, rest, same⟩ := List.exists_cons_of_ne_nil node.toList_ne_nil
  exact ⟨element, h.lookup (i := 0) bound (by rw [same]; rfl), by rw [same]; rfl⟩

theorem Node.Consistent.lookup_last {node : Node α} (h : node.Consistent depth)
    (bound : node.toList.length < UInt64.size) :
    ∃ element, (do node.lookup (← minus node.size 1)) = Except.ok element ∧
      node.toList.getLast? = some element := by
  have positive := node.length_pos
  have last : minus node.size 1 = .ok (.ofNat (node.toList.length - 1)) := by
    obtain ⟨rest, more⟩ := Nat.exists_eq_add_of_le (Nat.succ_le_of_lt positive)
    rw [h.size_eq, more, Nat.succ_add_sub_one, Nat.zero_add]
    have whole : 1 + rest < UInt64.size := by omega
    exact minus_ofNat whole
  refine ⟨node.toList[node.toList.length - 1], ?_, ?_⟩
  · rw [last, ok_bind, h.lookup bound (List.getElem?_eq_getElem _)]
  · rw [List.getLast?_eq_getElem?, List.getElem?_eq_getElem]

theorem Digit.lookupIn_eq {asked : UInt64} {nodes : List (Node α)}
    (h : ∀ node ∈ nodes, node.Consistent depth) (bound : (Node.elements nodes).length < UInt64.size)
    {i : Nat} {element : α} (found : (Node.elements nodes)[i]? = some element) :
    lookupIn asked nodes (.ofNat i) = .ok element := by
  have inside := (List.getElem?_eq_some_iff.mp found).1
  have same_index : (UInt64.ofNat i).toNat = i := UInt64.toNat_ofNat_of_lt' (Nat.lt_trans inside bound)
  have exact := Node.sizesExact_of_consistent h bound
  obtain ⟨cut, falls, -, looked⟩ := Cut.walks_within asked exact (same_index.symm ▸ inside)
  obtain ⟨-, same⟩ := falls.same_element exact
  rw [same_index, found] at same
  rw [looked, (exact cut.node (by simp [falls.nodes_eq])).lookup same]

theorem Digit.Consistent.lookup {digit : Digit α} (h : digit.Consistent depth)
    (bound : digit.toList.length < UInt64.size) {i : Nat} (inside : i < digit.toList.length) :
    some <$> digit.lookup (.ofNat i) = .ok digit.toList[i]? := by
  rw [List.getElem?_eq_getElem inside, Digit.lookup,
    Digit.lookupIn_eq h bound (List.getElem?_eq_getElem inside)]
  rfl

theorem Tree.Consistent.get? {tree : Tree α} (h : tree.Consistent depth)
    (bound : tree.toList.length < UInt64.size) {i : Nat} (hi : i < UInt64.size) :
    tree.get? (.ofNat i) = .ok tree.toList[i]? := by
  induction tree generalizing depth i with
  | empty => rfl
  | single node =>
    rw [Tree.get?, toList]
    by_cases inside : i < node.toList.length
    · rw [if_pos ((ofNat_lt_size_iff (Node.Consistent.size_eq h) hi bound).mpr inside),
        List.getElem?_eq_getElem inside,
        Node.Consistent.lookup h bound (List.getElem?_eq_getElem inside)]
      rfl
    · rw [if_neg (mt (ofNat_lt_size_iff (Node.Consistent.size_eq h) hi bound).mp inside),
        List.getElem?_eq_none (Nat.not_lt.mp inside)]
  | deep size left middle right ih =>
    have sized : size = .ofNat (Tree.deep size left middle right).toList.length := h.size_eq
    have whole := ofNat_lt_size_iff sized hi bound
    obtain ⟨hl, hm, hr, -⟩ := h
    simp only [toList, List.length_append] at bound whole
    rw [Tree.get?, toList]
    by_cases inside : i < left.toList.length + (middle.toList.length + right.toList.length)
    · rw [if_pos (whole.mpr inside), within_or_past hl.size_eq hi (by omega)]
      by_cases inLeft : i < left.toList.length
      · rw [if_pos inLeft, List.getElem?_append_left inLeft]
        exact hl.lookup (by omega) inLeft
      · rw [if_neg inLeft, List.getElem?_append_right (Nat.not_lt.mp inLeft),
          within_or_past hm.size_eq (by omega) (by omega)]
        by_cases inMiddle : i - left.toList.length < middle.toList.length
        · rw [if_pos inMiddle, List.getElem?_append_left inMiddle]
          exact ih hm (by omega) (by omega)
        · rw [if_neg inMiddle, List.getElem?_append_right (Nat.not_lt.mp inMiddle)]
          exact hr.lookup (by omega) (by omega)
    · rw [if_neg (mt whole.mp inside), List.getElem?_eq_none]
      simp only [List.length_append]
      omega

theorem Tree.Consistent.front? {tree : Tree α} (h : tree.Consistent depth)
    (bound : tree.toList.length < UInt64.size) : tree.front? = .ok tree.toList.head? := by
  cases tree with
  | empty => rfl
  | single node =>
    obtain ⟨element, looked, first⟩ := Node.Consistent.lookup_zero h bound
    rw [Tree.front?, looked, toList, first]
    rfl
  | deep size left middle right =>
    obtain ⟨tail, same⟩ : ∃ tail, left.nodes = left.head :: tail := by cases left <;> exact ⟨_, rfl⟩
    have hn : left.head.Consistent depth := h.1 _ (same ▸ List.mem_cons_self)
    simp only [toList, Digit.toList_eq left, same, Node.elements_cons, List.length_append] at bound
    obtain ⟨element, looked, first⟩ := hn.lookup_zero (by omega)
    have heads : (Tree.deep size left middle right).toList.head? = some element := by
      calc
        (Tree.deep size left middle right).toList.head? =
            (left.head.toList ++ (Node.elements tail ++ (middle.toList ++ right.toList))).head? := by
          rw [toList, Digit.toList_eq left, same, Node.elements_cons, List.append_assoc]
        _ = some element := by
          rw [List.head?_append, first]
          rfl
    rw [Tree.front?, looked, heads]
    rfl

theorem Tree.Consistent.back? {tree : Tree α} (h : tree.Consistent depth)
    (bound : tree.toList.length < UInt64.size) : tree.back? = .ok tree.toList.getLast? := by
  cases tree with
  | empty => rfl
  | single node =>
    obtain ⟨element, looked, last⟩ := Node.Consistent.lookup_last h bound
    rw [Tree.back?, toList, last, ← bind_assoc, looked]
    rfl
  | deep size left middle right =>
    obtain ⟨init, same⟩ : ∃ init, right.nodes = init ++ [right.last] := by
      cases right with
      | one a => exact ⟨[], rfl⟩
      | two a b => exact ⟨[a], rfl⟩
      | three a b c => exact ⟨[a, b], rfl⟩
      | four a b c d => exact ⟨[a, b, c], rfl⟩
    have hn : right.last.Consistent depth :=
      h.2.2.1 _ (same ▸ List.mem_append_right _ List.mem_cons_self)
    have split : right.toList = Node.elements init ++ right.last.toList := by
      rw [Digit.toList_eq, same, Node.elements_append]
      simp [Node.elements]
    simp only [toList, split, List.length_append] at bound
    obtain ⟨element, looked, last⟩ := hn.lookup_last (by omega)
    have lasts : (Tree.deep size left middle right).toList.getLast? = some element := by
      calc
        (Tree.deep size left middle right).toList.getLast? =
            (left.toList ++ middle.toList ++ Node.elements init ++ right.last.toList).getLast? := by
          rw [toList, split, ← List.append_assoc, ← List.append_assoc]
        _ = some element := by
          rw [List.getLast?_append, last]
          rfl
    rw [Tree.back?, ← bind_assoc, looked, lasts]
    rfl

end IndexedSequence
