import IndexedSequence.Proofs.Grouping
import IndexedSequence.Proofs.Lookup
import IndexedSequence.Tree.Split

set_option autoImplicit false

namespace IndexedSequence

variable {α : Type} {depth : Nat}

/-- A cut of `nodes` at position `i`, with sides that are seen as nodes by `view`. -/
structure Cut.Divides {σ : Type} (view : σ → List (Node α)) (nodes : List (Node α)) (i : Nat)
    (cut : Cut σ α) : Prop where
  nodes_eq : nodes = view cut.before ++ cut.node :: view cut.after
  reaches : ∃ offset, cut.offset = .ofNat offset ∧ offset < cut.node.toList.length ∧
    i = (Node.elements (view cut.before)).length + offset

theorem Cut.Divides.within {σ : Type} {view : σ → List (Node α)} {nodes inner : List (Node α)} {i j : Nat}
    {cut : Cut (List (Node α)) α} (h : cut.Divides id inner i) {before after : σ}
    (front back : List (Node α))
    (hb : view before = front ++ cut.before) (ha : view after = cut.after ++ back)
    (hn : nodes = front ++ (inner ++ back)) (hj : j = (Node.elements front).length + i) :
    (Cut.mk before cut.node cut.offset after).Divides view nodes j := by
  obtain ⟨split, offset, reaches, small, at_eq⟩ := h
  simp only [id] at split at_eq
  refine ⟨?_, offset, reaches, small, ?_⟩
  · simp only [hn, split, hb, ha, List.append_assoc, List.cons_append]
  · simp only [hb, Node.elements_append, List.length_append]
    omega

theorem Cut.Divides.leaf {σ : Type} {view : σ → List (Node α)} {nodes : List (Node α)} {i : Nat}
    {cut : Cut σ α} (h : cut.Divides view nodes i) {element : α} (leaf : cut.node = .leaf element) :
    (Node.elements (view cut.before)).length = i ∧
      Node.elements nodes =
        Node.elements (view cut.before) ++ element :: Node.elements (view cut.after) := by
  obtain ⟨offset, -, small, at_eq⟩ := h.reaches
  rw [leaf, Node.toList, List.length_singleton] at small
  refine ⟨by omega, ?_⟩
  rw [h.nodes_eq, leaf, Node.elements_append, Node.elements_cons]
  rfl

section

variable [Arithmetic] [Arithmetic.Exact]

theorem Cut.ofNodesIn_eq (asked : UInt64) {nodes : List (Node α)}
    (h : ∀ node ∈ nodes, node.Consistent depth) (bound : (Node.elements nodes).length < UInt64.size)
    {i : Nat} (inside : i < (Node.elements nodes).length) :
    ∃ cut, ofNodesIn asked nodes (.ofNat i) = .ok cut ∧ cut.Divides id nodes i := by
  have same_index : (UInt64.ofNat i).toNat = i := UInt64.toNat_ofNat_of_lt' (Nat.lt_trans inside bound)
  have exact := Node.sizesExact_of_consistent h bound
  obtain ⟨cut, falls, made, -⟩ := walks_within asked exact (same_index.symm ▸ inside)
  have passed := falls.passed
  have before : ∀ node ∈ cut.before, node.SizesExact := fun node mem =>
    exact node (by simp [falls.nodes_eq, mem])
  rw [Node.cachedSum_of_sizesExact before, same_index] at passed
  exact ⟨cut, made, falls.nodes_eq, cut.offset.toNat, UInt64.ofNat_toNat.symm,
    (falls.same_element exact).1, passed.symm⟩

theorem Digit.Consistent.split {digit : Digit α} (h : digit.Consistent depth)
    (bound : digit.toList.length < UInt64.size) {i : Nat} (inside : i < digit.toList.length) :
    ∃ cut, digit.split (.ofNat i) = .ok cut ∧ cut.Divides id digit.nodes i ∧
      (∀ node ∈ cut.before, node.Consistent depth) ∧ cut.node.Consistent depth ∧
      (∀ node ∈ cut.after, node.Consistent depth) ∧ cut.before.length ≤ 4 ∧ cut.after.length ≤ 4 := by
  obtain ⟨cut, found, divides⟩ := Cut.ofNodesIn_eq (.ofNat i) h bound inside
  have parts : digit.nodes = cut.before ++ cut.node :: cut.after := divides.nodes_eq
  have short := digit.length_nodes_le
  rw [Digit.Consistent, parts, List.forall_mem_append, List.forall_mem_cons] at h
  rw [parts, List.length_append, List.length_cons] at short
  exact ⟨cut, found, divides, h.1, h.2.1, h.2.2, by omega, by omega⟩

/-- A cut of a tree, with all that comes of it as the level asks. -/
structure Tree.Splits (depth : Nat) (tree : Tree α) (i : Nat) (cut : Cut (Tree α) α) : Prop
    extends cut.Divides Tree.nodes tree.nodes i where
  before : cut.before.Consistent depth
  node : cut.node.Consistent depth
  after : cut.after.Consistent depth

omit [Arithmetic] [Arithmetic.Exact] in
theorem Tree.Splits.length_eq {tree : Tree α} {i : Nat} {cut : Cut (Tree α) α}
    (h : tree.Splits depth i cut) (ht : tree.Consistent depth) :
    tree.toList.length =
      cut.before.toList.length + (cut.node.toList.length + cut.after.toList.length) := by
  calc
    tree.toList.length = (Node.elements cut.before.nodes ++
        (cut.node.toList ++ Node.elements cut.after.nodes)).length := by
      rw [ht.toList_eq, h.nodes_eq, Node.elements_append, Node.elements_cons]
    _ = cut.before.toList.length + (cut.node.toList.length + cut.after.toList.length) := by
      rw [← h.before.toList_eq, ← h.after.toList_eq, List.length_append, List.length_append]

section

variable {size : UInt64} {left right : Digit α} {middle : Tree α}

theorem Tree.Consistent.splitLeft (hl : left.Consistent depth) (hm : middle.Consistent (depth + 1))
    (hr : right.Consistent depth) (boundLeft : left.toList.length < UInt64.size)
    (boundMiddle : middle.toList.length < UInt64.size) {i : Nat} (inside : i < left.toList.length) :
    ∃ cut after, left.split (.ofNat i) = .ok cut ∧ Tree.levelLeft cut.after middle right = .ok after ∧
      (Tree.deep size left middle right).Splits depth i
        ⟨.build cut.before, cut.node, cut.offset, after⟩ := by
  obtain ⟨cut, found, divides, hb, hn, ha, -, short⟩ := hl.split boundLeft inside
  obtain ⟨after, leveled, hafter, same⟩ := Tree.Consistent.levelLeft ha short hm boundMiddle hr
  refine ⟨cut, after, found, leveled, ?_, .build hb, hn, hafter⟩
  exact divides.within [] _ (nodes_build _) same rfl (Nat.zero_add i).symm

theorem Tree.Consistent.splitRight (hl : left.Consistent depth) (hm : middle.Consistent (depth + 1))
    (hr : right.Consistent depth) (boundMiddle : middle.toList.length < UInt64.size)
    (boundRight : right.toList.length < UInt64.size) {i : Nat} (inside : i < right.toList.length) :
    ∃ cut before, right.split (.ofNat i) = .ok cut ∧ Tree.levelRight left middle cut.before = .ok before ∧
      (Tree.deep size left middle right).Splits depth (left.toList.length + middle.toList.length + i)
        ⟨before, cut.node, cut.offset, .build cut.after⟩ := by
  obtain ⟨cut, found, divides, hb, hn, ha, short, -⟩ := hr.split boundRight inside
  obtain ⟨before, leveled, hbefore, same⟩ := Tree.Consistent.levelRight hl hm boundMiddle hb short
  refine ⟨cut, before, found, leveled, ?_, hbefore, hn, .build ha⟩
  refine divides.within (left.nodes ++ middle.nodes.flatMap Node.children) [] ?_ ?_ ?_ ?_
  · rw [same, List.append_assoc]
  · rw [nodes_build, List.append_nil]
  · rw [nodes, List.append_nil, List.append_assoc]
  · rw [Node.elements_append, Node.elements_flatMap_children hm.of_mem_nodes, ← hm.toList_eq,
      List.length_append, ← Digit.toList_eq]

/-- A cut of the middle goes through a branch, whose children are cut again. -/
theorem Tree.Splits.unpack {outer : Cut (Tree α) α} {i : Nat} (h : middle.Splits (depth + 1) i outer)
    (hl : left.Consistent depth) (hm : middle.Consistent (depth + 1)) (hr : right.Consistent depth)
    (bound : middle.toList.length < UInt64.size) :
    ∃ digit cut before after, Digit.ofBranch outer.node = .ok digit ∧
      digit.split outer.offset = .ok cut ∧ Tree.levelRight left outer.before cut.before = .ok before ∧
      Tree.levelLeft cut.after outer.after right = .ok after ∧
      (Tree.deep size left middle right).Splits depth (left.toList.length + i)
        ⟨before, cut.node, cut.offset, after⟩ := by
  obtain ⟨⟨parts, offset, reaches, small, at_eq⟩, hob, hon, hoa⟩ := h
  have lengths := congrArg (List.length ∘ Node.elements) parts
  simp only [Function.comp, Node.elements_append, Node.elements_cons, List.length_append,
    ← hob.toList_eq, ← hoa.toList_eq, ← hm.toList_eq] at lengths at_eq
  obtain ⟨digit, unpacked, children, hd⟩ := hon.ofBranch
  have digitList : digit.toList = outer.node.toList := by
    rw [Digit.toList_eq, children, hon.elements_children]
  obtain ⟨cut, found, divides, hb, hn, ha, shortBefore, shortAfter⟩ :=
    hd.split (by rw [digitList]; omega) (digitList ▸ small)
  obtain ⟨before, madeBefore, hbefore, nodesBefore⟩ :=
    Tree.Consistent.levelRight hl hob (by omega) hb shortBefore
  obtain ⟨after, madeAfter, hafter, nodesAfter⟩ :=
    Tree.Consistent.levelLeft ha shortAfter hoa (by omega) hr
  refine ⟨digit, cut, before, after, unpacked, reaches ▸ found, madeBefore, madeAfter, ?_, hbefore, hn,
    hafter⟩
  refine divides.within (left.nodes ++ outer.before.nodes.flatMap Node.children)
    (outer.after.nodes.flatMap Node.children ++ right.nodes) ?_ nodesAfter ?_ ?_
  · rw [nodesBefore, List.append_assoc]
  · rw [nodes, parts, List.flatMap_append, List.flatMap_cons, children]
    simp only [List.append_assoc]
  · rw [Node.elements_append, Node.elements_flatMap_children hob.of_mem_nodes, ← hob.toList_eq,
      List.length_append, ← Digit.toList_eq]
    omega

end

theorem Tree.Consistent.split? {tree : Tree α} (h : tree.Consistent depth)
    (bound : tree.toList.length < UInt64.size) {i : Nat} (inside : i < tree.toList.length) :
    ∃ cut, tree.split? (.ofNat i) = .ok (some cut) ∧ tree.Splits depth i cut := by
  induction tree generalizing depth i with
  | empty => exact absurd inside (Nat.not_lt_zero i)
  | single node =>
    have falls := ofNat_lt_size_iff (Node.Consistent.size_eq h) (Nat.lt_trans inside bound) bound
    refine ⟨⟨empty, node, .ofNat i, empty⟩, ?_, ⟨rfl, i, rfl, inside, ?_⟩, trivial, h, trivial⟩
    · rw [Tree.split?, if_pos (falls.mpr inside)]
    · exact (Nat.zero_add i).symm
  | deep size left middle right ih =>
    have sized : size = .ofNat (Tree.deep size left middle right).toList.length := h.size_eq
    have whole := ofNat_lt_size_iff sized (Nat.lt_trans inside bound) bound
    rw [Tree.split?, if_pos (whole.mpr inside)]
    obtain ⟨hl, hm, hr, -⟩ := h
    simp only [toList, List.length_append] at bound inside
    rw [within_or_past hl.size_eq (by omega) (by omega)]
    by_cases inLeft : i < left.toList.length
    · obtain ⟨cut, after, found, leveled, splits⟩ :=
        Tree.Consistent.splitLeft hl hm hr (by omega) (by omega) inLeft
      rw [if_pos inLeft, found, ok_bind, leveled]
      exact ⟨_, rfl, splits⟩
    · obtain ⟨pastLeft, rfl⟩ := Nat.exists_eq_add_of_le (Nat.not_lt.mp inLeft)
      rw [if_neg inLeft, Nat.add_sub_cancel_left, within_or_past hm.size_eq (by omega) (by omega)]
      by_cases inMiddle : pastLeft < middle.toList.length
      · obtain ⟨outer, cutOuter, splitsOuter⟩ := ih hm (by omega) inMiddle
        obtain ⟨digit, cut, before, after, unpacked, found, madeBefore, madeAfter, splits⟩ :=
          splitsOuter.unpack hl hm hr (by omega)
        rw [if_pos inMiddle, cutOuter, ok_bind]
        simp only [unpacked, found, madeBefore, madeAfter, ok_bind, pure_eq_ok]
        exact ⟨_, rfl, splits⟩
      · obtain ⟨pastMiddle, rfl⟩ := Nat.exists_eq_add_of_le (Nat.not_lt.mp inMiddle)
        obtain ⟨cut, before, found, leveled, splits⟩ :=
          Tree.Consistent.splitRight hl hm hr (by omega) (by omega) (i := pastMiddle) (by omega)
        rw [if_neg inMiddle, Nat.add_sub_cancel_left, found, ok_bind, leveled]
        exact ⟨_, rfl, Nat.add_assoc _ _ _ ▸ splits⟩

omit [Arithmetic.Exact] in
theorem Tree.Consistent.split?_none {tree : Tree α} (h : tree.Consistent depth)
    (bound : tree.toList.length < UInt64.size) {i : Nat} (hi : i < UInt64.size)
    (outside : ¬i < tree.toList.length) : tree.split? (.ofNat i) = .ok none := by
  have beyond := mt (ofNat_lt_size_iff h.size_eq hi bound).mp outside
  cases tree with
  | empty => rfl
  | single node => exact congrArg Except.ok (if_neg beyond)
  | deep size left middle right => exact if_neg beyond

end

end IndexedSequence
