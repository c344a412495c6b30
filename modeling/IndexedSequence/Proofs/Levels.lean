import IndexedSequence.Proofs.Auditing
import IndexedSequence.Proofs.Reversal
import IndexedSequence.Proofs.Splitting

set_option autoImplicit false

namespace IndexedSequence

variable {α : Type} {depth : Nat}

/-- Every level caches the sum of the sizes of its parts. -/
def Tree.SumsUp : Tree α → Prop
  | deep size left middle right => size = left.size + middle.size + right.size ∧ middle.SumsUp
  | _ => True

theorem Tree.Consistent.sumsUp {tree : Tree α} (h : tree.Consistent depth) : tree.SumsUp := by
  induction tree generalizing depth with
  | empty => trivial
  | single node => trivial
  | deep size left middle right ih =>
    obtain ⟨hl, hm, hr, sized⟩ := h
    refine ⟨?_, ih hm⟩
    rw [hl.size_eq, hm.size_eq, hr.size_eq, sized, UInt64.ofNat_add, UInt64.ofNat_add]

/-- A tree with just these nodes on its own level, all levels as deep as they should be, and every size the
sum of its parts and the number of elements: as a word always, and as a number below 2^64. -/
structure Tree.Lists (depth : Nat) (nodes : List (Node α)) (tree : Tree α) : Prop where
  nodes_eq : tree.nodes = nodes
  consistent : tree.Consistent depth
  sumsUp : tree.SumsUp
  size_eq : tree.size = .ofNat (Node.elements nodes).length
  wellFormed_iff : tree.WellFormed depth ↔ (Node.elements nodes).length < UInt64.size

theorem Tree.Consistent.lists {tree : Tree α} {nodes : List (Node α)} (h : tree.Consistent depth)
    (same : tree.nodes = nodes) : tree.Lists depth nodes where
  nodes_eq := same
  consistent := h
  sumsUp := h.sumsUp
  size_eq := by rw [h.size_eq, h.toList_eq, same]
  wellFormed_iff := by rw [Tree.wellFormed_iff, and_iff_right h, h.toList_eq, same]

theorem Tree.Lists.toList_eq {tree : Tree α} {nodes : List (Node α)} (h : tree.Lists depth nodes) :
    tree.toList = Node.elements nodes := by
  rw [h.consistent.toList_eq, h.nodes_eq]

theorem Tree.WellFormed.consistent {tree : Tree α} (h : tree.WellFormed depth) : tree.Consistent depth :=
  (Tree.wellFormed_iff.mp h).1

theorem Tree.WellFormed.bounded {tree : Tree α} (h : tree.WellFormed depth) :
    tree.toList.length < UInt64.size :=
  (Tree.wellFormed_iff.mp h).2

theorem Tree.WellFormed.lt_size_iff {tree : Tree α} (h : tree.WellFormed depth) {index : UInt64} :
    index < tree.size ↔ index.toNat < tree.toList.length := by
  rw [UInt64.lt_iff_toNat_lt, h.toNat_size]

theorem Node.WellFormed.consistent {node : Node α} (h : node.WellFormed depth) : node.Consistent depth :=
  (Node.wellFormed_iff.mp h).1

theorem Tree.Consistent.wellFormed_of_le {tree whole : Tree α} (h : tree.Consistent depth)
    (hw : whole.WellFormed depth) (le : tree.toList.length ≤ whole.toList.length) :
    tree.WellFormed depth :=
  Tree.wellFormed_iff.mpr ⟨h, Nat.lt_of_le_of_lt le hw.bounded⟩

theorem Node.Consistent.wellFormed_of_le {node : Node α} {whole : Tree α} (h : node.Consistent depth)
    (hw : whole.WellFormed depth) (le : node.toList.length ≤ whole.toList.length) :
    node.WellFormed depth :=
  Node.wellFormed_iff.mpr ⟨h, Nat.lt_of_le_of_lt le hw.bounded⟩

theorem Tree.popped_none_iff {tree : Tree α} {popped : Except Fault (Option (Node α × Tree α))}
    (nothing : tree = empty → popped = .ok none)
    (something : tree ≠ empty → ∃ node rest, popped = .ok (some (node, rest))) :
    popped = .ok none ↔ tree = empty := by
  by_cases empty : tree = .empty
  · exact iff_of_true (nothing empty) empty
  · obtain ⟨node, rest, given⟩ := something empty
    rw [given]
    exact iff_of_false nofun empty

section

variable [Arithmetic] [Arithmetic.Exact]

theorem Tree.WellFormed.popFront_some {tree : Tree α} (h : tree.WellFormed depth) (ne : tree ≠ empty) :
    ∃ first rest, tree.popFront = .ok (some (first, rest)) ∧ tree.nodes = first :: rest.nodes ∧
      first.WellFormed depth ∧ rest.WellFormed depth ∧ rest.SumsUp := by
  obtain ⟨first, rest, popped, hf, hr, same⟩ := h.consistent.popsFront h.bounded ne
  have parts : tree.toList.length = first.toList.length + rest.toList.length := by
    rw [h.consistent.toList_eq, same, Node.elements_cons, List.length_append, ← hr.toList_eq]
  exact ⟨first, rest, popped, same, hf.wellFormed_of_le h (by omega), hr.wellFormed_of_le h (by omega),
    hr.sumsUp⟩

theorem Tree.WellFormed.popBack_some {tree : Tree α} (h : tree.WellFormed depth) (ne : tree ≠ empty) :
    ∃ last rest, tree.popBack = .ok (some (last, rest)) ∧ tree.nodes = rest.nodes ++ [last] ∧
      last.WellFormed depth ∧ rest.WellFormed depth ∧ rest.SumsUp := by
  obtain ⟨last, rest, popped, hl, hr, same⟩ := h.consistent.popsBack h.bounded ne
  have parts : tree.toList.length = rest.toList.length + last.toList.length := by
    rw [h.consistent.toList_eq, same, Node.elements_append, List.length_append, ← hr.toList_eq]
    simp [Node.elements]
  exact ⟨last, rest, popped, same, hl.wellFormed_of_le h (by omega), hr.wellFormed_of_le h (by omega),
    hr.sumsUp⟩

/-- Pushes and pops at any level are those of the list of nodes at that level, whatever digits overflow or run
empty further in, and leave every size that of the parts it is made of. -/
theorem Tree.ends_at_every_level {tree : Tree α} {node : Node α} (h : tree.WellFormed depth)
    (hn : node.WellFormed depth) :
    (tree.pushFront node).Lists depth (node :: tree.nodes) ∧
      (tree.pushBack node).Lists depth (tree.nodes ++ [node]) ∧
      (tree.popFront = .ok none ↔ tree = empty) ∧
      (tree.popBack = .ok none ↔ tree = empty) ∧
      (tree ≠ empty → ∃ first rest, tree.popFront = .ok (some (first, rest)) ∧
        tree.nodes = first :: rest.nodes ∧ first.WellFormed depth ∧ rest.WellFormed depth ∧
        rest.SumsUp) ∧
      (tree ≠ empty → ∃ last rest, tree.popBack = .ok (some (last, rest)) ∧
        tree.nodes = rest.nodes ++ [last] ∧ last.WellFormed depth ∧ rest.WellFormed depth ∧
        rest.SumsUp) := by
  refine ⟨?_, ?_, ?_, ?_, h.popFront_some, h.popBack_some⟩
  · exact (h.consistent.pushFront hn.consistent).lists (nodes_pushFront tree node)
  · exact (h.consistent.pushBack hn.consistent).lists (nodes_pushBack tree node)
  · refine popped_none_iff (fun nothing => by rw [nothing]; rfl) fun ne => ?_
    obtain ⟨first, rest, popped, -⟩ := h.popFront_some ne
    exact ⟨first, rest, popped⟩
  · refine popped_none_iff (fun nothing => by rw [nothing]; rfl) fun ne => ?_
    obtain ⟨last, rest, popped, -⟩ := h.popBack_some ne
    exact ⟨last, rest, popped⟩

end

/-- Branches of two leaves, as many as a digit holds on either side, with one more pair of them between. -/
def fullLevel : Tree Nat :=
  let pair (n : Nat) : Node Nat := .pair (.leaf n) (.leaf (n + 1))
  .level (.four (pair 0) (pair 2) (pair 4) (pair 6)) (.single (.pair (pair 8) (pair 10)))
    (.one (pair 12))

theorem Tree.fullLevel_ends :
    let node : Node Nat := .triple (.leaf 20) (.leaf 21) (.leaf 22)
    fullLevel.WellFormed 1 ∧ node.WellFormed 1 ∧
      (fullLevel.pushFront node).Lists 1 (node :: fullLevel.nodes) ∧
      (fullLevel.pushFront node).height = 2 ∧
      ∃ last rest, fullLevel.popBack = .ok (some (last, rest)) ∧
        fullLevel.nodes = rest.nodes ++ [last] ∧ rest.WellFormed 1 ∧ rest.SumsUp := by
  intro node
  have h : fullLevel.WellFormed 1 := by decide
  have hn : node.WellFormed 1 := by decide
  obtain ⟨pushed, -, -, -, -, popped⟩ := ends_at_every_level h hn
  obtain ⟨last, rest, given, same, -, hr, sums⟩ := popped (by decide)
  exact ⟨h, hn, pushed, by decide, last, rest, given, same, hr, sums⟩

theorem Tree.concat_empty (tree : Tree α) : tree.concat empty = .ok tree := by
  cases tree <;> rfl

theorem Tree.empty_concat (tree : Tree α) : (empty : Tree α).concat tree = .ok tree := rfl

theorem Tree.Consistent.concat_lists {left right : Tree α} (hl : left.Consistent depth)
    (hr : right.Consistent depth) :
    ∃ tree, left.concat right = .ok tree ∧ tree.Lists depth (left.nodes ++ right.nodes) := by
  obtain ⟨tree, joined, ht, same⟩ := hl.concat hr
  exact ⟨tree, joined, ht.lists same⟩

theorem Tree.Consistent.concat_assoc {first second third : Tree α} (hf : first.Consistent depth)
    (hs : second.Consistent depth) (ht : third.Consistent depth) :
    ∃ tree tree', (do (← first.concat second).concat third) = Except.ok tree ∧
      (do first.concat (← second.concat third)) = Except.ok tree' ∧
      tree.Lists depth (first.nodes ++ (second.nodes ++ third.nodes)) ∧
      tree'.Lists depth (first.nodes ++ (second.nodes ++ third.nodes)) := by
  obtain ⟨before, joinedBefore, hb⟩ := hf.concat_lists hs
  obtain ⟨after, joinedAfter, ha⟩ := hs.concat_lists ht
  obtain ⟨tree, joined, h⟩ := hb.consistent.concat_lists ht
  obtain ⟨tree', joined', h'⟩ := hf.concat_lists ha.consistent
  rw [hb.nodes_eq, List.append_assoc] at h
  rw [ha.nodes_eq] at h'
  exact ⟨tree, tree', by rw [joinedBefore, ok_bind, joined], by rw [joinedAfter, ok_bind, joined'], h, h'⟩

/-- Joining at any level puts the lists of nodes together, with what is loose in between. -/
theorem Tree.join_at_every_level {left right : Tree α} {between : List (Node α)}
    (hl : left.WellFormed depth) (hb : ∀ node ∈ between, node.WellFormed depth)
    (hr : right.WellFormed depth) :
    (∃ tree, left.join between right = .ok tree ∧
      tree.Lists depth (left.nodes ++ (between ++ right.nodes))) ∧
    (∃ tree, left.concat right = .ok tree ∧ tree.Lists depth (left.nodes ++ right.nodes) ∧
      tree.toList = left.toList ++ right.toList ∧ tree.size = left.size + right.size ∧
      (left.toList.length + right.toList.length < UInt64.size →
        tree.WellFormed depth ∧ tree.size.toNat = left.size.toNat + right.size.toNat)) ∧
    left.concat empty = .ok left ∧ empty.concat left = .ok left ∧
    ∀ third : Tree α, third.WellFormed depth →
      ∃ tree tree', (do (← left.concat right).concat third) = Except.ok tree ∧
        (do left.concat (← right.concat third)) = Except.ok tree' ∧
        tree.toList = left.toList ++ (right.toList ++ third.toList) ∧ tree'.toList = tree.toList := by
  have cl := hl.consistent
  have cr := hr.consistent
  refine ⟨?_, ?_, concat_empty left, empty_concat left, ?_⟩
  · obtain ⟨tree, joined, ht, same⟩ := cl.join (fun node mem => (hb node mem).consistent) cr
    exact ⟨tree, joined, ht.lists same⟩
  · obtain ⟨tree, joined, h⟩ := cl.concat_lists cr
    have elements : tree.toList = left.toList ++ right.toList := by
      rw [h.toList_eq, Node.elements_append, ← cl.toList_eq, ← cr.toList_eq]
    refine ⟨tree, joined, h, elements, ?_, fun bound => ?_⟩
    · rw [h.consistent.size_eq, cl.size_eq, cr.size_eq, elements, List.length_append, UInt64.ofNat_add]
    · have small : tree.toList.length < UInt64.size := by rwa [elements, List.length_append]
      refine ⟨Tree.wellFormed_iff.mpr ⟨h.consistent, small⟩, ?_⟩
      rw [h.consistent.toNat_size small, hl.toNat_size, hr.toNat_size, elements,
        List.length_append]
  · intro third ht
    obtain ⟨tree, tree', joined, joined', h, h'⟩ := cl.concat_assoc cr ht.consistent
    refine ⟨tree, tree', joined, joined', ?_, by rw [h.toList_eq, h'.toList_eq]⟩
    rw [h.toList_eq, Node.elements_append, Node.elements_append, ← cl.toList_eq, ← cr.toList_eq,
      ← ht.consistent.toList_eq]

theorem Tree.fullLevel_join :
    let between : List (Node Nat) := [.pair (.leaf 30) (.leaf 31), .triple (.leaf 32) (.leaf 33) (.leaf 34)]
    fullLevel.WellFormed 1 ∧ (∀ node ∈ between, node.WellFormed 1) ∧ fullLevel.reversed.WellFormed 1 ∧
      (∃ tree, fullLevel.reversed.join between fullLevel = .ok tree ∧
        tree.Lists 1 (fullLevel.reversed.nodes ++ (between ++ fullLevel.nodes)) ∧ tree.height = 2) ∧
      ∃ tree, fullLevel.reversed.concat fullLevel = .ok tree ∧
        tree.toList = fullLevel.reversed.toList ++ fullLevel.toList ∧ tree.size.toNat = 28 := by
  intro between
  have h : fullLevel.WellFormed 1 := by decide
  have hr : fullLevel.reversed.WellFormed 1 := by decide
  have hb : ∀ node ∈ between, node.WellFormed 1 := by decide
  obtain ⟨⟨tree, joined, lists⟩, ⟨whole, concatenated, -, elements, -, small⟩, -⟩ :=
    join_at_every_level hr hb h
  have high : tree.height = 2 := by
    have evaluated : (fullLevel.reversed.join between fullLevel).map height = .ok 2 := by rfl
    rw [joined] at evaluated
    exact Except.ok.inj evaluated
  have size : whole.size.toNat = 28 := (small (by decide)).2
  exact ⟨h, hb, hr, ⟨tree, joined, lists, high⟩, whole, concatenated, elements, size⟩

section

variable [Arithmetic] [Arithmetic.Exact]

omit [Arithmetic.Exact] in
theorem Tree.WellFormed.split?_eq_none {tree : Tree α} (h : tree.WellFormed depth) {index : UInt64}
    (past : tree.size ≤ index) : tree.split? index = .ok none := by
  have outside : ¬index.toNat < tree.toList.length := mt h.lt_size_iff.mpr (UInt64.not_lt.mpr past)
  have nothing := h.consistent.split?_none h.bounded index.toNat_lt_size outside
  rwa [UInt64.ofNat_toNat] at nothing

theorem Tree.WellFormed.split?_eq_some {tree : Tree α} (h : tree.WellFormed depth) {index : UInt64}
    (within : index < tree.size) :
    ∃ cut, tree.split? index = .ok (some cut) ∧ cut.before.WellFormed depth ∧
      cut.node.WellFormed depth ∧ cut.after.WellFormed depth ∧
      tree.nodes = cut.before.nodes ++ cut.node :: cut.after.nodes ∧
      cut.before.size.toNat + cut.offset.toNat = index.toNat ∧ cut.offset < cut.node.size := by
  obtain ⟨cut, found, splits⟩ := h.consistent.split? h.bounded (h.lt_size_iff.mp within)
  rw [UInt64.ofNat_toNat] at found
  have lengths := splits.length_eq h.consistent
  have hb : cut.before.WellFormed depth := splits.before.wellFormed_of_le h (by omega)
  have hn : cut.node.WellFormed depth := splits.node.wellFormed_of_le h (by omega)
  have ha : cut.after.WellFormed depth := splits.after.wellFormed_of_le h (by omega)
  obtain ⟨offset, reaches, small, at_eq⟩ := splits.reaches
  have nodeBound : cut.node.toList.length < UInt64.size := (Node.wellFormed_iff.mp hn).2
  have word : cut.offset.toNat = offset := toNat_ofNat_of_eq reaches (by omega)
  refine ⟨cut, found, hb, hn, ha, splits.nodes_eq, ?_, ?_⟩
  · rw [hb.toNat_size, splits.before.toList_eq, word, at_eq]
  · rw [UInt64.lt_iff_toNat_lt, toNat_ofNat_of_eq splits.node.size_eq nodeBound, word]
    exact small

/-- A cut gives nothing just when the index is past the tree. Else it parts the list of nodes around the one that the
index falls into. -/
theorem Tree.split_at_every_level {tree : Tree α} (h : tree.WellFormed depth) (index : UInt64) :
    (tree.split? index = .ok none ↔ tree.size ≤ index) ∧
      (index < tree.size →
        ∃ cut, tree.split? index = .ok (some cut) ∧ cut.before.WellFormed depth ∧
          cut.node.WellFormed depth ∧ cut.after.WellFormed depth ∧
          tree.nodes = cut.before.nodes ++ cut.node :: cut.after.nodes ∧
          cut.before.size.toNat + cut.offset.toNat = index.toNat ∧ cut.offset < cut.node.size) ∧
      ∀ size left middle right, tree = deep size left middle right →
        left.size ≤ index → index - left.size < middle.size →
          ∃ outer, middle.split? (index - left.size) = .ok (some outer) := by
  refine ⟨⟨fun nothing => ?_, h.split?_eq_none⟩, h.split?_eq_some, ?_⟩
  · refine UInt64.not_lt.mp fun within => ?_
    obtain ⟨cut, found, -⟩ := h.split?_eq_some within
    rw [nothing] at found
    cases found
  · rintro size left middle right rfl - within
    obtain ⟨-, hm, -⟩ := h
    obtain ⟨outer, found, -⟩ := Tree.WellFormed.split?_eq_some hm within
    exact ⟨outer, found⟩

end

theorem Tree.fullLevel_split :
    fullLevel.WellFormed 1 ∧ (11 : UInt64) < fullLevel.size ∧
      ∃ cut, fullLevel.split? 11 = .ok (some cut) ∧ cut.before.WellFormed 1 ∧ cut.after.WellFormed 1 ∧
        fullLevel.nodes = cut.before.nodes ++ cut.node :: cut.after.nodes ∧
        cut.before.size.toNat + cut.offset.toNat = 11 ∧ cut.node = .pair (.leaf 10) (.leaf 11) := by
  have h : fullLevel.WellFormed 1 := by decide
  have within : (11 : UInt64) < fullLevel.size := by decide
  obtain ⟨cut, found, hb, -, ha, same, reaches, -⟩ := (split_at_every_level h 11).2.1 within
  have node : cut.node = .pair (.leaf 10) (.leaf 11) := by
    have evaluated : (fullLevel.split? 11).map (Option.map Cut.node) =
        .ok (some (.pair (.leaf 10) (.leaf 11))) := by rfl
    rw [found] at evaluated
    exact Option.some.inj (Except.ok.inj evaluated)
  exact ⟨h, within, cut, found, hb, ha, same, reaches, node⟩

/-- A reversed tree has the nodes reversed in reverse order, and reversed again it is the tree itself, down to every
cached size. -/
theorem Tree.reversal_at_every_level {tree : Tree α} (h : tree.WellFormed depth) :
    tree.reversed.WellFormed depth ∧ tree.reversed.size = tree.size ∧
      tree.reversed.toList = tree.toList.reverse ∧
      tree.reversed.nodes = (tree.nodes.map Node.reversed).reverse ∧
      tree.reversed.reversed = tree := by
  have c := h.consistent
  have same : tree.reversed.toList.length = tree.toList.length := by
    rw [toList_reversed, List.length_reverse]
  exact ⟨c.reversed.wellFormed_of_le h (Nat.le_of_eq same), c.size_reversed, toList_reversed tree,
    nodes_reversed tree, c.reversed_reversed⟩

/-- Branches of both arities on two levels; and a level with one branch that counts a leaf too many, which reversal
does not leave as it was. -/
theorem Tree.fullLevel_reversal :
    let tree := fullLevel.pushFront (.triple (.leaf 20) (.leaf 21) (.leaf 22))
    let miscounted : Tree Nat := .single (.two 3 (.leaf 1) (.leaf 2))
    tree.WellFormed 1 ∧ tree.height = 2 ∧ tree.reversed ≠ tree ∧ tree.reversed.size = 17 ∧
      tree.reversed.toList = [13, 12, 11, 10, 9, 8, 7, 6, 5, 4, 3, 2, 1, 0, 22, 21, 20] ∧
      tree.reversed.reversed = tree ∧ miscounted.reversed.reversed ≠ miscounted := by
  intro tree miscounted
  have h : tree.WellFormed 1 := by decide
  obtain ⟨-, size, elements, -, restored⟩ := reversal_at_every_level h
  exact ⟨h, by decide, by decide, size, elements, restored, by decide⟩

/-- What a push behind overflows, a push in front of the reversed tree overflows, with the same branch of three
read from behind. -/
theorem Tree.Consistent.reversed_pushBack {tree : Tree α} {node : Node α} (h : tree.Consistent depth)
    (hn : node.Consistent depth) :
    (tree.pushBack node).reversed = tree.reversed.pushFront node.reversed := by
  induction tree generalizing depth node with
  | empty => rfl
  | single a =>
    have ha : a.Consistent depth := h
    rw [Tree.pushBack, Tree.reversed, Tree.reversed, Tree.pushFront, hn.size_reversed, ha.size_reversed,
      UInt64.add_comm node.size]
    rfl
  | deep size left middle right ih =>
    obtain ⟨-, hm, hr, -⟩ := h
    cases right with
    | one a | two a b | three a b c =>
      rw [Tree.pushBack, Tree.reversed, Tree.reversed, Digit.reversed, Digit.reversed, Tree.pushFront,
        hn.size_reversed]
    | four a b c d =>
      simp only [Digit.Consistent, Digit.nodes, List.forall_mem_cons] at hr
      have carried : (Node.triple a b c).Consistent (depth + 1) := .triple hr.1 hr.2.1 hr.2.2.1
      rw [Tree.pushBack, Tree.reversed, ih hm carried, Tree.reversed, Digit.reversed, Digit.reversed,
        Tree.pushFront, hn.size_reversed]
      rfl

theorem Tree.Consistent.reversed_pushFront {tree : Tree α} {node : Node α} (h : tree.Consistent depth)
    (hn : node.Consistent depth) :
    (tree.pushFront node).reversed = tree.reversed.pushBack node.reversed := by
  calc
    (tree.pushFront node).reversed = (tree.reversed.reversed.pushFront node.reversed.reversed).reversed := by
      rw [h.reversed_reversed, hn.reversed_reversed]
    _ = (tree.reversed.pushBack node.reversed).reversed.reversed := by
      rw [h.reversed.reversed_pushBack hn.reversed]
    _ = tree.reversed.pushBack node.reversed := (h.reversed.pushBack hn.reversed).reversed_reversed

theorem Tree.Consistent.reversed_foldl {push mirrored : Tree α → Node α → Tree α} {tree : Tree α}
    {nodes : List (Node α)}
    (mirrors : ∀ {tree : Tree α} {node : Node α}, tree.Consistent depth → node.Consistent depth →
      (push tree node).Consistent depth ∧ (push tree node).reversed = mirrored tree.reversed node.reversed)
    (h : tree.Consistent depth) (hn : ∀ node ∈ nodes, node.Consistent depth) :
    (nodes.foldl push tree).reversed = (nodes.map Node.reversed).foldl mirrored tree.reversed := by
  induction nodes generalizing tree with
  | nil => rfl
  | cons node rest ih =>
    rw [List.forall_mem_cons] at hn
    obtain ⟨pushed, mirror⟩ := mirrors h hn.1
    rw [List.map_cons, List.foldl_cons, List.foldl_cons, ← mirror]
    exact ih pushed hn.2

/-- The two ways to push are each other's mirror image, down to every digit, branch and cached size. -/
theorem Tree.pushes_mirror_each_other {tree : Tree α} (h : tree.WellFormed depth) :
    (∀ node : Node α, node.WellFormed depth →
      (tree.pushBack node).reversed = tree.reversed.pushFront node.reversed ∧
        (tree.pushFront node).reversed = tree.reversed.pushBack node.reversed) ∧
      ∀ nodes : List (Node α), (∀ node ∈ nodes, node.WellFormed depth) →
        (tree.pushBackAll nodes).reversed = (nodes.map Node.reversed).foldl pushFront tree.reversed ∧
          (nodes.foldl pushFront tree).reversed = tree.reversed.pushBackAll (nodes.map Node.reversed) := by
  have c := h.consistent
  refine ⟨fun node hn => ?_, fun nodes hn => ?_⟩
  · exact ⟨c.reversed_pushBack hn.consistent, c.reversed_pushFront hn.consistent⟩
  · have consistent : ∀ node ∈ nodes, node.Consistent depth := fun node mem => (hn node mem).consistent
    exact ⟨c.reversed_foldl (fun ht hn => ⟨ht.pushBack hn, ht.reversed_pushBack hn⟩) consistent,
      c.reversed_foldl (fun ht hn => ⟨ht.pushFront hn, ht.reversed_pushFront hn⟩) consistent⟩

/-- A push behind keeps the wrong size of a branch, where the push in front of the mirror image counts it afresh. -/
theorem Tree.fullLevel_pushes_mirrored :
    let pairs : List (Node Nat) := (List.range 25).map fun n => .pair (.leaf (n + 20)) (.leaf (n + 50))
    let triple : Node Nat := .triple (.leaf 80) (.leaf 81) (.leaf 82)
    let miscounted : Tree Nat := .single (.two 3 (.leaf 1) (.leaf 2))
    fullLevel.WellFormed 1 ∧ (∀ node ∈ pairs, node.WellFormed 1) ∧ triple.WellFormed 1 ∧
      (fullLevel.pushBackAll pairs).height = 3 ∧
      (fullLevel.pushBackAll pairs).reversed = (pairs.map Node.reversed).foldl pushFront fullLevel.reversed ∧
      (fullLevel.pushFront triple).reversed = fullLevel.reversed.pushBack triple.reversed ∧
      (miscounted.pushBack triple).reversed ≠ miscounted.reversed.pushFront triple.reversed := by
  intro pairs triple miscounted
  have h : fullLevel.WellFormed 1 := by decide
  have hp : ∀ node ∈ pairs, node.WellFormed 1 := by decide
  have ht : triple.WellFormed 1 := by decide
  obtain ⟨one, many⟩ := pushes_mirror_each_other h
  exact ⟨h, hp, ht, by decide, (many pairs hp).1, (one triple ht).2, by decide⟩

end IndexedSequence
