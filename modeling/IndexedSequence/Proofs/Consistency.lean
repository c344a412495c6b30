import IndexedSequence.Tree.WellFormed

/-!
Consistent nodes and trees: as deep as their level says, and every cached size the number of leaves as a
word, which wraps. No operation can lose consistency by growing, so it is carried through all of them;
below 2^64 elements it is the same as being well formed.
-/

set_option autoImplicit false

namespace IndexedSequence

variable {α : Type} {depth : Nat}

/-- Like `WellFormed`, with sizes taken modulo 2^64. -/
def Node.Consistent : Nat → Node α → Prop
  | 0, leaf _ => True
  | depth + 1, two size first second =>
    first.Consistent depth ∧ second.Consistent depth ∧
      size = .ofNat (first.toList.length + second.toList.length)
  | depth + 1, three size first second third =>
    first.Consistent depth ∧ second.Consistent depth ∧ third.Consistent depth ∧
      size = .ofNat (first.toList.length + second.toList.length + third.toList.length)
  | _, _ => False

def Digit.Consistent (depth : Nat) (digit : Digit α) : Prop :=
  ∀ node ∈ digit.nodes, node.Consistent depth

def Tree.Consistent : Nat → Tree α → Prop
  | _, empty => True
  | depth, single node => node.Consistent depth
  | depth, deep size left middle right =>
    left.Consistent depth ∧ middle.Consistent (depth + 1) ∧ right.Consistent depth ∧
      size = .ofNat (left.toList.length + middle.toList.length + right.toList.length)

theorem Node.elements_cons (node : Node α) (rest : List (Node α)) :
    Node.elements (node :: rest) = node.toList ++ Node.elements rest := rfl

theorem Node.elements_append (front back : List (Node α)) :
    Node.elements (front ++ back) = Node.elements front ++ Node.elements back :=
  List.flatMap_append

theorem Node.Consistent.size_eq {node : Node α} (h : node.Consistent depth) :
    node.size = .ofNat node.toList.length := by
  cases depth with
  | zero =>
    cases node with
    | leaf element => rfl
    | two size first second => exact h.elim
    | three size first second third => exact h.elim
  | succ depth =>
    cases node with
    | leaf element => exact h.elim
    | two size first second =>
      rw [Node.size, Node.toList, List.length_append]
      exact h.2.2
    | three size first second third =>
      rw [Node.size, Node.toList, List.length_append, List.length_append, ← Nat.add_assoc]
      exact h.2.2.2

theorem Digit.Consistent.size_eq {digit : Digit α} (h : digit.Consistent depth) :
    digit.size = .ofNat digit.toList.length := by
  have sizes : ∀ node ∈ digit.nodes, node.size = .ofNat node.toList.length :=
    fun node mem => (h node mem).size_eq
  cases digit <;>
    simp_all [Digit.size, Digit.toList, Digit.nodes, Node.elements, UInt64.ofNat_add, UInt64.add_assoc]

theorem Tree.Consistent.size_eq {tree : Tree α} (h : tree.Consistent depth) :
    tree.size = .ofNat tree.toList.length := by
  cases tree with
  | empty => rfl
  | single node => exact Node.Consistent.size_eq h
  | deep size left middle right =>
    rw [Tree.size, Tree.toList, List.length_append, List.length_append, ← Nat.add_assoc]
    exact h.2.2.2

theorem Node.toList_ne_nil (node : Node α) : node.toList ≠ [] := by
  induction node with
  | leaf element => exact List.cons_ne_nil _ _
  | two size first second ih _ => simp [Node.toList, ih]
  | three size first second third ih _ _ => simp [Node.toList, ih]

theorem Node.length_pos (node : Node α) : 0 < node.toList.length :=
  List.length_pos_iff.mpr node.toList_ne_nil

theorem Digit.length_pos (digit : Digit α) : 0 < digit.toList.length := by
  cases digit with
  | one a | two a _ | three a _ _ | four a _ _ _ =>
    have := a.length_pos
    simp only [Digit.toList, Digit.nodes, Node.elements_cons, List.length_append]
    omega

theorem Node.consistent_leaf (element : α) : (leaf element).Consistent 0 := trivial

theorem Node.Consistent.pair {a b : Node α} (ha : a.Consistent depth) (hb : b.Consistent depth) :
    (Node.pair a b).Consistent (depth + 1) := by
  refine ⟨ha, hb, ?_⟩
  rw [ha.size_eq, hb.size_eq, UInt64.ofNat_add]

theorem Node.Consistent.triple {a b c : Node α} (ha : a.Consistent depth) (hb : b.Consistent depth)
    (hc : c.Consistent depth) : (Node.triple a b c).Consistent (depth + 1) := by
  refine ⟨ha, hb, hc, ?_⟩
  rw [ha.size_eq, hb.size_eq, hc.size_eq, UInt64.ofNat_add, UInt64.ofNat_add]

theorem Tree.Consistent.level {left right : Digit α} {middle : Tree α}
    (hl : left.Consistent depth) (hm : middle.Consistent (depth + 1)) (hr : right.Consistent depth) :
    (Tree.level left middle right).Consistent depth := by
  refine ⟨hl, hm, hr, ?_⟩
  rw [hl.size_eq, hm.size_eq, hr.size_eq, UInt64.ofNat_add, UInt64.ofNat_add]

theorem Digit.toList_eq (digit : Digit α) : digit.toList = Node.elements digit.nodes := rfl

theorem Tree.Consistent.ofDigit {digit : Digit α} (h : digit.Consistent depth) :
    (Tree.ofDigit digit).Consistent depth := by
  cases digit <;> simp only [Digit.Consistent, Digit.nodes, List.forall_mem_cons] at h
  case one a => exact h.1
  all_goals
    refine Tree.Consistent.level ?_ trivial ?_ <;>
      simp [Digit.Consistent, Digit.nodes, h]

theorem Digit.length_nodes_le (digit : Digit α) : digit.nodes.length ≤ 4 := by
  cases digit <;> simp [Digit.nodes]

theorem Digit.length_nodes_pos (digit : Digit α) : 0 < digit.nodes.length := by
  cases digit <;> simp [Digit.nodes]

theorem Digit.ofNodes?_cases {nodes : List (Node α)} (short : nodes.length ≤ 4) :
    nodes = [] ∧ Digit.ofNodes? nodes = none ∨
      ∃ digit, Digit.ofNodes? nodes = some digit ∧ digit.nodes = nodes := by
  match nodes, short with
  | [], _ => exact .inl ⟨rfl, rfl⟩
  | [a], _ => exact .inr ⟨.one a, rfl, rfl⟩
  | [a, b], _ => exact .inr ⟨.two a b, rfl, rfl⟩
  | [a, b, c], _ => exact .inr ⟨.three a b c, rfl, rfl⟩
  | [a, b, c, d], _ => exact .inr ⟨.four a b c d, rfl, rfl⟩

theorem Node.Consistent.of_mem_children {node child : Node α} (h : node.Consistent (depth + 1))
    (mem : child ∈ node.children) : child.Consistent depth := by
  cases node with
  | leaf element => exact h.elim
  | two size first second =>
    simp only [Node.children, List.mem_cons, List.not_mem_nil, or_false] at mem
    rcases mem with rfl | rfl
    · exact h.1
    · exact h.2.1
  | three size first second third =>
    simp only [Node.children, List.mem_cons, List.not_mem_nil, or_false] at mem
    rcases mem with rfl | rfl | rfl
    · exact h.1
    · exact h.2.1
    · exact h.2.2.1

theorem Node.elements_children {node : Node α} (branch : node.children ≠ []) :
    Node.elements node.children = node.toList := by
  cases node with
  | leaf element => exact absurd rfl branch
  | two size first second => simp [Node.toList, Node.elements, Node.children]
  | three size first second third => simp [Node.toList, Node.elements, Node.children]

theorem Node.Consistent.elements_children {node : Node α} (h : node.Consistent (depth + 1)) :
    Node.elements node.children = node.toList := by
  refine Node.elements_children fun nothing => ?_
  cases node with
  | leaf element => exact h.elim
  | two | three => cases nothing

theorem Node.Consistent.ofBranch {node : Node α} (h : node.Consistent (depth + 1)) :
    ∃ digit : Digit α, Digit.ofBranch node = .ok digit ∧ digit.nodes = node.children ∧
      digit.Consistent depth := by
  cases node with
  | leaf element => exact h.elim
  | two size a b => exact ⟨.two a b, rfl, rfl, fun _ mem => h.of_mem_children mem⟩
  | three size a b c => exact ⟨.three a b c, rfl, rfl, fun _ mem => h.of_mem_children mem⟩

theorem Node.elements_flatMap_children {nodes : List (Node α)}
    (h : ∀ node ∈ nodes, node.Consistent (depth + 1)) :
    Node.elements (nodes.flatMap Node.children) = Node.elements nodes := by
  induction nodes with
  | nil => rfl
  | cons node rest ih =>
    calc
      Node.elements ((node :: rest).flatMap Node.children) =
          Node.elements node.children ++ Node.elements (rest.flatMap Node.children) := by
        rw [List.flatMap_cons, Node.elements_append]
      _ = node.toList ++ Node.elements rest := by
        rw [(h node List.mem_cons_self).elements_children, ih fun n hn => h n (List.mem_cons_of_mem _ hn)]
      _ = Node.elements (node :: rest) := (Node.elements_cons node rest).symm

theorem Tree.Consistent.of_mem_nodes {tree : Tree α} (h : tree.Consistent depth) :
    ∀ node ∈ tree.nodes, node.Consistent depth := by
  induction tree generalizing depth with
  | empty => intro node mem; exact absurd mem List.not_mem_nil
  | single n =>
    intro node mem
    rw [Tree.nodes, List.mem_singleton] at mem
    exact mem ▸ h
  | deep size left middle right ih =>
    intro node mem
    rw [Tree.nodes, List.mem_append, List.mem_append, List.mem_flatMap] at mem
    rcases mem with inLeft | ⟨branch, inMiddle, below⟩ | inRight
    · exact h.1 node inLeft
    · exact (ih h.2.1 branch inMiddle).of_mem_children below
    · exact h.2.2.1 node inRight

/-- Nothing but the nodes of its own level holds elements of a tree. -/
theorem Tree.Consistent.toList_eq {tree : Tree α} (h : tree.Consistent depth) :
    tree.toList = Node.elements tree.nodes := by
  induction tree generalizing depth with
  | empty => rfl
  | single node => simp [Tree.toList, Tree.nodes, Node.elements]
  | deep size left middle right ih =>
    calc
      (Tree.deep size left middle right).toList =
          Node.elements left.nodes ++ (Node.elements middle.nodes ++ Node.elements right.nodes) := by
        rw [Tree.toList, ih h.2.1, Digit.toList_eq, Digit.toList_eq]
      _ = Node.elements left.nodes ++
          (Node.elements (middle.nodes.flatMap Node.children) ++ Node.elements right.nodes) := by
        rw [Node.elements_flatMap_children h.2.1.of_mem_nodes]
      _ = Node.elements (Tree.deep size left middle right).nodes := by
        rw [Tree.nodes, Node.elements_append, Node.elements_append]

@[simp]
theorem Tree.nodes_level (left : Digit α) (middle : Tree α) (right : Digit α) :
    (Tree.level left middle right).nodes =
      left.nodes ++ (middle.nodes.flatMap Node.children ++ right.nodes) := rfl

@[simp]
theorem Tree.nodes_ofDigit (digit : Digit α) : (Tree.ofDigit digit).nodes = digit.nodes := by
  cases digit <;> rfl

theorem toNat_ofNat_of_eq {size : UInt64} {n : Nat} (h : size = .ofNat n) (bound : n < UInt64.size) :
    size.toNat = n := by
  rw [h, UInt64.toNat_ofNat_of_lt' bound]

theorem ofNat_add_sub (part rest : Nat) : UInt64.ofNat (part + rest) - .ofNat part = .ofNat rest := by
  rw [Nat.add_comm, UInt64.ofNat_add, UInt64.add_sub_cancel]

theorem minus_ofNat [Arithmetic] [Arithmetic.Exact] {part rest : Nat}
    (bound : part + rest < UInt64.size) :
    minus (.ofNat (part + rest)) (.ofNat part) = .ok (.ofNat rest) := by
  have le : UInt64.ofNat part ≤ .ofNat (part + rest) :=
    (UInt64.ofNat_le_iff_le (by omega) bound).mpr (Nat.le_add_right part rest)
  rw [minus_of_le le, ofNat_add_sub]

/-- Differences come out right, as words, of all numbers up to the greatest. -/
def Arithmetic.DiffersUpTo [Arithmetic] (greatest : Nat) : Prop :=
  ∀ part rest, part + rest ≤ greatest → minus (.ofNat (part + rest)) (.ofNat part) = .ok (.ofNat rest)

theorem Arithmetic.DiffersUpTo.of_lt [Arithmetic] [Arithmetic.Exact] {greatest : Nat}
    (bound : greatest < UInt64.size) : DiffersUpTo greatest :=
  fun _ _ le => minus_ofNat (Nat.lt_of_le_of_lt le bound)

theorem Arithmetic.DiffersUpTo.wrapping (greatest : Nat) : @DiffersUpTo wrapping greatest :=
  fun part rest _ => congrArg Except.ok (ofNat_add_sub part rest)

theorem Arithmetic.DiffersUpTo.mono [Arithmetic] {greatest greatest' : Nat} (h : DiffersUpTo greatest)
    (le : greatest' ≤ greatest) : DiffersUpTo greatest' :=
  fun part rest small => h part rest (Nat.le_trans small le)

theorem eq_ofNat_of_toNat {size : UInt64} {n : Nat} (h : size.toNat = n) : size = .ofNat n := by
  rw [← h, UInt64.ofNat_toNat]

theorem Node.wellFormed_iff {node : Node α} :
    node.WellFormed depth ↔ node.Consistent depth ∧ node.toList.length < UInt64.size := by
  induction node generalizing depth with
  | leaf element =>
    cases depth with
    | zero => simp [Node.WellFormed, Node.Consistent, Node.toList, UInt64.size]
    | succ depth => simp [Node.WellFormed, Node.Consistent]
  | two size first second ihf ihs =>
    cases depth with
    | zero => simp [Node.WellFormed, Node.Consistent]
    | succ depth =>
      simp only [Node.WellFormed, Node.Consistent, Node.toList, List.length_append, ihf, ihs]
      have := size.toNat_lt_size
      constructor
      · rintro ⟨hf, hs, exact⟩
        exact ⟨⟨hf.1, hs.1, eq_ofNat_of_toNat exact⟩, by omega⟩
      · rintro ⟨⟨hf, hs, same⟩, bound⟩
        exact ⟨⟨hf, by omega⟩, ⟨hs, by omega⟩, toNat_ofNat_of_eq same bound⟩
  | three size first second third ihf ihs iht =>
    cases depth with
    | zero => simp [Node.WellFormed, Node.Consistent]
    | succ depth =>
      simp only [Node.WellFormed, Node.Consistent, Node.toList, List.length_append, ihf, ihs, iht,
        ← Nat.add_assoc]
      have := size.toNat_lt_size
      constructor
      · rintro ⟨hf, hs, ht, exact⟩
        exact ⟨⟨hf.1, hs.1, ht.1, eq_ofNat_of_toNat exact⟩, by omega⟩
      · rintro ⟨⟨hf, hs, ht, same⟩, bound⟩
        exact ⟨⟨hf, by omega⟩, ⟨hs, by omega⟩, ⟨ht, by omega⟩, toNat_ofNat_of_eq same bound⟩

theorem Node.length_le_of_mem {node : Node α} {nodes : List (Node α)} (mem : node ∈ nodes) :
    node.toList.length ≤ (Node.elements nodes).length := by
  obtain ⟨before, after, rfl⟩ := List.append_of_mem mem
  calc
    node.toList.length ≤ node.toList.length + (Node.elements after).length := Nat.le_add_right _ _
    _ ≤ (Node.elements before).length + (node.toList.length + (Node.elements after).length) :=
      Nat.le_add_left _ _
    _ = (Node.elements (before ++ node :: after)).length := by
      rw [Node.elements_append, Node.elements_cons, List.length_append, List.length_append]

theorem Digit.Consistent.wellFormed {digit : Digit α} (h : digit.Consistent depth)
    (bound : digit.toList.length < UInt64.size) : digit.WellFormed depth :=
  fun node mem =>
    Node.wellFormed_iff.mpr ⟨h node mem, Nat.lt_of_le_of_lt (Node.length_le_of_mem mem) bound⟩

theorem Digit.WellFormed.consistent {digit : Digit α} (h : digit.WellFormed depth) :
    digit.Consistent depth :=
  fun node mem => (Node.wellFormed_iff.mp (h node mem)).1

theorem Tree.wellFormed_iff {tree : Tree α} :
    tree.WellFormed depth ↔ tree.Consistent depth ∧ tree.toList.length < UInt64.size := by
  induction tree generalizing depth with
  | empty => simp [Tree.WellFormed, Tree.Consistent, Tree.toList, UInt64.size]
  | single node => exact Node.wellFormed_iff
  | deep size left middle right ih =>
    simp only [Tree.WellFormed, Tree.Consistent, Tree.toList, List.length_append, ih]
    have := size.toNat_lt_size
    constructor
    · rintro ⟨hl, hm, hr, exact⟩
      exact ⟨⟨hl.consistent, hm.1, hr.consistent, eq_ofNat_of_toNat exact⟩, by omega⟩
    · rintro ⟨⟨hl, hm, hr, same⟩, bound⟩
      exact ⟨hl.wellFormed (by omega), ⟨hm, by omega⟩, hr.wellFormed (by omega),
        toNat_ofNat_of_eq same (by omega)⟩

theorem Tree.Consistent.toNat_size {tree : Tree α} (h : tree.Consistent depth)
    (bound : tree.toList.length < UInt64.size) : tree.size.toNat = tree.toList.length :=
  toNat_ofNat_of_eq h.size_eq bound

end IndexedSequence
