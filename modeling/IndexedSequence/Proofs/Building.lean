import IndexedSequence.Proofs.Height
import IndexedSequence.Proofs.Levels
import IndexedSequence.Tree.Parts

set_option autoImplicit false

namespace IndexedSequence

variable {α : Type} {depth : Nat}

/-- How many of so many nodes stay pending: up to four all, and of more what grouping by threes leaves. -/
def Buffer.kept (count : Nat) : Nat :=
  if count ≤ 4 then count else 2 + (count - 2) % 3

/-- The branches of a run of nodes, three to each. One or two at the end make none. -/
def Node.triples : List (Node α) → List (Node α)
  | a :: b :: c :: rest => .triple a b c :: triples rest
  | _ => []

namespace Buffer

theorem kept_of_le {count : Nat} (few : count ≤ 4) : kept count = count :=
  if_pos few

theorem kept_add_three {count : Nat} (enough : 2 ≤ count) : kept (count + 3) = kept count := by
  unfold kept
  split <;> split <;> omega

theorem length_nodes_le (buffer : Buffer α) : buffer.nodes.length ≤ 4 := by
  rcases buffer with ⟨_ | digit⟩
  · exact Nat.zero_le 4
  · cases digit <;> simp [nodes, Digit.nodes]

/-- The count of what has come in and of what is to come tells what stays, before a push and after it. -/
theorem kept_push (buffer : Buffer α) (node : Node α) (coming : Nat) :
    kept ((buffer.push node).1.nodes.length + coming) = kept (buffer.nodes.length + (coming + 1)) := by
  rcases buffer with ⟨_ | digit⟩
  · simp only [push, nodes, Digit.nodes, List.length_cons, List.length_nil]
    exact congrArg kept (by omega)
  · cases digit with
    | one a | two a b | three a b c =>
      simp only [push, nodes, Digit.nodes, List.length_cons, List.length_nil]
      exact congrArg kept (by omega)
    | four a b c d =>
      have grouped : kept (2 + coming + 3) = kept (2 + coming) := kept_add_three (Nat.le_add_right 2 coming)
      simp only [push, nodes, Digit.nodes, List.length_cons, List.length_nil]
      rw [Nat.zero_add, ← grouped]
      exact congrArg kept (by omega)

theorem length_nodes_fold (buffer : Buffer α) (stream : List (Node α)) :
    (buffer.fold stream).1.nodes.length = kept (buffer.nodes.length + stream.length) := by
  induction stream generalizing buffer with
  | nil => exact (kept_of_le buffer.length_nodes_le).symm
  | cons node rest ih =>
    -- A push leaves the number of nodes as it is, or takes out a branch of three, which `kept` does not see.
    rw [fold_cons, List.length_cons, ← kept_push buffer node rest.length]
    exact ih _

theorem triple_of_mem_fold {buffer : Buffer α} {stream : List (Node α)} {branch : Node α}
    (mem : branch ∈ (buffer.fold stream).2) : ∃ a b c, branch = .triple a b c := by
  induction stream generalizing buffer with
  | nil => simp [fold, pushAll] at mem
  | cons node rest ih =>
    rw [fold_cons, List.mem_append] at mem
    rcases mem with given | later
    · rw [Option.mem_toList] at given
      obtain ⟨a, b, c, -, -, rfl, -⟩ := four_of_push_some (Prod.ext rfl given)
      exact ⟨a, b, c, rfl⟩
    · exact ih later

end Buffer

namespace Node

theorem triples_children {branches : List (Node α)}
    (ternary : ∀ branch ∈ branches, ∃ a b c, branch = triple a b c) :
    triples (branches.flatMap children) = branches := by
  induction branches with
  | nil => rfl
  | cons branch rest ih =>
    rw [List.forall_mem_cons] at ternary
    obtain ⟨⟨a, b, c, rfl⟩, others⟩ := ternary
    exact congrArg (triple a b c :: ·) (ih others)

theorem length_children_flatMap {branches : List (Node α)}
    (ternary : ∀ branch ∈ branches, ∃ a b c, branch = triple a b c) :
    (branches.flatMap children).length = 3 * branches.length := by
  induction branches with
  | nil => rfl
  | cons branch rest ih =>
    rw [List.forall_mem_cons] at ternary
    obtain ⟨⟨a, b, c, rfl⟩, others⟩ := ternary
    rw [List.flatMap_cons, List.length_append, ih others, List.length_cons]
    change 3 + 3 * rest.length = _
    omega

/-- All branches are ternary, those below them too, and so a node has three to the power of its level
elements. -/
structure Ternary (level : Nat) (node : Node α) : Prop where
  branching : ∀ branch ∈ node.branches, branch.children.length = 3
  length_eq : node.toList.length = 3 ^ level

theorem Ternary.leaf (element : α) : (Node.leaf element).Ternary 0 where
  branching := by simp [branches]
  length_eq := rfl

theorem Ternary.triple {level : Nat} {a b c : Node α} (ha : a.Ternary level) (hb : b.Ternary level)
    (hc : c.Ternary level) : (Node.triple a b c).Ternary (level + 1) where
  branching := forall_branches_three.mpr ⟨ha.branching, hb.branching, hc.branching, rfl⟩
  length_eq := by
    calc
      (Node.triple a b c).toList.length = a.toList.length + (b.toList.length + c.toList.length) := by
        rw [Node.triple, toList, List.length_append, List.length_append]
      _ = 3 ^ level + (3 ^ level + 3 ^ level) := by rw [ha.length_eq, hb.length_eq, hc.length_eq]
      _ = 3 ^ (level + 1) := by
        rw [Nat.pow_succ]
        omega

end Node

theorem Buffer.fold_parts {stream : List (Node α)} (some_left : stream ≠ []) :
    ∃ between digit, stream = between ++ digit.nodes ∧
      digit.arity = kept stream.length ∧ (empty.fold stream).1.pending = some digit ∧
      (empty.fold stream).2 = Node.triples between ∧
      (Node.triples between).flatMap Node.children = between ∧
      3 * (Node.triples between).length = between.length := by
  obtain ⟨-, nothing⟩ | ⟨digit, pending, conserved⟩ := pending_fold_empty stream
  · exact absurd nothing some_left
  · have ternary : ∀ branch ∈ (empty.fold stream).2, ∃ a b c, branch = .triple a b c :=
      fun _ => triple_of_mem_fold
    have grouped := Node.triples_children ternary
    have arity := empty.length_nodes_fold stream
    rw [nodes, pending, nodes_empty, List.length_nil, Nat.zero_add] at arity
    refine ⟨_, digit, conserved.symm, arity, pending, grouped.symm, ?_, ?_⟩
    · rw [grouped]
    · rw [grouped, Node.length_children_flatMap ternary]

namespace Tree

theorem build_of_few {nodes : List (Node α)} (some_node : nodes ≠ []) (few : nodes.length ≤ 3) :
    ∃ digit : Digit α, digit.nodes = nodes ∧ build nodes = ofDigit digit := by
  match nodes, some_node, few with
  | [a], _, _ => exact ⟨.one a, rfl, by rw [build]⟩
  | [a, b], _, _ => exact ⟨.two a b, rfl, by rw [build]⟩
  | [a, b, c], _, _ => exact ⟨.three a b c, rfl, by rw [build]; rfl⟩

theorem build_of_many {nodes : List (Node α)} (many : 4 ≤ nodes.length) :
    ∃ a b c between, ∃ right : Digit α, nodes = a :: b :: c :: (between ++ right.nodes) ∧
      right.arity = Buffer.kept (nodes.length - 3) ∧
      build nodes = level (.three a b c) (build (Node.triples between)) right ∧
      (Node.triples between).flatMap Node.children = between ∧
      (Node.triples between).length = (nodes.length - 3 - right.arity) / 3 ∧
      3 * (Node.triples between).length = between.length := by
  match nodes, many with
  | a :: b :: c :: d :: rest, _ =>
    obtain ⟨between, right, parts, arity, pending, given, children, thrice⟩ :=
      Buffer.fold_parts (List.cons_ne_nil d rest)
    have counted : between.length + right.arity = (d :: rest).length := by
      rw [parts, List.length_append]
      rfl
    refine ⟨a, b, c, between, right, by rw [← parts], arity, ?_, children, ?_, thrice⟩
    · rw [build]
      simp only [pending, given]
    · change _ = ((d :: rest).length - right.arity) / 3
      omega

theorem mem_nodesAt_ofDigit {digit : Digit α} {level : Nat} {node : Node α}
    (mem : node ∈ (ofDigit digit).nodesAt level) : level = 0 ∧ node ∈ digit.nodes := by
  cases digit <;> rcases level with _ | _ | level <;>
    simp_all [ofDigit, Tree.level, nodesAt, Digit.nodes]

/-- What holds of the nodes built on, and of a ternary branch a level deeper than what it holds of, holds on
every level of the tree. -/
theorem of_mem_nodesAt_build {p : Nat → Node α → Prop}
    (step : ∀ level a b c, p level a → p level b → p level c → p (level + 1) (.triple a b c))
    {nodes : List (Node α)} (base : ∀ node ∈ nodes, p depth node) {level : Nat} {node : Node α}
    (mem : node ∈ (build nodes).nodesAt level) : p (depth + level) node := by
  fun_induction build nodes generalizing depth level with
  | case1 => exact absurd mem List.not_mem_nil
  | case2 a | case3 a b =>
    obtain ⟨rfl, among⟩ := mem_nodesAt_ofDigit mem
    exact base node among
  | case4 a b c rest =>
    obtain ⟨rfl, among⟩ := mem_nodesAt_ofDigit mem
    exact base node (List.mem_append_left rest among)
  | case5 a b c rest folded right pending =>
    rename_i ih
    obtain ⟨nothing, -⟩ | ⟨digit, found, conserved⟩ := Buffer.pending_fold_empty rest
    · rw [nothing] at pending
      cases pending
    · obtain rfl : digit = right := Option.some.inj (found.symm.trans pending)
      have within : ∀ n ∈ rest, p depth n := fun n inRest =>
        base n (List.mem_append_right [a, b, c] inRest)
      cases level with
      | zero =>
        rcases List.mem_append.mp mem with inLeft | inRight
        · exact base node (List.mem_append_left rest inLeft)
        · exact within node (conserved ▸ List.mem_append_right _ inRight)
      | succ level =>
        -- What is given out is a triple, and its nodes are of the stream, since the buffer loses none.
        have given : ∀ branch ∈ folded.2, p (depth + 1) branch := by
          intro branch emitted
          obtain ⟨x, y, z, rfl⟩ := Buffer.triple_of_mem_fold emitted
          have below : ∀ child ∈ [x, y, z], p depth child := fun child inBranch =>
            within child (conserved ▸ List.mem_append_left _ (List.mem_flatMap_of_mem emitted inBranch))
          simp only [List.forall_mem_cons] at below
          exact step depth x y z below.1 below.2.1 below.2.2.1
        have deeper := ih given mem
        rwa [Nat.add_assoc, Nat.add_comm 1] at deeper

end Tree

theorem Sequence.ternary_ofList (elements : List α) {level : Nat} {node : Node α}
    (mem : node ∈ (ofList elements).tree.nodesAt level) : node.Ternary level := by
  have leaves : ∀ node ∈ elements.map Node.leaf, node.Ternary 0 :=
    List.forall_mem_map.mpr fun element _ => .leaf element
  have everywhere := Tree.of_mem_nodesAt_build (fun _ _ _ _ => Node.Ternary.triple) leaves mem
  rwa [Nat.zero_add] at everywhere

/-- The number of nodes alone gives the shape: three on the left, two to four on the right, and what is between built
by threes like the whole. -/
theorem Tree.build_shape (nodes : List (Node α)) :
    (∀ depth, (∀ node ∈ nodes, node.WellFormed depth) → (build nodes).Lists depth nodes) ∧
      (nodes = [] → build nodes = empty) ∧
      (nodes ≠ [] → nodes.length ≤ 3 →
        ∃ digit : Digit α, digit.nodes = nodes ∧ build nodes = ofDigit digit) ∧
      (4 ≤ nodes.length →
        ∃ a b c between, ∃ right : Digit α, nodes = a :: b :: c :: (between ++ right.nodes) ∧
          right.arity = Buffer.kept (nodes.length - 3) ∧
          build nodes = level (.three a b c) (build (Node.triples between)) right ∧
          (Node.triples between).flatMap Node.children = between ∧
          (Node.triples between).length = (nodes.length - 3 - right.arity) / 3 ∧
          3 * (Node.triples between).length = between.length) ∧
      (∀ (elements : List α) (level : Nat), ∀ node ∈ (Sequence.ofList elements).tree.nodesAt level,
        node.Ternary level) ∧
      ∀ {ε : Type} (format : Json.Format ε) (items : Json.Codec ε α) (document : Json) (s : Sequence α),
        (Sequence.codec format items).read document = .ok s →
          ∀ level, ∀ node ∈ s.tree.nodesAt level, node.Ternary level := by
  refine ⟨fun depth h => ?_, ?_, build_of_few, build_of_many, ?_, ?_⟩
  · exact (Consistent.build fun node mem => (h node mem).consistent).lists (nodes_build nodes)
  · rintro rfl
    exact build.eq_1
  · exact fun elements level node => Sequence.ternary_ofList elements
  · intro ε format items document s made level node mem
    obtain ⟨elements, rfl⟩ := Sequence.eq_ofList_of_read made
    exact Sequence.ternary_ofList elements mem

def elevenPairs : List (Node Nat) :=
  (List.range 11).map fun n => .pair (.leaf n) (.leaf (n + 1))

theorem Tree.elevenPairs_build :
    (∀ node ∈ elevenPairs, node.WellFormed 1) ∧ (build elevenPairs).Lists 1 elevenPairs ∧
      (∃ a b c between, ∃ right : Digit Nat, elevenPairs = a :: b :: c :: (between ++ right.nodes) ∧
        right.arity = 2 ∧ (Node.triples between).length = 2 ∧
        build elevenPairs = level (.three a b c) (build (Node.triples between)) right) ∧
      ∃ s : Sequence Int64,
        (Sequence.codec .compact JsonCodec.codec).read (.array ([3, 1, 4, 1, 5, 9, 2, 6].map .integer)) = .ok s ∧
        ∀ level, ∀ node ∈ s.tree.nodesAt level, node.Ternary level := by
  have h : ∀ node ∈ elevenPairs, node.WellFormed 1 := by decide
  obtain ⟨lists, -, -, parts, -⟩ := build_shape elevenPairs
  obtain ⟨a, b, c, between, right, same, arity, built, -, count, -⟩ := parts (by decide)
  have two_kept : right.arity = 2 := arity.trans (by decide)
  have read : (Sequence.codec .compact JsonCodec.codec).read (.array ([3, 1, 4, 1, 5, 9, 2, 6].map .integer)) =
      .ok (Sequence.ofList [(3 : Int64), 1, 4, 1, 5, 9, 2, 6]) := by rfl
  have ternary := (build_shape ([] : List (Node Int64))).2.2.2.2.2 _ _ _ _ read
  refine ⟨h, lists 1 h, ⟨a, b, c, between, right, same, two_kept, ?_, built⟩, _, read, ternary⟩
  rw [count, two_kept]
  rfl

end IndexedSequence
