import IndexedSequence.Proofs.Ends
import IndexedSequence.Tree.Build
import IndexedSequence.Tree.Concat

set_option autoImplicit false

namespace IndexedSequence

variable {α : Type} {depth : Nat}

/-- A branch made of two or three nodes, with their sizes added up. -/
inductive Node.Grouped : Node α → Prop
  | pair (a b : Node α) : (Node.pair a b).Grouped
  | triple (a b c : Node α) : (Node.triple a b c).Grouped

theorem Node.Grouped.consistent {branch : Node α} (h : branch.Grouped)
    (below : ∀ child ∈ branch.children, child.Consistent depth) : branch.Consistent (depth + 1) := by
  cases h with
  | pair a b =>
    simp only [Node.pair, children, List.forall_mem_cons] at below
    exact .pair below.1 below.2.1
  | triple a b c =>
    simp only [Node.triple, children, List.forall_mem_cons] at below
    exact .triple below.1 below.2.1 below.2.2.1

namespace Buffer

@[simp]
theorem nodes_empty : (Buffer.empty : Buffer α).nodes = [] := rfl

theorem pushAll_eq (buffer : Buffer α) (emitted nodes : List (Node α)) :
    buffer.pushAll emitted nodes = ((buffer.fold nodes).1, (buffer.fold nodes).2.reverse ++ emitted) := by
  induction nodes generalizing buffer emitted with
  | nil => rfl
  | cons node rest ih =>
    rw [fold, pushAll, pushAll]
    rcases buffer.push node with ⟨grown, _ | branch⟩ <;> simp [ih]

theorem fold_cons (buffer : Buffer α) (node : Node α) (rest : List (Node α)) :
    buffer.fold (node :: rest) =
      (((buffer.push node).1.fold rest).1,
        (buffer.push node).2.toList ++ ((buffer.push node).1.fold rest).2) := by
  rw [fold, pushAll]
  rcases buffer.push node with ⟨grown, _ | branch⟩ <;> simp [pushAll_eq]

theorem push_conserves (buffer : Buffer α) (node : Node α) :
    (buffer.push node).2.toList.flatMap Node.children ++ (buffer.push node).1.nodes =
      buffer.nodes ++ [node] := by
  rcases buffer with ⟨_ | digit⟩
  · rfl
  · cases digit <;> rfl

theorem push_consistent {buffer : Buffer α} {node : Node α}
    (hb : ∀ n ∈ buffer.nodes, n.Consistent depth) (hn : node.Consistent depth) :
    (∀ n ∈ (buffer.push node).1.nodes, n.Consistent depth) ∧
      ∀ n ∈ (buffer.push node).2.toList, n.Consistent (depth + 1) := by
  rcases buffer with ⟨_ | digit⟩
  · simpa [push, nodes, Digit.nodes] using hn
  · cases digit <;> simp only [nodes, Digit.nodes, List.forall_mem_cons] at hb
    case four a b c d =>
      have grouped : (Node.triple a b c).Consistent (depth + 1) := .triple hb.1 hb.2.1 hb.2.2.1
      simp [push, nodes, Digit.nodes, hb, hn, grouped]
    all_goals simp [push, nodes, Digit.nodes, hb, hn]

/-- A push gives out a branch only of a full buffer: the three nodes that came first. -/
theorem four_of_push_some {buffer grown : Buffer α} {node branch : Node α}
    (pushed : buffer.push node = (grown, some branch)) :
    ∃ a b c d, buffer.nodes = [a, b, c, d] ∧ branch = .triple a b c ∧ grown.nodes = [d, node] := by
  rcases buffer with ⟨_ | digit⟩
  · cases pushed
  · cases digit with
    | one a | two a b | three a b c => cases pushed
    | four a b c d =>
      cases pushed
      exact ⟨a, b, c, d, rfl, rfl, rfl⟩

theorem length_push (buffer : Buffer α) (node : Node α) :
    min 2 (buffer.nodes.length + 1) ≤ (buffer.push node).1.nodes.length := by
  rcases buffer with ⟨_ | digit⟩
  · simp [push, nodes, Digit.nodes]
  · cases digit <;> simp [push, nodes, Digit.nodes]

theorem fold_conserves (buffer : Buffer α) (stream : List (Node α)) :
    (buffer.fold stream).2.flatMap Node.children ++ (buffer.fold stream).1.nodes =
      buffer.nodes ++ stream := by
  induction stream generalizing buffer with
  | nil => simp [fold, pushAll]
  | cons node rest ih =>
    rw [fold_cons, List.flatMap_append, List.append_assoc, ih, ← List.append_assoc, push_conserves,
      List.append_assoc]
    rfl

theorem fold_consistent {buffer : Buffer α} {stream : List (Node α)}
    (hb : ∀ n ∈ buffer.nodes, n.Consistent depth) (hs : ∀ n ∈ stream, n.Consistent depth) :
    (∀ n ∈ (buffer.fold stream).1.nodes, n.Consistent depth) ∧
      ∀ n ∈ (buffer.fold stream).2, n.Consistent (depth + 1) := by
  induction stream generalizing buffer with
  | nil => exact ⟨hb, by simp [fold, pushAll]⟩
  | cons node rest ih =>
    rw [List.forall_mem_cons] at hs
    obtain ⟨kept, given⟩ := push_consistent hb hs.1
    obtain ⟨pending, emitted⟩ := ih kept hs.2
    rw [fold_cons]
    exact ⟨pending, List.forall_mem_append.mpr ⟨given, emitted⟩⟩

theorem fold_empty_consistent {stream : List (Node α)} (hs : ∀ n ∈ stream, n.Consistent depth) :
    (∀ n ∈ (Buffer.empty.fold stream).1.nodes, n.Consistent depth) ∧
      ∀ n ∈ (Buffer.empty.fold stream).2, n.Consistent (depth + 1) :=
  fold_consistent (fun _ mem => absurd mem List.not_mem_nil) hs

theorem length_fold (buffer : Buffer α) (stream : List (Node α)) :
    min 2 (buffer.nodes.length + stream.length) ≤ (buffer.fold stream).1.nodes.length := by
  induction stream generalizing buffer with
  | nil =>
    simp only [fold, pushAll, List.length_nil]
    omega
  | cons node rest ih =>
    have step := buffer.length_push node
    have later := ih (buffer.push node).1
    rw [fold_cons, List.length_cons]
    change _ ≤ ((buffer.push node).1.fold rest).1.nodes.length
    omega

theorem flush_eq {buffer : Buffer α} (many : buffer.nodes.length ≠ 1) :
    ∃ branches, buffer.flush = .ok branches ∧ branches.flatMap Node.children = buffer.nodes ∧
      (∀ branch ∈ branches, branch.Grouped) ∧ branches.length = (buffer.nodes.length + 2) / 3 := by
  rcases buffer with ⟨_ | digit⟩
  · exact ⟨[], rfl, rfl, by simp, by simp [nodes]⟩
  · cases digit with
    | one a => exact absurd rfl many
    | two a b => exact ⟨[.pair a b], rfl, rfl, by simpa using .pair a b, by simp [nodes, Digit.nodes]⟩
    | three a b c =>
      exact ⟨[.triple a b c], rfl, rfl, by simpa using .triple a b c, by simp [nodes, Digit.nodes]⟩
    | four a b c d =>
      exact ⟨[.pair a b, .pair c d], rfl, rfl, by simpa using ⟨.pair a b, .pair c d⟩,
        by simp [nodes, Digit.nodes]⟩

end Buffer

/-- Regrouping is the branches given out, and then those of what is pending, which is never one node alone. -/
theorem regroup_parts {nodes : List (Node α)} (many : nodes.length ≠ 1) :
    ∃ last, regroup nodes = .ok ((Buffer.empty.fold nodes).2 ++ last) ∧
      last.flatMap Node.children = (Buffer.empty.fold nodes).1.nodes ∧
      (∀ branch ∈ last, branch.Grouped) ∧
      last.length = ((Buffer.empty.fold nodes).1.nodes.length + 2) / 3 := by
  have enough := Buffer.empty.length_fold nodes
  have left : (Buffer.empty.fold nodes).1.nodes.length ≠ 1 := by
    have lengths := congrArg List.length (Buffer.empty.fold_conserves nodes)
    simp only [List.length_append, Buffer.nodes_empty, List.length_nil] at lengths enough
    omega
  obtain ⟨last, flushed, parts⟩ := Buffer.flush_eq left
  refine ⟨last, ?_, parts⟩
  simp only [regroup, flushed]
  rfl

theorem regroup_eq {nodes : List (Node α)} (many : nodes.length ≠ 1)
    (hn : ∀ n ∈ nodes, n.Consistent depth) :
    ∃ branches, regroup nodes = .ok branches ∧ branches.flatMap Node.children = nodes ∧
      ∀ n ∈ branches, n.Consistent (depth + 1) := by
  obtain ⟨pending, emitted⟩ := Buffer.fold_empty_consistent hn
  obtain ⟨last, grouped, children, made, -⟩ := regroup_parts many
  refine ⟨_, grouped, ?_, List.forall_mem_append.mpr ⟨emitted, fun branch mem => ?_⟩⟩
  · rw [List.flatMap_append, children]
    exact Buffer.empty.fold_conserves nodes
  · exact (made branch mem).consistent fun child below =>
      pending child (children ▸ List.mem_flatMap_of_mem mem below)

/-- Where two levels meet, their digits and what is loose between them are never one node alone. -/
theorem Digit.Consistent.regroup_between {first last : Digit α} {between : List (Node α)}
    (hf : first.Consistent depth) (hb : ∀ n ∈ between, n.Consistent depth) (hl : last.Consistent depth) :
    ∃ branches, regroup (first.nodes ++ (between ++ last.nodes)) = .ok branches ∧
      branches.flatMap Node.children = first.nodes ++ (between ++ last.nodes) ∧
      (∀ n ∈ branches, n.Consistent (depth + 1)) ∧
      (Node.elements branches).length =
        first.toList.length + ((Node.elements between).length + last.toList.length) := by
  have many : (first.nodes ++ (between ++ last.nodes)).length ≠ 1 := by
    have := first.length_nodes_pos
    have := last.length_nodes_pos
    simp only [List.length_append]
    omega
  have loose := List.forall_mem_append.mpr ⟨hf, List.forall_mem_append.mpr ⟨hb, hl⟩⟩
  obtain ⟨branches, grouped, children, hbranches⟩ := regroup_eq many loose
  refine ⟨branches, grouped, children, hbranches, ?_⟩
  calc
    (Node.elements branches).length = (Node.elements (first.nodes ++ (between ++ last.nodes))).length := by
      rw [← Node.elements_flatMap_children hbranches, children]
    _ = first.toList.length + ((Node.elements between).length + last.toList.length) := by
      rw [Node.elements_append, Node.elements_append, List.length_append, List.length_append, first.toList_eq,
        last.toList_eq]

theorem Buffer.pending_fold_empty (stream : List (Node α)) :
    (Buffer.empty.fold stream).1.pending = none ∧ stream = [] ∨
      ∃ digit, (Buffer.empty.fold stream).1.pending = some digit ∧
        (Buffer.empty.fold stream).2.flatMap Node.children ++ digit.nodes = stream := by
  have conserved : _ = stream := Buffer.empty.fold_conserves stream
  have enough := Buffer.empty.length_fold stream
  rcases h : (Buffer.empty.fold stream).1.pending with _ | digit
  · refine .inl ⟨rfl, List.length_eq_zero_iff.mp ?_⟩
    simp only [Buffer.nodes, h, List.length_nil] at enough
    change min 2 (0 + stream.length) ≤ 0 at enough
    omega
  · exact .inr ⟨digit, rfl, by simpa only [Buffer.nodes, h] using conserved⟩

@[simp]
theorem Tree.nodes_build (nodes : List (Node α)) : (Tree.build nodes).nodes = nodes := by
  fun_induction Tree.build nodes with
  | case1 => rfl
  | case2 a => rfl
  | case3 a b => rfl
  | case4 a b c rest folded nothing =>
    obtain ⟨-, rfl⟩ | ⟨digit, pending, -⟩ := Buffer.pending_fold_empty rest
    · rfl
    · rw [pending] at nothing
      cases nothing
  | case5 a b c rest folded right pending ih =>
    obtain ⟨nothing, -⟩ | ⟨digit, found, same⟩ := Buffer.pending_fold_empty rest
    · rw [nothing] at pending
      cases pending
    · rw [found] at pending
      cases pending
      rw [nodes_level, ih, same]
      rfl

theorem Tree.Consistent.build {nodes : List (Node α)} (h : ∀ n ∈ nodes, n.Consistent depth) :
    (Tree.build nodes).Consistent depth := by
  fun_induction Tree.build nodes generalizing depth with
  | case1 => trivial
  | case2 a => exact .ofDigit h
  | case3 a b => exact .ofDigit h
  | case4 a b c rest =>
    simp only [List.forall_mem_cons] at h
    exact .ofDigit (by simp [Digit.Consistent, Digit.nodes, h])
  | case5 a b c rest folded right pending =>
    rename_i ih
    obtain ⟨ha, hb, hc, hrest⟩ : a.Consistent depth ∧ b.Consistent depth ∧ c.Consistent depth ∧
        ∀ n ∈ rest, n.Consistent depth := by
      simpa only [List.forall_mem_cons] using h
    obtain ⟨kept, given⟩ := Buffer.fold_empty_consistent hrest
    have hr : right.Consistent depth := by
      intro n mem
      refine kept n ?_
      rw [Buffer.nodes, pending]
      exact mem
    exact .level (by simp [Digit.Consistent, Digit.nodes, ha, hb, hc]) (ih given) hr

theorem Tree.Consistent.join {left right : Tree α} {between : List (Node α)}
    (hl : left.Consistent depth) (hb : ∀ n ∈ between, n.Consistent depth)
    (hr : right.Consistent depth) :
    ∃ tree, left.join between right = .ok tree ∧ tree.Consistent depth ∧
      tree.nodes = left.nodes ++ (between ++ right.nodes) := by
  fun_induction Tree.join left between right generalizing depth with
  | case1 between right =>
    exact ⟨_, rfl, hr.pushFrontAll hb, nodes_pushFrontAll right between⟩
  | case2 node between =>
    exact ⟨_, rfl, hl.pushBackAll hb, by simp [nodes_pushBackAll, nodes]⟩
  | case3 size outer middle inner between =>
    exact ⟨_, rfl, hl.pushBackAll hb, by rw [nodes_pushBackAll, nodes, List.append_nil]⟩
  | case4 node between right _ =>
    exact ⟨_, rfl, (hr.pushFrontAll hb).pushFront hl, by rw [nodes_pushFront, nodes_pushFrontAll]; rfl⟩
  | case5 size outer middle inner between node =>
    refine ⟨_, rfl, (hl.pushBackAll hb).pushBack hr, ?_⟩
    rw [nodes_pushBack, nodes_pushBackAll, List.append_assoc, nodes]
  | case6 _ leftOuter leftMiddle leftInner between _ rightInner rightMiddle rightOuter ih =>
    obtain ⟨hlo, hlm, hli, -⟩ := hl
    obtain ⟨hri, hrm, hro, -⟩ := hr
    obtain ⟨branches, grouped, children, hbranches, -⟩ := hli.regroup_between hb hri
    obtain ⟨middle, joined, hm, same⟩ := ih branches hlm hbranches hrm
    refine ⟨Tree.level leftOuter middle rightOuter, ?_, .level hlo hm hro, ?_⟩
    · rw [grouped, ok_bind, joined]
      rfl
    · simp only [nodes_level, same, List.flatMap_append, children, nodes, List.append_assoc]

theorem Tree.Consistent.concat {left right : Tree α} (hl : left.Consistent depth)
    (hr : right.Consistent depth) :
    ∃ tree, left.concat right = .ok tree ∧ tree.Consistent depth ∧
      tree.nodes = left.nodes ++ right.nodes :=
  hl.join (fun _ mem => absurd mem List.not_mem_nil) hr

end IndexedSequence
