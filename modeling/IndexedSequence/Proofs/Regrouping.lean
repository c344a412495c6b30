import IndexedSequence.Proofs.Building

set_option autoImplicit false

namespace IndexedSequence

variable {α : Type}

/-- The size is the sum of those of the children: as a word in any case, and as a number if that fits one. -/
structure Node.AddsUp (branch : Node α) : Prop where
  size_eq : branch.size = .ofNat (cachedSum branch.children)
  toNat_size : cachedSum branch.children < UInt64.size →
    branch.size.toNat = cachedSum branch.children

theorem Node.Grouped.addsUp {branch : Node α} (h : branch.Grouped) : branch.AddsUp := by
  have summed : branch.size = .ofNat (cachedSum branch.children) := by
    cases h with
    | pair a b => simp [Node.pair, size, children, cachedSum, UInt64.ofNat_add]
    | triple a b c => simp [Node.triple, size, children, cachedSum, UInt64.ofNat_add, UInt64.add_assoc]
  exact ⟨summed, toNat_ofNat_of_eq summed⟩

theorem Node.Grouped.arity {branch : Node α} (h : branch.Grouped) :
    branch.children.length = 2 ∨ branch.children.length = 3 := by
  cases h with
  | pair a b => exact .inl rfl
  | triple a b c => exact .inr rfl

namespace Buffer

theorem fold_append (buffer : Buffer α) (front back : List (Node α)) :
    buffer.fold (front ++ back) =
      (((buffer.fold front).1.fold back).1,
        (buffer.fold front).2 ++ ((buffer.fold front).1.fold back).2) := by
  induction front generalizing buffer with
  | nil => rfl
  | cons node rest ih => rw [List.cons_append, fold_cons, ih, fold_cons, List.append_assoc]

theorem length_emitted (buffer : Buffer α) (stream : List (Node α)) :
    (buffer.fold stream).2.length =
      if buffer.nodes.length + stream.length ≤ 4 then 0
      else (buffer.nodes.length + stream.length - 2) / 3 := by
  have conserved := congrArg List.length (buffer.fold_conserves stream)
  rw [List.length_append, Node.length_children_flatMap fun _ => triple_of_mem_fold, length_nodes_fold,
    List.length_append] at conserved
  unfold kept at conserved
  split at conserved
  case isTrue few =>
    rw [if_pos few]
    omega
  case isFalse many =>
    rw [if_neg many]
    omega

theorem ofNodes?_nodes (buffer : Buffer α) : Digit.ofNodes? buffer.nodes = buffer.pending := by
  rcases buffer with ⟨_ | digit⟩
  · rfl
  · cases digit <;> rfl

theorem pending_eq_none_iff {buffer : Buffer α} : buffer.pending = none ↔ buffer.nodes.length = 0 := by
  rcases buffer with ⟨_ | digit⟩
  · exact iff_of_true rfl rfl
  · exact iff_of_false nofun (Nat.ne_of_gt digit.length_nodes_pos)

theorem kept_eq_zero_iff {count : Nat} : kept count = 0 ↔ count = 0 := by
  unfold kept
  split <;> omega

theorem two_le_kept {count : Nat} (many : 4 < count) : 2 ≤ kept count := by
  rw [kept, if_neg (Nat.not_le.mpr many)]
  exact Nat.le_add_right 2 _

/-- However a stream comes in, branches of three go out, all nodes stay in order, and up to four of them
are pending. -/
theorem fold_emits_triples (buffer : Buffer α) (stream : List (Node α)) :
    (buffer.fold stream).1.nodes.length ≤ 4 ∧
      (∀ branch ∈ (buffer.fold stream).2, branch.children.length = 3 ∧ branch.AddsUp) ∧
      (buffer.fold stream).2.flatMap Node.children ++ (buffer.fold stream).1.nodes =
        buffer.nodes ++ stream ∧
      (buffer.fold stream).2.length =
        (if buffer.nodes.length + stream.length ≤ 4 then 0
        else (buffer.nodes.length + stream.length - 2) / 3) ∧
      ((buffer.fold stream).2 ≠ [] → 2 ≤ (buffer.fold stream).1.nodes.length) ∧
      (Digit.ofNodes? (buffer.fold stream).1.nodes = (buffer.fold stream).1.pending ∧
        ((buffer.fold stream).1.pending = none ↔ buffer.nodes.length + stream.length = 0)) ∧
      ∀ more : List (Node α), buffer.fold (stream ++ more) =
        (((buffer.fold stream).1.fold more).1,
          (buffer.fold stream).2 ++ ((buffer.fold stream).1.fold more).2) := by
  have stays := buffer.length_nodes_fold stream
  have emitted := buffer.length_emitted stream
  refine ⟨length_nodes_le _, ?_, buffer.fold_conserves stream, emitted, ?_, ⟨ofNodes?_nodes _, ?_⟩,
    buffer.fold_append stream⟩
  · intro branch mem
    obtain ⟨a, b, c, rfl⟩ := triple_of_mem_fold mem
    exact ⟨rfl, (Node.Grouped.triple a b c).addsUp⟩
  · intro given
    rw [stays]
    refine two_le_kept (Nat.not_le.mp fun few => given ?_)
    rw [if_pos few] at emitted
    exact List.length_eq_zero_iff.mp emitted
  · rw [pending_eq_none_iff, stays, kept_eq_zero_iff]

end Buffer

theorem Buffer.elevenPairs_emit_triples :
    let buffer : Buffer Nat := ⟨some (.three (.leaf 1) (.leaf 2) (.leaf 3))⟩
    let folded := buffer.fold elevenPairs
    folded.2 ≠ [] ∧ folded.2.length = 4 ∧ 2 ≤ folded.1.nodes.length ∧ folded.1.nodes.length ≤ 4 ∧
      folded.2.flatMap Node.children ++ folded.1.nodes = buffer.nodes ++ elevenPairs ∧
      (∀ branch ∈ folded.2, branch.children.length = 3 ∧ branch.AddsUp) ∧ folded.1.pending ≠ none := by
  intro buffer folded
  obtain ⟨few, ternary, conserved, count, behind, ⟨-, nothing⟩, -⟩ := buffer.fold_emits_triples elevenPairs
  have given : folded.2 ≠ [] := by decide
  exact ⟨given, count.trans (by decide), behind given, few, conserved, ternary, mt nothing.mp (by decide)⟩

theorem regroup_of_ne {nodes : List (Node α)} (many : nodes.length ≠ 1) :
    ∃ branches, regroup nodes = .ok branches ∧ branches.length = (nodes.length + 2) / 3 ∧
      (∀ branch ∈ branches, branch.Grouped) ∧ branches.flatMap Node.children = nodes := by
  obtain ⟨last, grouped, children, made, counted⟩ := regroup_parts many
  refine ⟨_, grouped, ?_, List.forall_mem_append.mpr ⟨fun branch mem => ?_, made⟩, ?_⟩
  · have emitted := Buffer.empty.length_emitted nodes
    rw [Buffer.empty.length_nodes_fold, Buffer.nodes_empty, List.length_nil, Nat.zero_add] at counted
    rw [Buffer.nodes_empty, List.length_nil, Nat.zero_add] at emitted
    rw [List.length_append, emitted, counted, Buffer.kept]
    split <;> omega
  · obtain ⟨a, b, c, rfl⟩ := Buffer.triple_of_mem_fold mem
    exact .triple a b c
  · rw [List.flatMap_append, children]
    exact Buffer.empty.fold_conserves nodes

theorem regroup_lone (node : Node α) : regroup [node] = .error .loneNode := rfl

/-- The same as `join`, and besides it the nodes handed on to the join of each two middles, from the top down. -/
def Tree.joinHanding : Tree α → List (Node α) → Tree α → Except Fault (Tree α × List (List (Node α)))
  | deep _ leftOuter leftMiddle leftInner, between, deep _ rightInner rightMiddle rightOuter => do
    let loose ← regroup (leftInner.nodes ++ (between ++ rightInner.nodes))
    let (middle, handed) ← leftMiddle.joinHanding loose rightMiddle
    return (level leftOuter middle rightOuter, loose :: handed)
  | left, between, right => (·, []) <$> left.join between right

theorem Tree.fst_joinHanding (left : Tree α) (between : List (Node α)) (right : Tree α) :
    Prod.fst <$> left.joinHanding between right = left.join between right := by
  fun_induction joinHanding left between right with
  | case1 _ leftOuter leftMiddle leftInner between _ rightInner rightMiddle rightOuter ih =>
    rw [join]
    cases regroup (leftInner.nodes ++ (between ++ rightInner.nodes)) with
    | error fault => rfl
    | ok loose =>
      rw [ok_bind, ok_bind, ← ih loose]
      cases leftMiddle.joinHanding loose rightMiddle <;> rfl
  | case2 left between right => cases left.join between right <;> rfl

/-- As many as can be loose between two levels: what two full digits and four nodes between them make, again four. -/
theorem Tree.joinHanding_narrow (left : Tree α) (between : List (Node α)) (right : Tree α)
    (few : between.length ≤ 4) :
    ∃ tree handed, left.joinHanding between right = .ok (tree, handed) ∧
      handed.length = min left.height right.height ∧
      ∀ loose ∈ handed, 1 ≤ loose.length ∧ loose.length ≤ 4 ∧
        (loose.flatMap Node.children).length ≤ 12 := by
  induction left generalizing between right with
  | empty => exact ⟨_, [], rfl, (Nat.zero_min _).symm, by simp⟩
  | single node => cases right <;> exact ⟨_, [], rfl, (Nat.zero_min _).symm, by simp⟩
  | deep size leftOuter leftMiddle leftInner ih =>
    cases right with
    | empty | single node => exact ⟨_, [], rfl, (Nat.min_zero _).symm, by simp⟩
    | deep size' rightInner rightMiddle rightOuter =>
      have := leftInner.length_nodes_pos
      have := leftInner.length_nodes_le
      have := rightInner.length_nodes_pos
      have := rightInner.length_nodes_le
      have counted : (leftInner.nodes ++ (between ++ rightInner.nodes)).length =
          leftInner.nodes.length + (between.length + rightInner.nodes.length) := by
        rw [List.length_append, List.length_append]
      have many : (leftInner.nodes ++ (between ++ rightInner.nodes)).length ≠ 1 := by omega
      obtain ⟨loose, grouped, count, -, children⟩ := regroup_of_ne many
      obtain ⟨tree, handed, joined, levels, narrow⟩ := ih loose rightMiddle (by omega)
      refine ⟨level leftOuter tree rightOuter, loose :: handed, ?_, ?_, List.forall_mem_cons.mpr
        ⟨⟨by omega, by omega, by rw [children]; omega⟩, narrow⟩⟩
      · rw [joinHanding, grouped, ok_bind, joined]
        rfl
      · rw [List.length_cons, levels, height, height, Nat.add_min_add_right]

/-- Regrouping fails of a lone node only, and makes a third as many branches, rounded up; so a join hands at most four
on from level to level. -/
theorem Tree.regroup_length_eq_and_handed_le_four :
    (∀ nodes : List (Node α), nodes.length ≠ 1 →
      ∃ branches, regroup nodes = .ok branches ∧ branches.length = (nodes.length + 2) / 3 ∧
        (∀ branch ∈ branches,
          (branch.children.length = 2 ∨ branch.children.length = 3) ∧ branch.AddsUp) ∧
        branches.flatMap Node.children = nodes) ∧
      (∀ (nodes : List (Node α)) (fault : Fault),
        regroup nodes = .error fault ↔ nodes.length = 1 ∧ fault = .loneNode) ∧
      ∀ left right : Tree α, ∃ tree handed, left.joinHanding [] right = .ok (tree, handed) ∧
        left.concat right = .ok tree ∧ handed.length = min left.height right.height ∧
        ∀ loose ∈ handed, 1 ≤ loose.length ∧ loose.length ≤ 4 ∧
          (loose.flatMap Node.children).length ≤ 4 + 4 + 4 := by
  refine ⟨fun nodes many => ?_, fun nodes fault => ⟨fun failed => ?_, ?_⟩, fun left right => ?_⟩
  · obtain ⟨branches, grouped, count, made, children⟩ := regroup_of_ne many
    exact ⟨branches, grouped, count, fun branch mem => ⟨(made branch mem).arity, (made branch mem).addsUp⟩,
      children⟩
  · by_cases lone : nodes.length = 1
    · obtain ⟨node, rfl⟩ := List.length_eq_one_iff.mp lone
      rw [regroup_lone] at failed
      exact ⟨lone, (Except.error.inj failed).symm⟩
    · obtain ⟨branches, grouped, -⟩ := regroup_of_ne lone
      rw [grouped] at failed
      cases failed
  · rintro ⟨lone, rfl⟩
    obtain ⟨node, rfl⟩ := List.length_eq_one_iff.mp lone
    exact regroup_lone node
  · obtain ⟨tree, handed, joined, levels, narrow⟩ := joinHanding_narrow left [] right (Nat.zero_le 4)
    refine ⟨tree, handed, joined, ?_, levels, narrow⟩
    rw [concat, ← fst_joinHanding, joined, map_ok]

/-- Three levels of full digits hand on three, four and four branches, and could not hand on more. -/
theorem Tree.fullDigits_handed_le_four :
    let run := elevenPairs.drop 1
    let tree : Tree Nat := empty.pushBackAll ((List.range 65).map .leaf)
    run.length ≠ 1 ∧
      (∃ branches, regroup run = .ok branches ∧ branches.length = 4 ∧ branches.flatMap Node.children = run) ∧
      ∃ joined handed, tree.joinHanding [] tree.reversed = .ok (joined, handed) ∧
        tree.concat tree.reversed = .ok joined ∧ handed.map List.length = [3, 4, 4] ∧
        ∀ loose ∈ handed, 1 ≤ loose.length ∧ loose.length ≤ 4 := by
  intro run tree
  obtain ⟨regrouped, -, joins⟩ := @regroup_length_eq_and_handed_le_four Nat
  have many : run.length ≠ 1 := by decide
  obtain ⟨branches, grouped, count, -, children⟩ := regrouped run many
  obtain ⟨joined, handed, handing, concatenated, -, narrow⟩ := joins tree tree.reversed
  have lengths : handed.map List.length = [3, 4, 4] := by
    have evaluated : (tree.joinHanding [] tree.reversed).map (fun made => made.2.map List.length) =
        .ok [3, 4, 4] := by rfl
    rw [handing] at evaluated
    exact Except.ok.inj evaluated
  exact ⟨many, ⟨branches, grouped, count.trans (by decide), children⟩, joined, handed, handing, concatenated,
    lengths, fun loose mem => ⟨(narrow loose mem).1, (narrow loose mem).2.1⟩⟩

end IndexedSequence
