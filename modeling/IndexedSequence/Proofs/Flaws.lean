import IndexedSequence.Proofs.ExactTrees
import IndexedSequence.Tree.Parts
import IndexedSequence.Tree.Reach

/-!
What an audit says of any tree, however malformed. It passes the well-formed ones and no other, and the flaw it
reports is one that the tree has: where it names a number of elements, there are that many. All that is asked
of the tree is that cached sizes which are counted together add up to a word.
-/

set_option autoImplicit false

namespace IndexedSequence

variable {α : Type} {depth : Nat}

theorem Node.WellFormed.mem_leafDepths {node : Node α} (h : node.WellFormed depth) :
    depth ∈ node.leafDepths := by
  induction node generalizing depth with
  | leaf element =>
    cases depth with
    | zero => simp [leafDepths]
    | succ depth => exact h.elim
  | two size first second ih _ | three size first second third ih _ _ =>
    cases depth with
    | zero => exact h.elim
    | succ depth => simp [leafDepths, ih h.1]

theorem Node.leafDepths_ne_nil (node : Node α) : node.leafDepths ≠ [] := by
  induction node with
  | leaf element => simp [leafDepths]
  | two size first second ih _ | three size first second third ih _ _ => simp [leafDepths, ih]

theorem Node.forall_succ_iff {depths : List Nat} :
    (∀ edges ∈ depths.map (· + 1), edges = depth + 1) ↔ ∀ edges ∈ depths, edges = depth := by
  simp

theorem Node.not_forall_zero {depths : List Nat} (some_leaf : depths ≠ []) :
    ¬∀ edges ∈ depths.map (· + 1), edges = 0 := by
  obtain ⟨edges, rest, rfl⟩ := List.exists_cons_of_ne_nil some_leaf
  simp

/-- Well formed are the nodes with all leaves equally far down and every branch counted right. -/
theorem Node.wellFormed_iff_parts {node : Node α} :
    node.WellFormed depth ↔ (∀ edges ∈ node.leafDepths, edges = depth) ∧
      ∀ branch ∈ node.branches, branch.size.toNat = branch.toList.length := by
  induction node generalizing depth with
  | leaf element => cases depth <;> simp [WellFormed, leafDepths, branches]
  | two size first second ihf ihs =>
    cases depth with
    | zero =>
      refine iff_of_false id fun parts => ?_
      exact not_forall_zero (by simp [first.leafDepths_ne_nil]) parts.1
    | succ depth =>
      rw [WellFormed, ihf, ihs, leafDepths, forall_succ_iff, List.forall_mem_append,
        forall_branches_two, Node.size, toList, List.length_append]
      constructor
      · rintro ⟨⟨df, cf⟩, ⟨ds, cs⟩, counted⟩
        exact ⟨⟨df, ds⟩, cf, cs, counted⟩
      · rintro ⟨⟨df, ds⟩, cf, cs, counted⟩
        exact ⟨⟨df, cf⟩, ⟨ds, cs⟩, counted⟩
  | three size first second third ihf ihs iht =>
    cases depth with
    | zero =>
      refine iff_of_false id fun parts => ?_
      exact not_forall_zero (by simp [first.leafDepths_ne_nil]) parts.1
    | succ depth =>
      rw [WellFormed, ihf, ihs, iht, leafDepths, forall_succ_iff, List.forall_mem_append,
        List.forall_mem_append, forall_branches_three, Node.size, toList, List.length_append,
        List.length_append, ← Nat.add_assoc]
      constructor
      · rintro ⟨⟨df, cf⟩, ⟨ds, cs⟩, ⟨dt, ct⟩, counted⟩
        exact ⟨⟨df, ds, dt⟩, cf, cs, ct, counted⟩
      · rintro ⟨⟨df, ds, dt⟩, cf, cs, ct, counted⟩
        exact ⟨⟨df, cf⟩, ⟨ds, cs⟩, ⟨dt, ct⟩, counted⟩

theorem Tree.wellFormed_iff_parts {tree : Tree α} :
    tree.WellFormed depth ↔
      (∀ level, ∀ node ∈ tree.nodesAt level, (∀ edges ∈ node.leafDepths, edges = depth + level) ∧
        ∀ branch ∈ node.branches, branch.size.toNat = branch.toList.length) ∧
      ∀ inner ∈ tree.levels, inner.size.toNat = inner.toList.length := by
  simp only [← Node.wellFormed_iff_parts]
  induction tree generalizing depth with
  | empty => simp [WellFormed, nodesAt, levels]
  | single node =>
    simp only [WellFormed, levels, List.not_mem_nil, false_implies, implies_true, and_true]
    constructor
    · intro h level other mem
      cases level with
      | zero => exact List.mem_singleton.mp mem ▸ h
      | succ level => exact absurd mem List.not_mem_nil
    · intro h
      exact h 0 node List.mem_cons_self
  | deep size left middle right ih =>
    rw [WellFormed, ih, levels, List.forall_mem_cons, Tree.size, toList, List.length_append,
      List.length_append, ← Nat.add_assoc]
    constructor
    · rintro ⟨hl, ⟨hm, counts⟩, hr, counted⟩
      refine ⟨?_, counted, counts⟩
      intro level node mem
      cases level with
      | zero => exact (List.mem_append.mp mem).elim (hl node) (hr node)
      | succ level =>
        have below := hm level node mem
        rwa [Nat.add_assoc, Nat.add_comm 1] at below
    · rintro ⟨hn, counted, counts⟩
      refine ⟨?_, ⟨?_, counts⟩, ?_, counted⟩
      · intro node mem
        exact hn 0 node (List.mem_append_left _ mem)
      · intro level node mem
        rw [Nat.add_assoc, Nat.add_comm 1]
        exact hn (level + 1) node mem
      · intro node mem
        exact hn 0 node (List.mem_append_right _ mem)

/-- What a flaw says of a node: where its branches are uneven, or what one of them caches and holds. -/
def Node.Has (node : Node α) : Flaw → Prop
  | .unevenBranch =>
    ∃ branch ∈ node.branches, ∃ edges ∈ branch.leafDepths, ∃ edges' ∈ branch.leafDepths, edges ≠ edges'
  | .branchSize cached counted =>
    ∃ branch ∈ node.branches, branch.size = cached ∧ branch.toList.length = counted.toNat ∧
      cached ≠ counted
  | _ => False

def Tree.Has (depth : Nat) (tree : Tree α) : Flaw → Prop
  | .nodeDepth actual expected =>
    ∃ level, ∃ node ∈ tree.nodesAt level, expected = depth + level ∧
      (∀ edges ∈ node.leafDepths, edges = actual) ∧ actual ≠ expected
  | .treeSize cached counted =>
    ∃ inner ∈ tree.levels, inner.size = cached ∧ inner.toList.length = counted.toNat ∧ cached ≠ counted
  | .deepHolding size =>
    ∃ inner ∈ tree.levels, inner.size = size ∧ inner.toList.length = size.toNat ∧ size < 2
  | flaw => ∃ level, ∃ node ∈ tree.nodesAt level, node.Has flaw

theorem Node.Has.mono {node whole : Node α} {flaw : Flaw} (h : node.Has flaw)
    (within : ∀ branch ∈ node.branches, branch ∈ whole.branches) : whole.Has flaw := by
  cases flaw with
  | unevenBranch | branchSize cached counted =>
    obtain ⟨branch, mem, has⟩ := h
    exact ⟨branch, within branch mem, has⟩
  | nodeDepth | treeSize | deepHolding => exact h.elim

theorem Tree.Has.of_node {tree : Tree α} {node : Node α} {flaw : Flaw} (mem : node ∈ tree.nodesAt 0)
    (h : node.Has flaw) : tree.Has depth flaw := by
  cases flaw with
  | unevenBranch | branchSize cached counted => exact ⟨0, node, mem, h⟩
  | nodeDepth | treeSize | deepHolding => exact h.elim

theorem Tree.Has.of_middle {size : UInt64} {left right : Digit α} {middle : Tree α} {flaw : Flaw}
    (h : middle.Has (depth + 1) flaw) : (deep size left middle right).Has depth flaw := by
  cases flaw with
  | unevenBranch | branchSize cached counted =>
    obtain ⟨level, node, mem, has⟩ := h
    exact ⟨level + 1, node, mem, has⟩
  | nodeDepth actual expected =>
    obtain ⟨level, node, mem, at_level, has⟩ := h
    exact ⟨level + 1, node, mem, by omega, has⟩
  | treeSize cached counted | deepHolding size =>
    obtain ⟨inner, mem, has⟩ := h
    exact ⟨inner, List.mem_cons_of_mem _ mem, has⟩

theorem toNat_add_of_fit {a b : UInt64} (fit : a.toNat + b.toNat < UInt64.size) :
    (a + b).toNat = a.toNat + b.toNat := by
  rw [UInt64.toNat_add, Nat.mod_eq_of_lt fit]

theorem Digit.size_eq_cachedSum (digit : Digit α) : digit.size = .ofNat (Node.cachedSum digit.nodes) := by
  cases digit <;> simp [size, nodes, Node.cachedSum, UInt64.ofNat_add, UInt64.add_assoc]

theorem Flaw.unless_of_not {sound : Bool} (flaw : Flaw) (h : sound = false) :
    Flaw.unless sound flaw = .error flaw := by
  rw [h]
  rfl

theorem Node.WellFormed.toNat_size {node : Node α} (h : node.WellFormed depth) :
    node.size.toNat = node.toList.length := by
  obtain ⟨consistent, bound⟩ := Node.wellFormed_iff.mp h
  exact toNat_ofNat_of_eq consistent.size_eq bound

section

variable {node child first : Node α}

theorem Node.mem_branches_of_child (mem : child ∈ node.children) : node ∈ node.branches := by
  cases node with
  | leaf element => cases mem
  | two | three => simp [branches]

theorem Node.Has.of_child {flaw : Flaw} (h : child.Has flaw) (mem : child ∈ node.children) :
    node.Has flaw :=
  h.mono fun _ below => mem_branches_of_mem_children mem below

theorem Node.mem_leafDepths_of_child {edges : Nat} (mem : child ∈ node.children)
    (below : edges ∈ child.leafDepths) : edges + 1 ∈ node.leafDepths := by
  cases node with
  | leaf element => cases mem
  | two size a b =>
    simp only [children, List.mem_cons, List.not_mem_nil, or_false] at mem
    rcases mem with rfl | rfl <;> simp [leafDepths, below]
  | three size a b c =>
    simp only [children, List.mem_cons, List.not_mem_nil, or_false] at mem
    rcases mem with rfl | rfl | rfl <;> simp [leafDepths, below]

/-- The audit of one more child, next to a first one that is in order: it is as deep, or there is a flaw. -/
theorem Node.audit_sibling (hf : first.WellFormed depth) (mf : first ∈ node.children)
    (mc : child ∈ node.children)
    (outcome : (∃ depth, child.audit = .ok depth ∧ child.WellFormed depth) ∨
      ∃ flaw, child.audit = .error flaw ∧ child.Has flaw) :
    (child.WellFormed depth ∧ ∀ later : Except Flaw Nat,
      (do Flaw.unless (depth == (← child.audit)) .unevenBranch; later) = later) ∨
    ∃ flaw, node.Has flaw ∧ ∀ later : Except Flaw Nat,
      (do Flaw.unless (depth == (← child.audit)) .unevenBranch; later) = .error flaw := by
  obtain ⟨deep, found, hc⟩ | ⟨flaw, failed, has⟩ := outcome
  · rw [found]
    by_cases even : depth = deep
    · subst even
      exact .inl ⟨hc, fun later => by simp [Flaw.unless]⟩
    · refine .inr ⟨.unevenBranch, ?_, fun later => ?_⟩
      · refine ⟨node, mem_branches_of_child mc, depth + 1, mem_leafDepths_of_child mf hf.mem_leafDepths,
          deep + 1, mem_leafDepths_of_child mc hc.mem_leafDepths, ?_⟩
        omega
      · rw [ok_bind, Flaw.unless_of_not _ (by simpa using even)]
        rfl
  · exact .inr ⟨flaw, has.of_child mc, fun later => by rw [failed]; rfl⟩

/-- The last test of a branch, with its children in order: it caches what was counted, or that is the flaw. -/
theorem Node.audit_counted {counted : UInt64} (mem : child ∈ node.children)
    (exact_count : counted.toNat = node.toList.length) :
    (counted = node.size ∧ ∀ later : Except Flaw Nat,
      (do Flaw.unless (counted == node.size) (.branchSize node.size counted); later) = later) ∨
    ∃ flaw, node.Has flaw ∧ ∀ later : Except Flaw Nat,
      (do Flaw.unless (counted == node.size) (.branchSize node.size counted); later) = .error flaw := by
  by_cases same : counted = node.size
  · exact .inl ⟨same, fun later => by simp [Flaw.unless, same]⟩
  · refine .inr ⟨.branchSize node.size counted, ?_, fun later => ?_⟩
    · exact ⟨node, mem_branches_of_child mem, rfl, exact_count.symm, Ne.symm same⟩
    · rw [Flaw.unless_of_not _ (by simpa using same)]
      rfl

end

theorem Node.audit_cases {node : Node α} (fit : node.SumsFit) :
    (∃ depth, node.audit = .ok depth ∧ node.WellFormed depth) ∨
      ∃ flaw, node.audit = .error flaw ∧ node.Has flaw := by
  induction node with
  | leaf element => exact .inl ⟨0, rfl, trivial⟩
  | two size first second ihf ihs =>
    obtain ⟨ff, fs, sum⟩ := sumsFit_two.mp fit
    have mf : first ∈ (two size first second).children := by simp [children]
    have ms : second ∈ (two size first second).children := by simp [children]
    rw [audit]
    obtain ⟨depth, found, hf⟩ | ⟨flaw, failed, has⟩ := ihf ff
    case inr => exact .inr ⟨flaw, by rw [failed]; rfl, has.of_child mf⟩
    rw [found, ok_bind]
    obtain ⟨hs, passed⟩ | ⟨flaw, has, failed⟩ := audit_sibling hf mf ms (ihs fs)
    case inr => exact .inr ⟨flaw, failed _, has⟩
    rw [passed]
    have counts : (first.size + second.size).toNat = (two size first second).toList.length := by
      rw [toNat_add_of_fit sum, hf.toNat_size, hs.toNat_size, toList, List.length_append]
    obtain ⟨same, passed⟩ | ⟨flaw, has, failed⟩ := audit_counted mf counts
    case inr => exact .inr ⟨flaw, failed _, has⟩
    refine .inl ⟨depth + 1, passed _, hf, hs, ?_⟩
    rw [same, toList, List.length_append] at counts
    exact counts
  | three size first second third ihf ihs iht =>
    obtain ⟨ff, fs, ft, sum⟩ := sumsFit_three.mp fit
    have mf : first ∈ (three size first second third).children := by simp [children]
    have ms : second ∈ (three size first second third).children := by simp [children]
    have mt : third ∈ (three size first second third).children := by simp [children]
    rw [audit]
    obtain ⟨depth, found, hf⟩ | ⟨flaw, failed, has⟩ := ihf ff
    case inr => exact .inr ⟨flaw, by rw [failed]; rfl, has.of_child mf⟩
    rw [found, ok_bind]
    obtain ⟨hs, passed⟩ | ⟨flaw, has, failed⟩ := audit_sibling hf mf ms (ihs fs)
    case inr => exact .inr ⟨flaw, failed _, has⟩
    rw [passed]
    obtain ⟨ht, passed⟩ | ⟨flaw, has, failed⟩ := audit_sibling hf mf mt (iht ft)
    case inr => exact .inr ⟨flaw, failed _, has⟩
    rw [passed]
    have counts : (first.size + second.size + third.size).toNat =
        (three size first second third).toList.length := by
      have pair : (first.size + second.size).toNat = first.size.toNat + second.size.toNat :=
        toNat_add_of_fit (by omega)
      rw [toNat_add_of_fit (by omega), pair, hf.toNat_size, hs.toNat_size, ht.toNat_size, toList,
        List.length_append, List.length_append, Nat.add_assoc]
    obtain ⟨same, passed⟩ | ⟨flaw, has, failed⟩ := audit_counted mf counts
    case inr => exact .inr ⟨flaw, failed _, has⟩
    refine .inl ⟨depth + 1, passed _, hf, hs, ht, ?_⟩
    rw [same, toList, List.length_append, List.length_append, ← Nat.add_assoc] at counts
    exact counts

theorem Node.auditAt_cases {node : Node α} (fit : node.SumsFit) (depth : Nat) :
    (node.auditAt depth = .ok () ∧ node.WellFormed depth) ∨
      ∃ flaw, node.auditAt depth = .error flaw ∧
        ∀ tree : Tree α, node ∈ tree.nodesAt 0 → tree.Has depth flaw := by
  rw [auditAt]
  obtain ⟨actual, found, h⟩ | ⟨flaw, failed, has⟩ := audit_cases fit
  · rw [found, ok_bind]
    by_cases same : actual = depth
    · subst same
      exact .inl ⟨Flaw.unless_of _ (beq_self_eq_true actual), h⟩
    · refine .inr ⟨.nodeDepth actual depth, Flaw.unless_of_not _ (by simpa using same), ?_⟩
      intro tree mem
      exact ⟨0, node, mem, rfl, (wellFormed_iff_parts.mp h).1, same⟩
  · exact .inr ⟨flaw, by rw [failed]; rfl, fun tree mem => .of_node mem has⟩

theorem Digit.auditAt_cases {digit : Digit α} (fit : digit.SumsFit) (depth : Nat) :
    (digit.auditAt depth = .ok () ∧ digit.WellFormed depth) ∨
      ∃ flaw, digit.auditAt depth = .error flaw ∧
        ∀ tree : Tree α, (∀ node ∈ digit.nodes, node ∈ tree.nodesAt 0) → tree.Has depth flaw := by
  unfold SumsFit at fit
  unfold auditAt WellFormed
  generalize digit.nodes = nodes at fit ⊢
  induction nodes with
  | nil => exact .inl ⟨rfl, nofun⟩
  | cons node rest ih =>
    rw [List.forall_mem_cons] at fit
    rw [List.forM]
    obtain ⟨passed, h⟩ | ⟨flaw, failed, has⟩ := Node.auditAt_cases fit.1 depth
    case inr =>
      refine .inr ⟨flaw, by rw [failed]; rfl, fun tree mem => ?_⟩
      exact has tree (mem node List.mem_cons_self)
    rw [passed, ok_bind]
    obtain ⟨passed, hrest⟩ | ⟨flaw, failed, has⟩ := ih fit.2
    · exact .inl ⟨passed, List.forall_mem_cons.mpr ⟨h, hrest⟩⟩
    · refine .inr ⟨flaw, failed, fun tree mem => ?_⟩
      exact has tree fun n inside => mem n (List.mem_cons_of_mem _ inside)

theorem Node.cachedSum_of_wellFormed {nodes : List (Node α)}
    (h : ∀ node ∈ nodes, node.WellFormed depth) : cachedSum nodes = (elements nodes).length :=
  cachedSum_of_sizesExact fun node mem => (h node mem).sizesExact

section

variable {left right : Digit α} {middle : Tree α}

theorem Tree.counted_of_wellFormed (hl : left.WellFormed depth) (hm : middle.WellFormed (depth + 1))
    (hr : right.WellFormed depth)
    (fit : Node.cachedSum left.nodes + middle.size.toNat + Node.cachedSum right.nodes < UInt64.size) :
    (left.size + middle.size + right.size).toNat =
      left.toList.length + middle.toList.length + right.toList.length := by
  rw [Node.cachedSum_of_wellFormed hl, Node.cachedSum_of_wellFormed hr, hm.toNat_size,
    ← Digit.toList_eq, ← Digit.toList_eq] at fit
  have sum : left.size + middle.size + right.size =
      .ofNat (left.toList.length + middle.toList.length + right.toList.length) := by
    rw [hl.consistent.size_eq, (Tree.wellFormed_iff.mp hm).1.size_eq, hr.consistent.size_eq,
      UInt64.ofNat_add, UInt64.ofNat_add]
  exact toNat_ofNat_of_eq sum fit

end

theorem Tree.audit_cases {tree : Tree α} (fit : tree.SumsFit) (depth : Nat) :
    (tree.audit depth = .ok () ∧ tree.WellFormed depth) ∨
      ∃ flaw, tree.audit depth = .error flaw ∧ tree.Has depth flaw := by
  induction tree generalizing depth with
  | empty => exact .inl ⟨rfl, trivial⟩
  | single node =>
    obtain ⟨passed, h⟩ | ⟨flaw, failed, has⟩ := Node.auditAt_cases fit depth
    · exact .inl ⟨passed, h⟩
    · exact .inr ⟨flaw, failed, has _ List.mem_cons_self⟩
  | deep size left middle right ih =>
    obtain ⟨fl, fm, fr, sum⟩ := fit
    rw [audit]
    obtain ⟨passed, hl⟩ | ⟨flaw, failed, has⟩ := Digit.auditAt_cases fl depth
    case inr =>
      refine .inr ⟨flaw, by rw [failed]; rfl, has _ fun node mem => ?_⟩
      exact List.mem_append_left _ mem
    rw [passed, ok_bind]
    obtain ⟨passed, hr⟩ | ⟨flaw, failed, has⟩ := Digit.auditAt_cases fr depth
    case inr =>
      refine .inr ⟨flaw, by rw [failed]; rfl, has _ fun node mem => ?_⟩
      exact List.mem_append_right _ mem
    rw [passed, ok_bind]
    obtain ⟨passed, hm⟩ | ⟨flaw, failed, has⟩ := ih fm (depth + 1)
    case inr => exact .inr ⟨flaw, by rw [failed]; rfl, has.of_middle⟩
    rw [passed, ok_bind]
    have counts := counted_of_wellFormed hl hm hr sum
    have whole : (deep size left middle right).toList.length =
        left.toList.length + middle.toList.length + right.toList.length := by
      rw [toList, List.length_append, List.length_append, Nat.add_assoc]
    have own : deep size left middle right ∈ (deep size left middle right).levels := List.mem_cons_self
    by_cases same : left.size + middle.size + right.size = size
    case neg =>
      refine .inr ⟨.treeSize size (left.size + middle.size + right.size), ?_, ?_⟩
      · dsimp only
        rw [Flaw.unless_of_not (.treeSize size _) (by simpa using same)]
        rfl
      · exact ⟨_, own, rfl, by rw [whole, counts], Ne.symm same⟩
    dsimp only
    rw [Flaw.unless_of (.treeSize size _) (by simpa using same), ok_bind]
    rw [same] at counts
    -- No tree fails this last test, but that needs more than the outcome: see `not_has_deepHolding`.
    by_cases many : 2 ≤ size
    · exact .inl ⟨Flaw.unless_of _ (by simpa using many), hl, hm, hr, counts⟩
    · refine .inr ⟨.deepHolding size, Flaw.unless_of_not _ (by simpa using many), ?_⟩
      exact ⟨_, own, rfl, by rw [whole, counts], UInt64.not_le.mp many⟩

theorem Tree.two_le_length_of_mem_levels {tree inner : Tree α} (mem : inner ∈ tree.levels) :
    2 ≤ inner.toList.length := by
  induction tree with
  | empty | single node => cases mem
  | deep size left middle right ih =>
    rcases List.mem_cons.mp mem with rfl | below
    · have := left.length_pos
      have := right.length_pos
      rw [toList, List.length_append, List.length_append]
      omega
    · exact ih below

/-- No level holds fewer than two elements, as each of its digits has a node, and each node a leaf. -/
theorem Tree.not_has_deepHolding (tree : Tree α) (size : UInt64) : ¬tree.Has depth (.deepHolding size) := by
  rintro ⟨inner, mem, -, counted, few⟩
  have many := two_le_length_of_mem_levels mem
  rw [counted] at many
  have : size.toNat < 2 := UInt64.lt_iff_toNat_lt.mp few
  omega

theorem plus_of_fit {a b : UInt64} (fit : a.toNat + b.toNat < UInt64.size) : plus a b = .ok (a + b) :=
  if_pos fit

theorem Node.auditChecked_eq {node : Node α} (fit : node.SumsFit) :
    node.auditChecked = node.audit.mapError .inr := by
  induction node with
  | leaf element => rfl
  | two size first second ihf ihs =>
    obtain ⟨ff, fs, sum⟩ := sumsFit_two.mp fit
    rw [auditChecked, audit, ihf ff, ihs fs, plus_of_fit sum]
    cases first.audit with
    | error flaw => rfl
    | ok depth =>
      cases second.audit with
      | error flaw => rfl
      | ok depth' =>
        simp only [mapError_ok, ok_bind, audited_of_fault]
        cases depth == depth' <;> cases first.size + second.size == size <;> rfl
  | three size first second third ihf ihs iht =>
    obtain ⟨ff, fs, ft, sum⟩ := sumsFit_three.mp fit
    have pair_fits : first.size.toNat + second.size.toNat < UInt64.size := by omega
    have all : plus (first.size + second.size) third.size =
        .ok (first.size + second.size + third.size) :=
      plus_of_fit (by rw [toNat_add_of_fit pair_fits]; omega)
    rw [auditChecked, audit, ihf ff, ihs fs, iht ft, plus_of_fit pair_fits]
    cases first.audit with
    | error flaw => rfl
    | ok depth =>
      cases second.audit with
      | error flaw => rfl
      | ok depth' =>
        cases third.audit with
        | error flaw => simp only [mapError_ok, ok_bind]; cases depth == depth' <;> rfl
        | ok depth'' =>
          simp only [mapError_ok, ok_bind, audited_of_fault, all]
          cases depth == depth' <;> cases depth == depth'' <;>
            cases first.size + second.size + third.size == size <;> rfl

theorem Digit.auditAtChecked_eq {digit : Digit α} (fit : digit.SumsFit) (depth : Nat) :
    digit.auditAtChecked depth = (digit.auditAt depth).mapError .inr := by
  unfold SumsFit at fit
  unfold auditAtChecked auditAt
  generalize digit.nodes = nodes at fit ⊢
  induction nodes with
  | nil => rfl
  | cons node rest ih =>
    rw [List.forall_mem_cons] at fit
    rw [List.forM, List.forM, mapError_bind, ← ih fit.2, Node.auditAtChecked, Node.auditAt,
      Node.auditChecked_eq fit.1, mapError_bind]
    rfl

theorem Node.sumChecked_of_fit {nodes : List (Node α)} {total : UInt64}
    (fit : total.toNat + cachedSum nodes < UInt64.size) :
    sumChecked nodes total = .ok (.ofNat (total.toNat + cachedSum nodes)) := by
  induction nodes generalizing total with
  | nil => exact congrArg Except.ok UInt64.ofNat_toNat.symm
  | cons node rest ih =>
    change total.toNat + (node.size.toNat + cachedSum rest) < UInt64.size at fit
    have first : total.toNat + node.size.toNat < UInt64.size := by omega
    have grown := toNat_add_of_fit first
    rw [sumChecked, plus_of_fit first, ok_bind, ih (by omega), grown, Nat.add_assoc]
    rfl

theorem Digit.sizeChecked_of_fit {digit : Digit α} (fit : Node.cachedSum digit.nodes < UInt64.size) :
    digit.sizeChecked = .ok digit.size := by
  rw [sizeChecked, Node.sumChecked_of_fit (by simpa using fit), digit.size_eq_cachedSum]
  simp

theorem Tree.auditChecked_eq {tree : Tree α} (fit : tree.SumsFit) (depth : Nat) :
    tree.auditChecked depth = (tree.audit depth).mapError .inr := by
  induction tree generalizing depth with
  | empty => rfl
  | single node =>
    change node.auditAtChecked depth = (node.auditAt depth).mapError .inr
    rw [Node.auditAtChecked, Node.auditAt, Node.auditChecked_eq fit, mapError_bind]
    rfl
  | deep size left middle right ih =>
    obtain ⟨fl, fm, fr, sum⟩ := fit
    have leftNat := toNat_ofNat_of_eq left.size_eq_cachedSum (by omega)
    have rightNat := toNat_ofNat_of_eq right.size_eq_cachedSum (by omega)
    have first : left.size.toNat + middle.size.toNat < UInt64.size := by omega
    have all : plus (left.size + middle.size) right.size =
        .ok (left.size + middle.size + right.size) :=
      plus_of_fit (by rw [toNat_add_of_fit first]; omega)
    rw [auditChecked, audit, Digit.auditAtChecked_eq fl, Digit.auditAtChecked_eq fr, ih fm,
      Digit.sizeChecked_of_fit (by omega), Digit.sizeChecked_of_fit (by omega)]
    simp only [mapError_bind, ok_bind, audited_of_fault, plus_of_fit first, all]
    rfl

/-- An audit passes a tree just if it is well formed, and else reports a flaw that the tree has. -/
theorem Tree.audit_judges_any_tree (tree : Tree α) (depth : Nat) (fit : tree.SumsFit) :
    (tree.audit depth = .ok () ↔
      (∀ level, ∀ node ∈ tree.nodesAt level, (∀ edges ∈ node.leafDepths, edges = depth + level) ∧
        ∀ branch ∈ node.branches, branch.size.toNat = branch.toList.length) ∧
      ∀ inner ∈ tree.levels, inner.size.toNat = inner.toList.length) ∧
    (∀ cached counted, tree.audit depth = .error (.branchSize cached counted) →
      ∃ level, ∃ node ∈ tree.nodesAt level, ∃ branch ∈ node.branches,
        branch.size = cached ∧ branch.toList.length = counted.toNat ∧ cached ≠ counted) ∧
    (∀ cached counted, tree.audit depth = .error (.treeSize cached counted) →
      ∃ inner ∈ tree.levels,
        inner.size = cached ∧ inner.toList.length = counted.toNat ∧ cached ≠ counted) ∧
    (tree.audit depth = .error .unevenBranch →
      ∃ level, ∃ node ∈ tree.nodesAt level, ∃ branch ∈ node.branches,
        ∃ edges ∈ branch.leafDepths, ∃ edges' ∈ branch.leafDepths, edges ≠ edges') ∧
    (∀ actual expected, tree.audit depth = .error (.nodeDepth actual expected) →
      ∃ level, ∃ node ∈ tree.nodesAt level, expected = depth + level ∧
        (∀ edges ∈ node.leafDepths, edges = actual) ∧ actual ≠ expected) ∧
    (∀ size, tree.audit depth ≠ .error (.deepHolding size)) ∧
    tree.auditChecked depth = (tree.audit depth).mapError .inr := by
  have truthful : ∀ flaw, tree.audit depth = .error flaw → tree.Has depth flaw := by
    intro flaw reported
    obtain ⟨passed, -⟩ | ⟨flaw', failed, has⟩ := audit_cases fit depth
    · rw [passed] at reported
      cases reported
    · rw [failed] at reported
      exact Except.error.inj reported ▸ has
  refine ⟨?_, fun _ _ => truthful _, fun _ _ => truthful _, truthful _, fun _ _ => truthful _, ?_,
    auditChecked_eq fit depth⟩
  · rw [← wellFormed_iff_parts]
    constructor
    · intro passed
      obtain ⟨-, h⟩ | ⟨flaw, failed, -⟩ := audit_cases fit depth
      · exact h
      · rw [failed] at passed
        cases passed
    · exact WellFormed.audit
  · intro size reported
    exact tree.not_has_deepHolding size (truthful _ reported)

def miscountedLevel : Tree Nat :=
  .deep 8 (.one (.leaf 0)) (.single (.three 5 (.leaf 1) (.leaf 2) (.leaf 3))) (.two (.leaf 4) (.leaf 5))

theorem Tree.miscountedLevel_judged :
    miscountedLevel.SumsFit ∧ miscountedLevel.audit 0 = .error (.branchSize 5 3) ∧
      (∃ level, ∃ node ∈ miscountedLevel.nodesAt level, ∃ branch ∈ node.branches,
        branch.size = 5 ∧ branch.toList.length = 3) ∧
      ¬(∀ inner ∈ miscountedLevel.levels, inner.size.toNat = inner.toList.length) ∧
      miscountedLevel.auditChecked 0 = .error (.inr (.branchSize 5 3)) := by
  have fit : miscountedLevel.SumsFit := by decide
  have reported : miscountedLevel.audit 0 = .error (.branchSize 5 3) := by rfl
  obtain ⟨-, named, -, -, -, -, alike⟩ := audit_judges_any_tree miscountedLevel 0 fit
  obtain ⟨level, node, mem, branch, inside, cached, counted, -⟩ := named 5 3 reported
  exact ⟨fit, reported, ⟨level, node, mem, branch, inside, cached, counted⟩, by decide,
    by rw [alike, reported]; rfl⟩

end IndexedSequence
