import IndexedSequence.Proofs.Consistency
import IndexedSequence.Proofs.Outcome
import IndexedSequence.Tree.Audit

set_option autoImplicit false

namespace IndexedSequence

variable {α : Type} {depth : Nat}

theorem Flaw.unless_of {sound : Bool} (flaw : Flaw) (h : sound = true) : Flaw.unless sound flaw = .ok () :=
  if_pos h

/-- The leaves of a consistent node lie where they should; an audit counts sizes as they wrap. -/
theorem Node.Consistent.audit {node : Node α} (h : node.Consistent depth) : node.audit = .ok depth := by
  induction node generalizing depth with
  | leaf element =>
    cases depth with
    | zero => rfl
    | succ depth => exact h.elim
  | two size first second ihf ihs =>
    cases depth with
    | zero => exact h.elim
    | succ depth =>
      have counted : first.size + second.size = size := by
        rw [h.1.size_eq, h.2.1.size_eq, h.2.2, UInt64.ofNat_add]
      rw [Node.audit, ihf h.1, ihs h.2.1]
      simp [Flaw.unless, counted]
  | three size first second third ihf ihs iht =>
    cases depth with
    | zero => exact h.elim
    | succ depth =>
      have counted : first.size + second.size + third.size = size := by
        rw [h.1.size_eq, h.2.1.size_eq, h.2.2.1.size_eq, h.2.2.2, UInt64.ofNat_add, UInt64.ofNat_add]
      rw [Node.audit, ihf h.1, ihs h.2.1, iht h.2.2.1]
      simp [Flaw.unless, counted]

theorem Node.Consistent.auditAt {node : Node α} (h : node.Consistent depth) :
    node.auditAt depth = .ok () := by
  rw [Node.auditAt, h.audit, ok_bind]
  exact Flaw.unless_of _ (beq_self_eq_true depth)

theorem Digit.Consistent.auditAt {digit : Digit α} (h : digit.Consistent depth) :
    digit.auditAt depth = .ok () := by
  rw [Digit.auditAt]
  unfold Digit.Consistent at h
  generalize digit.nodes = nodes at h ⊢
  induction nodes with
  | nil => rfl
  | cons node rest ih =>
    rw [List.forall_mem_cons] at h
    rw [List.forM, h.1.auditAt, ok_bind, ih h.2]

theorem Tree.WellFormed.audit {tree : Tree α} (h : tree.WellFormed depth) :
    tree.audit depth = .ok () := by
  induction tree generalizing depth with
  | empty => rfl
  | single node => exact (Node.wellFormed_iff.mp h).1.auditAt
  | deep size left middle right ih =>
    obtain ⟨hl, hm, hr, sized⟩ := h
    have counted : left.size + middle.size + right.size = size := by
      rw [hl.consistent.size_eq, (Tree.wellFormed_iff.mp hm).1.size_eq, hr.consistent.size_eq,
        eq_ofNat_of_toNat sized, UInt64.ofNat_add, UInt64.ofNat_add]
    have many : 2 ≤ size := by
      have := left.length_pos
      have := right.length_pos
      rw [UInt64.le_iff_toNat_le, sized]
      change 2 ≤ _
      omega
    rw [Tree.audit, hl.consistent.auditAt, hr.consistent.auditAt, ih hm]
    simp [Flaw.unless, counted, many]

theorem Tree.WellFormed.toNat_size {tree : Tree α} (h : tree.WellFormed depth) :
    tree.size.toNat = tree.toList.length :=
  (Tree.wellFormed_iff.mp h).1.toNat_size (Tree.wellFormed_iff.mp h).2

theorem Tree.toList_eq_nil_iff {tree : Tree α} : tree.toList = [] ↔ tree = empty := by
  cases tree with
  | empty => simp [toList]
  | single node => simp [toList, node.toList_ne_nil]
  | deep size left middle right =>
    have := List.length_pos_iff.mp left.length_pos
    simp [toList, this]

theorem Tree.WellFormed.isEmpty_iff {tree : Tree α} (h : tree.WellFormed depth) :
    tree.isEmpty = true ↔ tree.size = 0 := by
  rw [← UInt64.toNat_inj, h.toNat_size, UInt64.toNat_zero, List.length_eq_zero_iff, toList_eq_nil_iff]
  cases tree <;> simp [isEmpty]

theorem Tree.WellFormed.single_iff {tree : Tree α} (h : tree.WellFormed 0) :
    (∃ node, tree = single node) ↔ tree.size = 1 := by
  rw [← UInt64.toNat_inj, h.toNat_size, UInt64.toNat_one]
  cases tree with
  | empty => simp [toList]
  | single node =>
    cases node with
    | leaf element => simp [toList, Node.toList]
    | two | three => exact absurd h (by simp [Tree.WellFormed, Node.WellFormed])
  | deep size left middle right =>
    have := left.length_pos
    have := right.length_pos
    simp only [toList, List.length_append, reduceCtorEq, exists_false, false_iff]
    omega

end IndexedSequence
