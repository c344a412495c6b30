import IndexedSequence.Proofs.Auditing
import IndexedSequence.Proofs.Ends
import IndexedSequence.Proofs.Queue

set_option autoImplicit false

namespace IndexedSequence

variable {α : Type}

theorem Node.Consistent.eq_leaf {node : Node α} (h : node.Consistent 0) :
    ∃ element, node = .leaf element := by
  cases node with
  | leaf element => exact ⟨element, rfl⟩
  | two | three => exact h.elim

section

variable [Arithmetic] [Arithmetic.Exact]

omit [Arithmetic.Exact] in
theorem Tree.popFront_nil {tree : Tree α} (empty : tree.toList = []) :
    tree.popFront = .ok none := by
  rw [Tree.toList_eq_nil_iff.mp empty]
  rfl

theorem Tree.Consistent.popFront_cons {tree : Tree α} (h : tree.Consistent 0)
    (bound : tree.toList.length < UInt64.size) {element : α} {elements : List α}
    (begins : tree.toList = element :: elements) :
    ∃ rest, tree.popFront = .ok (some (.leaf element, rest)) ∧ rest.Consistent 0 ∧
      rest.toList = elements := by
  have nonempty : tree ≠ empty := by
    rintro rfl
    cases begins
  obtain ⟨node, rest, popped, hn, hr, same⟩ := h.popsFront bound nonempty
  obtain ⟨first, rfl⟩ := hn.eq_leaf
  rw [h.toList_eq, same, Node.elements_cons, ← hr.toList_eq] at begins
  obtain ⟨rfl, rfl⟩ := List.cons.inj begins
  exact ⟨rest, popped, hr, rfl⟩

omit [Arithmetic.Exact] in
theorem Tree.popBack_nil {tree : Tree α} (empty : tree.toList = []) :
    tree.popBack = .ok none := by
  rw [Tree.toList_eq_nil_iff.mp empty]
  rfl

theorem Tree.Consistent.popBack_concat {tree : Tree α} (h : tree.Consistent 0)
    (bound : tree.toList.length < UInt64.size) {element : α} {elements : List α}
    (ends : tree.toList = elements ++ [element]) :
    ∃ rest, tree.popBack = .ok (some (.leaf element, rest)) ∧ rest.Consistent 0 ∧
      rest.toList = elements := by
  have nonempty : tree ≠ empty := by
    rintro rfl
    exact absurd ends (by simp [toList])
  obtain ⟨node, rest, popped, hn, hr, same⟩ := h.popsBack bound nonempty
  obtain ⟨last, rfl⟩ := hn.eq_leaf
  rw [h.toList_eq, same, Node.elements_append, ← hr.toList_eq] at ends
  obtain ⟨rfl, lasts⟩ := List.append_inj' ends rfl
  obtain rfl := List.singleton_inj.mp lasts
  exact ⟨rest, popped, hr, rfl⟩

theorem Tree.Consistent.leaf_of_popFront {tree rest : Tree α} {node : Node α} (h : tree.Consistent 0)
    (bound : tree.toList.length < UInt64.size) (popped : tree.popFront = .ok (some (node, rest))) :
    ∃ element, node = .leaf element := by
  cases begins : tree.toList with
  | nil =>
    rw [popFront_nil begins] at popped
    cases popped
  | cons element elements =>
    obtain ⟨left, made, -, -⟩ := h.popFront_cons bound begins
    rw [made] at popped
    cases popped
    exact ⟨element, rfl⟩

theorem Tree.Consistent.leaf_of_popBack {tree rest : Tree α} {node : Node α} (h : tree.Consistent 0)
    (bound : tree.toList.length < UInt64.size) (popped : tree.popBack = .ok (some (node, rest))) :
    ∃ element, node = .leaf element := by
  rcases tree.toList.eq_nil_or_concat with nothing | ⟨elements, element, ends⟩
  · rw [popBack_nil nothing] at popped
    cases popped
  · rw [List.concat_eq_append] at ends
    obtain ⟨left, made, -, -⟩ := h.popBack_concat bound ends
    rw [made] at popped
    cases popped
    exact ⟨element, rfl⟩

end

namespace Drain

/-- The drain has just `queue` still to come, in a well-formed tree of leaves. -/
structure Shows (drain : Drain α) (queue : List α) : Prop where
  wellFormed : drain.tree.WellFormed 0
  holds : drain.tree.toList = queue

variable [Arithmetic] [Arithmetic.Exact]

omit [Arithmetic.Exact] in
theorem Shows.take_nil {drain : Drain α} (h : drain.Shows []) (side : Side) :
    Cursor.take side drain = .ok none := by
  cases side with
  | near =>
    change taken <$> drain.tree.popFront = _
    rw [Tree.popFront_nil h.holds]
    rfl
  | far =>
    change taken <$> drain.tree.popBack = _
    rw [Tree.popBack_nil h.holds]
    rfl

theorem Shows.take_cons {drain : Drain α} {queue rest : List α} (h : drain.Shows queue) {side : Side}
    {element : α} (met : side.arrange queue = element :: rest) :
    ∃ moved, Cursor.take side drain = .ok (some (element, moved)) ∧ moved.Shows (side.arrange rest) := by
  obtain ⟨consistent, bound⟩ := Tree.wellFormed_iff.mp h.wellFormed
  obtain rfl := h.holds
  have shorter : rest.length < UInt64.size := by
    have := congrArg List.length met
    rw [side.length_arrange, List.length_cons] at this
    omega
  cases side with
  | near =>
    obtain ⟨left, popped, hl, holds⟩ := consistent.popFront_cons bound met
    refine ⟨⟨left⟩, ?_, Tree.wellFormed_iff.mpr ⟨hl, holds ▸ shorter⟩, holds⟩
    change taken <$> drain.tree.popFront = _
    rw [popped]
    rfl
  | far =>
    have ends : drain.tree.toList = rest.reverse ++ [element] := by
      rw [← List.reverse_cons]
      exact List.reverse_eq_iff.mp met
    obtain ⟨left, popped, hl, holds⟩ := consistent.popBack_concat bound ends
    refine ⟨⟨left⟩, ?_, Tree.wellFormed_iff.mpr ⟨hl, ?_⟩, holds⟩
    · change taken <$> drain.tree.popBack = _
      rw [popped]
      rfl
    · rw [holds, List.length_reverse]
      exact shorter

theorem queues : Cursor.Queues (Drain α) Shows where
  bounded h := h.holds ▸ (Tree.wellFormed_iff.mp h.wellFormed).2
  remaining_eq h := h.holds ▸ (Tree.wellFormed_iff.mp h.wellFormed).1.size_eq
  take_none side h := h.take_nil side
  take_some h met := h.take_cons met

end Drain

end IndexedSequence
