import IndexedSequence.Proofs.Levels
import IndexedSequence.Proofs.Positions

set_option autoImplicit false

namespace IndexedSequence

variable {α : Type} {depth : Nat}

section

variable [Arithmetic] [Arithmetic.Exact]

namespace Tree.WellFormed

variable {tree : Tree α}

theorem get?_eq (h : tree.WellFormed depth) (index : UInt64) :
    tree.get? index = .ok tree.toList[index.toNat]? := by
  have found := h.consistent.get? h.bounded index.toNat_lt_size
  rwa [UInt64.ofNat_toNat] at found

theorem get?_of_lt (h : tree.WellFormed depth) {index : UInt64} (within : index < tree.size) :
    ∃ inside : index.toNat < tree.toList.length,
      tree.get? index = .ok (some tree.toList[index.toNat]) :=
  ⟨h.lt_size_iff.mp within, by rw [h.get?_eq, List.getElem?_eq_getElem]⟩

theorem get?_of_le (h : tree.WellFormed depth) {index : UInt64} (past : tree.size ≤ index) :
    tree.get? index = .ok none := by
  have outside : ¬index.toNat < tree.toList.length := mt h.lt_size_iff.mpr (UInt64.not_lt.mpr past)
  rw [h.get?_eq, List.getElem?_eq_none (Nat.not_lt.mp outside)]

omit [Arithmetic] [Arithmetic.Exact] in
theorem size_pos (h : tree.WellFormed depth) (ne : tree ≠ empty) : 0 < tree.size :=
  h.lt_size_iff.mpr (List.length_pos_iff.mpr (mt toList_eq_nil_iff.mp ne))

theorem front?_eq_get? (h : tree.WellFormed depth) : tree.front? = tree.get? 0 := by
  rw [h.consistent.front? h.bounded, h.get?_eq, List.head?_eq_getElem?]
  rfl

theorem back?_eq_get? (h : tree.WellFormed depth) (ne : tree ≠ empty) :
    tree.back? = tree.get? (tree.size - 1) := by
  have one_le : (1 : UInt64) ≤ tree.size := UInt64.le_iff_toNat_le.mpr (h.size_pos ne)
  have last : (tree.size - 1).toNat = tree.toList.length - 1 := by
    rw [UInt64.toNat_sub_of_le _ _ one_le, h.toNat_size]
    rfl
  rw [h.consistent.back? h.bounded, h.get?_eq, last, List.getLast?_eq_getElem?]

/-- The node that a cut takes out has the element asked for, as far in as the offset says. -/
theorem lookup_of_split? (h : tree.WellFormed depth) {index : UInt64} {cut : Cut (Tree α) α}
    (found : tree.split? index = .ok (some cut)) :
    ∃ element, cut.node.lookup cut.offset = .ok element ∧ tree.get? index = .ok (some element) := by
  have within : index < tree.size := by
    refine UInt64.not_le.mp fun past => ?_
    rw [h.split?_eq_none past] at found
    cases found
  obtain ⟨cut', found', splits⟩ := h.consistent.split? h.bounded (h.lt_size_iff.mp within)
  rw [UInt64.ofNat_toNat, found] at found'
  obtain rfl : cut = cut' := Option.some.inj (Except.ok.inj found')
  have lengths := splits.length_eq h.consistent
  have bound := h.bounded
  obtain ⟨offset, reaches, small, at_eq⟩ := splits.reaches
  -- The index is past all that is before the cut, and short of the end of the node taken out.
  have position : tree.toList[index.toNat]? = cut.node.toList[offset]? := by
    calc
      tree.toList[index.toNat]? = (Node.elements cut.before.nodes ++
          Node.elements (cut.node :: cut.after.nodes))[(Node.elements cut.before.nodes).length + offset]? := by
        rw [h.consistent.toList_eq, splits.nodes_eq, Node.elements_append, at_eq]
      _ = (Node.elements (cut.node :: cut.after.nodes))[offset]? := by
        rw [List.getElem?_append_right (by omega), Nat.add_sub_cancel_left]
      _ = cut.node.toList[offset]? := by rw [Node.elements_cons, List.getElem?_append_left small]
  have there : cut.node.toList[offset]? = some cut.node.toList[offset] := List.getElem?_eq_getElem small
  refine ⟨cut.node.toList[offset], ?_, ?_⟩
  · rw [reaches]
    exact splits.node.lookup (by omega) there
  · rw [h.get?_eq, position, there]

end Tree.WellFormed

namespace Sequence

variable {s : Sequence α}

/-- Both range checks of a split let the position pass, and the element found by the first is the leaf that the
second takes out. -/
theorem split_of_lt (h : s.tree.WellFormed 0) {index : UInt64} (within : index < s.size) :
    ∃ before element offset after, s.elementAt index = .ok element ∧
      s.tree.split? index = .ok (some ⟨before, .leaf element, offset, after⟩) ∧
      s.split index = .ok (⟨before⟩, element, ⟨after⟩) ∧
      s.toList = before.toList ++ element :: after.toList ∧ before.toList.length = index.toNat := by
  have held : s.Holds s.toList := ⟨h.consistent, rfl⟩
  obtain ⟨inside, got⟩ : ∃ inside : index.toNat < s.toList.length,
      s.tree.get? index = .ok (some s.toList[index.toNat]) := h.get?_of_lt within
  obtain ⟨before, offset, after, found, hb, ha⟩ := held.cut h.bounded inside
  have given : s.elementAt index = .ok s.toList[index.toNat] := by
    rw [elementAt, Sequence.get?, got]
    rfl
  have front : before.toList = s.toList.take index.toNat := hb.toList_eq
  have back : after.toList = s.toList.drop (index.toNat + 1) := ha.toList_eq
  refine ⟨before, s.toList[index.toNat], offset, after, given, found, ?_, ?_, ?_⟩
  · rw [split, given, found]
    rfl
  · rw [front, back, List.getElem_cons_drop, List.take_append_drop]
  · rw [front, List.length_take, Nat.min_eq_left (Nat.le_of_lt inside)]

theorem split_of_le (h : s.tree.WellFormed 0) {index : UInt64} (past : s.size ≤ index) :
    s.elementAt index = .error (.outOfRange (s.outOfRange index)) ∧
      s.tree.split? index = .ok none ∧
      s.split index = .error (.outOfRange (s.outOfRange index)) := by
  have refused : s.elementAt index = .error (.outOfRange (s.outOfRange index)) := by
    rw [elementAt, Sequence.get?, h.get?_of_le past]
    rfl
  refine ⟨refused, h.split?_eq_none past, ?_⟩
  rw [split, refused]
  rfl

end Sequence

/-- An index finds the element that the list has there, whether it is looked up or cut out, and the two checks of a
sequence's split agree. -/
theorem Tree.access_agrees {tree : Tree α} (h : tree.WellFormed depth) (index : UInt64) :
    (index < tree.size → ∃ inside : index.toNat < tree.toList.length,
      tree.get? index = .ok (some tree.toList[index.toNat])) ∧
    (tree.size ≤ index → tree.get? index = .ok none) ∧
    (∀ cut, tree.split? index = .ok (some cut) →
      ∃ element, cut.node.lookup cut.offset = .ok element ∧ tree.get? index = .ok (some element)) ∧
    (tree ≠ empty →
      0 < tree.size ∧ tree.front? = tree.get? 0 ∧ tree.back? = tree.get? (tree.size - 1)) ∧
    (tree = empty → tree.front? = .ok none ∧ tree.back? = .ok none) ∧
    ∀ s : Sequence α, s.tree.WellFormed 0 →
      (index < s.size →
        ∃ before element offset after, s.elementAt index = .ok element ∧
          s.tree.split? index = .ok (some ⟨before, .leaf element, offset, after⟩) ∧
          s.split index = .ok (⟨before⟩, element, ⟨after⟩) ∧
          s.toList = before.toList ++ element :: after.toList ∧ before.toList.length = index.toNat) ∧
      (s.size ≤ index →
        s.elementAt index = .error (.outOfRange (s.outOfRange index)) ∧
          s.tree.split? index = .ok none ∧
          s.split index = .error (.outOfRange (s.outOfRange index))) := by
  refine ⟨h.get?_of_lt, h.get?_of_le, fun cut => h.lookup_of_split?, fun ne => ?_, ?_, fun s hs => ?_⟩
  · exact ⟨h.size_pos ne, h.front?_eq_get?, h.back?_eq_get? ne⟩
  · rintro rfl
    exact ⟨rfl, rfl⟩
  · exact ⟨s.split_of_lt hs, s.split_of_le hs⟩

end

theorem Tree.fullLevel_access :
    let s : Sequence Nat := ⟨.level (.one (.leaf 7)) (.single (.pair (.leaf 8) (.leaf 9))) (.one (.leaf 7))⟩
    fullLevel.WellFormed 1 ∧ (13 : UInt64) < fullLevel.size ∧ fullLevel.get? 13 = .ok (some 13) ∧
      (∃ cut, fullLevel.split? 13 = .ok (some cut) ∧ cut.offset = 1 ∧
        cut.node.lookup cut.offset = .ok 13) ∧
      fullLevel.front? = fullLevel.get? 0 ∧ fullLevel.back? = fullLevel.get? (fullLevel.size - 1) ∧
      s.tree.WellFormed 0 ∧ s.elementAt 13 = .error (.outOfRange ⟨13, 4⟩) ∧
      s.split 13 = .error (.outOfRange ⟨13, 4⟩) := by
  intro s
  have h : fullLevel.WellFormed 1 := by decide
  have hs : s.tree.WellFormed 0 := by decide
  have within : (13 : UInt64) < fullLevel.size := by decide
  obtain ⟨answered, -, met, ends, -, positions⟩ := access_agrees h 13
  obtain ⟨inside, got⟩ := answered within
  obtain ⟨-, first, last⟩ := ends (by decide)
  obtain ⟨refused, -, refused'⟩ := (positions s hs).2 (by decide)
  obtain ⟨cut, found, -⟩ := h.split?_eq_some within
  have offset : cut.offset = 1 := by
    have evaluated : (fullLevel.split? 13).map (Option.map Cut.offset) = .ok (some 1) := by rfl
    rw [found] at evaluated
    exact Option.some.inj (Except.ok.inj evaluated)
  obtain ⟨element, looked, same⟩ := met cut found
  have agreed : element = 13 := by
    rw [got] at same
    exact (Option.some.inj (Except.ok.inj same)).symm
  exact ⟨h, within, got, ⟨cut, found, offset, by rw [looked, agreed]⟩, first, last, hs, refused, refused'⟩

end IndexedSequence
