import IndexedSequence.Checked.Sequence
import IndexedSequence.Proofs.ExactTrees
import IndexedSequence.Proofs.Positions
import Mathlib.Algebra.Group.Nat.Defs

set_option autoImplicit false

namespace IndexedSequence

variable {α : Type}

theorem Tree.frontChecked?_eq (tree : Tree α) : tree.frontChecked? = tree.front? := by
  cases tree with
  | empty => rfl
  | single node => exact congrArg (some <$> ·) (node.lookupChecked_eq 0)
  | deep size left middle right => exact congrArg (some <$> ·) (left.head.lookupChecked_eq 0)

theorem Node.Consistent.one_le_size {node : Node α} {depth : Nat} (h : node.Consistent depth)
    (bound : node.toList.length < UInt64.size) : 1 ≤ node.size := by
  rw [UInt64.le_iff_toNat_le, toNat_ofNat_of_eq h.size_eq bound]
  exact node.length_pos

theorem Node.Consistent.lookup_lastChecked {node : Node α} {depth : Nat} (h : node.Consistent depth)
    (bound : node.toList.length < UInt64.size) :
    (do return some (← node.lookupChecked (← minusChecked node.size 1)) : Except Fault (Option α)) =
      (do return some (← node.lookup (← minus node.size 1))) := by
  have le := h.one_le_size bound
  rw [minusChecked_of_le le, minus_of_le le, ok_bind, ok_bind, node.lookupChecked_eq]

theorem Tree.Consistent.backChecked? {tree : Tree α} {depth : Nat} (h : tree.Consistent depth)
    (bound : tree.toList.length < UInt64.size) : tree.backChecked? = tree.back? := by
  cases tree with
  | empty => rfl
  | single node => exact Node.Consistent.lookup_lastChecked h bound
  | deep size left middle right =>
    obtain ⟨-, -, hr, -⟩ := h
    have mem : right.last ∈ right.nodes := by cases right <;> simp [Digit.last, Digit.nodes]
    have short := Node.length_le_of_mem mem
    simp only [toList, List.length_append, Digit.toList_eq right] at bound
    exact (hr right.last mem).lookup_lastChecked (by omega)

namespace Sequence

theorem ofListChecked_eq {elements : List α} (bound : elements.length < UInt64.size) :
    ofListChecked elements = .ok (ofList elements) := by
  have short : (Node.elements (elements.map Node.leaf)).length < UInt64.size := by
    rwa [elements_map_leaf]
  rw [ofListChecked, Tree.Consistent.buildChecked (forall_leaf_consistent elements) short]
  rfl

theorem length_doubledList (xs : List α) (times : Nat) :
    (doubledList xs times).length = 2 ^ times * xs.length := by
  induction times generalizing xs with
  | zero => exact (Nat.one_mul _).symm
  | succ times ih => rw [doubledList, ih, List.length_append, Nat.pow_succ, Nat.mul_assoc, Nat.two_mul]

namespace Holds

variable {s t : Sequence α} {xs ys : List α}

theorem length_tree (h : s.Holds xs) : s.tree.toList.length = xs.length :=
  congrArg List.length h.toList_eq

theorem pushFrontChecked (h : s.Holds xs) (element : α) (bound : xs.length + 1 < UInt64.size) :
    s.pushFrontChecked element = .ok (s.pushFront element) := by
  have total : (Node.leaf element).toList.length + s.tree.toList.length < UInt64.size := by
    rw [h.length_tree, Nat.add_comm]
    exact bound
  rw [Sequence.pushFrontChecked, h.consistent.pushFrontChecked (Node.consistent_leaf element) total]
  rfl

/-- The bound is sharp: where no element more can be counted, a push does not go through. -/
theorem pushFrontChecked_full (h : s.Holds xs) (element : α) (full : xs.length + 1 = UInt64.size) :
    s.pushFrontChecked element = .error .overflowingSum := by
  have sized := h.consistent.size_eq
  rw [h.length_tree] at sized
  have short := h.length_tree
  obtain ⟨tree⟩ := s
  cases tree with
  | empty =>
    have zero : 0 = xs.length := short
    rw [← zero] at full
    exact absurd full (by decide)
  | single node =>
    obtain ⟨x, rfl⟩ := Node.Consistent.eq_leaf h.consistent
    have one : 1 = xs.length := short
    rw [← one] at full
    exact absurd full (by decide)
  | deep size left middle right =>
    have past : plus size (Node.leaf element).size = .error .overflowingSum := by
      have counted : size.toNat = xs.length := toNat_ofNat_of_eq sized (by omega)
      refine if_neg ?_
      rw [counted]
      exact Nat.not_lt.mpr (Nat.le_of_eq full.symm)
    cases left <;> rw [Sequence.pushFrontChecked, Tree.pushFrontChecked, past] <;> rfl

theorem pushBackChecked (h : s.Holds xs) (element : α) (bound : xs.length + 1 < UInt64.size) :
    s.pushBackChecked element = .ok (s.pushBack element) := by
  have total : s.tree.toList.length + (Node.leaf element).toList.length < UInt64.size := by
    rw [h.length_tree]
    exact bound
  rw [Sequence.pushBackChecked, h.consistent.pushBackChecked (Node.consistent_leaf element) total]
  rfl

theorem pushAllFrontChecked (h : s.Holds xs) {elements : List α}
    (bound : xs.length + elements.length < UInt64.size) :
    s.pushAllFrontChecked elements = .ok (s.pushAllFront elements) := by
  induction elements generalizing s xs with
  | nil => rfl
  | cons element rest ih =>
    rw [List.length_cons] at bound
    rw [Sequence.pushAllFrontChecked, h.pushFrontChecked element (by omega), ok_bind]
    refine ih (h.pushFront element) ?_
    rw [List.length_cons]
    omega

theorem pushAllBackChecked (h : s.Holds xs) {elements : List α}
    (bound : xs.length + elements.length < UInt64.size) :
    s.pushAllBackChecked elements = .ok (s.pushAllBack elements) := by
  induction elements generalizing s xs with
  | nil => rfl
  | cons element rest ih =>
    rw [List.length_cons] at bound
    rw [Sequence.pushAllBackChecked, h.pushBackChecked element (by omega), ok_bind]
    refine ih (h.pushBack element) ?_
    rw [List.length_append, List.length_singleton]
    omega

theorem popFrontChecked (h : s.Holds xs) (bound : xs.length < UInt64.size) :
    s.popFrontChecked = s.popFront := by
  rw [Sequence.popFrontChecked, s.tree.frontChecked?_eq,
    h.consistent.popFrontChecked (h.length_tree ▸ bound)]
  rfl

theorem popBackChecked (h : s.Holds xs) (bound : xs.length < UInt64.size) :
    s.popBackChecked = s.popBack := by
  rw [Sequence.popBackChecked, h.consistent.backChecked? (h.length_tree ▸ bound),
    h.consistent.popBackChecked (h.length_tree ▸ bound)]
  rfl

theorem concatChecked (hs : s.Holds xs) (ht : t.Holds ys) (bound : xs.length + ys.length < UInt64.size) :
    s.concatChecked t = s.concat t := by
  have total : s.tree.toList.length + t.tree.toList.length < UInt64.size := by
    rwa [hs.length_tree, ht.length_tree]
  rw [Sequence.concatChecked, Sequence.concat, hs.consistent.concatChecked ht.consistent total]

theorem extendChecked (h : s.Holds xs) {elements : List α}
    (bound : xs.length + elements.length < UInt64.size) :
    s.extendChecked elements = s.extend elements := by
  rw [Sequence.extendChecked, ofListChecked_eq (by omega), ok_bind, Sequence.extend]
  exact h.concatChecked (holds_ofList elements) bound

theorem doubledChecked (h : s.Holds xs) {times : Nat}
    (bound : (doubledList xs times).length < UInt64.size) :
    s.doubledChecked times = s.doubled times := by
  induction times generalizing s xs with
  | zero => rfl
  | succ times ih =>
    have once : xs.length + xs.length ≤ (doubledList (xs ++ xs) times).length := by
      rw [length_doubledList, List.length_append]
      exact Nat.le_mul_of_pos_left _ (Nat.two_pow_pos times)
    rw [doubledList] at bound
    obtain ⟨twice, joined, ht⟩ := (h.concat h).exists_of_ok
    rw [Sequence.doubledChecked, Sequence.doubled, h.concatChecked h (by omega), joined, ok_bind, ok_bind]
    exact ih ht bound

theorem reversedChecked (h : s.Holds xs) (bound : xs.length < UInt64.size) :
    s.reversedChecked = .ok s.reversed := by
  rw [Sequence.reversedChecked, h.consistent.reversedChecked (h.length_tree ▸ bound)]
  rfl

theorem auditChecked (h : s.Holds xs) (bound : xs.length < UInt64.size) : s.auditChecked = .ok () :=
  (h.wellFormed bound).auditChecked

theorem positionAfterChecked (h : s.Holds xs) (index : UInt64) :
    s.positionAfterChecked index = s.positionAfter index := by
  rw [h.positionAfter_eq, Sequence.positionAfterChecked, Listed.positionAfter]
  by_cases inside : index.toNat + 1 < UInt64.size
  · have sum : plus index 1 = .ok (index + 1) := if_pos inside
    rw [if_pos inside, if_pos inside, sum]
    rfl
  · rw [if_neg inside, if_neg inside, h.outOfRange_eq]
    rfl

theorem startOfChecked (h : s.Holds xs) (limit : Bound) : s.startOfChecked limit = s.startOf limit := by
  cases limit with
  | unbounded | included index => rfl
  | excluded index => exact h.positionAfterChecked index

theorem stopOfChecked (h : s.Holds xs) (limit : Bound) : s.stopOfChecked limit = s.stopOf limit := by
  cases limit with
  | unbounded | excluded index => rfl
  | included index => exact h.positionAfterChecked index

theorem elementAtChecked (h : s.Holds xs) (bound : xs.length < UInt64.size) (index : UInt64) :
    s.elementAtChecked index = s.elementAt index := by
  rw [Sequence.elementAtChecked, h.consistent.getChecked? (h.length_tree ▸ bound)]
  rfl

theorem splitChecked (h : s.Holds xs) (bound : xs.length < UInt64.size) (index : UInt64) :
    s.splitChecked index = s.split index := by
  rw [Sequence.splitChecked, h.elementAtChecked bound,
    h.consistent.splitChecked? (h.length_tree ▸ bound)]
  rfl

theorem splitAtChecked (h : s.Holds xs) (bound : xs.length < UInt64.size) (index : UInt64) :
    s.splitAtChecked index = s.splitAt index := by
  rw [Sequence.splitAtChecked, Sequence.splitAt, h.consistent.splitChecked? (h.length_tree ▸ bound)]
  by_cases stop : index = s.size
  · rw [if_pos stop, if_pos stop]
  · rw [if_neg stop, if_neg stop]
    by_cases inside : index.toNat < xs.length
    · obtain ⟨before, offset, after, found, -, ha⟩ := h.cut bound inside
      have total : (xs.drop (index.toNat + 1)).length + 1 < UInt64.size := by
        rw [List.length_drop]
        omega
      have pushed : after.pushFrontChecked (.leaf xs[index.toNat]) =
          .ok (after.pushFront (.leaf xs[index.toNat])) := by
        refine ha.consistent.pushFrontChecked (Node.consistent_leaf _) ?_
        rw [Nat.add_comm, ha.length_tree]
        exact total
      rw [found, lift_fault_ok, ok_bind, ok_bind]
      simp only [pushed, lift_fault_ok, ok_bind]
    · rw [h.cut_none bound inside]
      rfl

theorem sides_of_split (h : s.Holds xs) (bound : xs.length < UInt64.size) (index : UInt64) :
    Ensures (fun parts => parts.1.Holds parts.1.toList ∧ parts.2.2.Holds parts.2.2.toList ∧
      parts.1.toList.length + parts.2.2.toList.length < xs.length) (s.split index) := by
  have outcome := h.split bound index
  by_cases inside : index.toNat < xs.length
  · rw [Listed.split_of_lt inside] at outcome
    refine (Ensures.of_refines outcome).mono ?_
    rintro ⟨before, element, after⟩ ⟨hb, -, ha⟩
    refine ⟨⟨hb.consistent, rfl⟩, ⟨ha.consistent, rfl⟩, ?_⟩
    rw [hb.toList_eq, ha.toList_eq, List.length_take, List.length_drop]
    omega
  · rw [Listed.split_of_not_lt inside] at outcome
    rw [outcome.eq_of_error]
    exact .of_error _

theorem sides_of_splitAt (h : s.Holds xs) (bound : xs.length < UInt64.size) (index : UInt64) :
    Ensures (fun halves => halves.1.Holds halves.1.toList ∧ halves.2.Holds halves.2.toList ∧
      halves.1.toList.length + halves.2.toList.length = xs.length) (s.splitAt index) := by
  have outcome := h.splitAt bound index
  rw [Listed.splitAt] at outcome
  by_cases inside : index.toNat ≤ xs.length
  · rw [if_pos inside] at outcome
    refine (Ensures.of_refines outcome).mono ?_
    rintro ⟨before, after⟩ ⟨hb, ha⟩
    refine ⟨⟨hb.consistent, rfl⟩, ⟨ha.consistent, rfl⟩, ?_⟩
    rw [hb.toList_eq, ha.toList_eq, List.length_take, List.length_drop]
    omega
  · rw [if_neg inside] at outcome
    rw [outcome.eq_of_error]
    exact .of_error _

theorem concat_aroundChecked (hs : s.Holds xs) (ht : t.Holds ys) (element : α)
    (fits : Ensures (fun u => u.toList.length < UInt64.size)
      (do (← (s.concat (singleton element) : Except Fault _)).concat t :
        Except Failure (Sequence α))) :
    (do (← (s.concatChecked (singleton element) : Except Fault _)).concatChecked t :
        Except Failure (Sequence α)) =
      (do (← (s.concat (singleton element) : Except Fault _)).concat t) := by
  obtain ⟨grown, joined, hgrown⟩ := (hs.concat (holds_singleton element)).exists_of_ok
  obtain ⟨whole, joined', hwhole⟩ := (hgrown.concat ht).exists_of_ok
  rw [joined, lift_fault_ok, ok_bind, joined', lift_fault_ok] at fits
  have total : whole.toList.length < UInt64.size := fits whole rfl
  rw [hwhole.toList_eq, List.length_append, List.length_append, List.length_singleton] at total
  have first : xs.length + [element].length < UInt64.size := by
    rw [List.length_singleton]
    omega
  have second : (xs ++ [element]).length + ys.length < UInt64.size := by
    rwa [List.length_append, List.length_singleton]
  rw [hs.concatChecked (holds_singleton element) first, joined, lift_fault_ok, ok_bind, ok_bind,
    hgrown.concatChecked ht second]

theorem insertAtChecked (h : s.Holds xs) (bound : xs.length < UInt64.size) {index : UInt64}
    {element : α} (fits : Ensures (fun u => u.toList.length < UInt64.size) (s.insertAt index element)) :
    s.insertAtChecked index element = s.insertAt index element := by
  rw [Sequence.insertAtChecked, Sequence.insertAt, h.splitAtChecked bound]
  refine bind_congr_ok fun halves made => ?_
  obtain ⟨hb, ha, -⟩ := h.sides_of_splitAt bound index halves made
  exact hb.concat_aroundChecked ha element (fits.next made)

theorem removeAtChecked (h : s.Holds xs) (bound : xs.length < UInt64.size) (index : UInt64) :
    s.removeAtChecked index = s.removeAt index := by
  rw [Sequence.removeAtChecked, Sequence.removeAt, h.splitChecked bound]
  refine bind_congr_ok fun parts made => ?_
  obtain ⟨hb, ha, shorter⟩ := h.sides_of_split bound index parts made
  exact congrArg liftM (hb.concatChecked ha (Nat.lt_trans shorter bound))

theorem updateChecked (h : s.Holds xs) (bound : xs.length < UInt64.size) {index : UInt64}
    {element : α} (fits : Ensures (fun u => u.toList.length < UInt64.size) (s.update index element)) :
    s.updateChecked index element = s.update index element := by
  rw [Sequence.updateChecked, Sequence.update, h.splitChecked bound]
  refine bind_congr_ok fun parts made => ?_
  obtain ⟨hb, ha, -⟩ := h.sides_of_split bound index parts made
  exact hb.concat_aroundChecked ha element (fits.next made)

theorem sliceChecked (h : s.Holds xs) (bound : xs.length < UInt64.size) (start stop : Bound) :
    s.sliceChecked start stop = s.slice start stop := by
  rw [Sequence.sliceChecked, Sequence.slice, h.startOfChecked, h.stopOfChecked]
  refine bind_congr_ok fun first _ => bind_congr_ok fun last _ => ?_
  by_cases beyond : s.size < last
  · rw [if_pos beyond, if_pos beyond]
  rw [if_neg beyond, if_neg beyond]
  by_cases crossed : last < first
  · rw [if_pos crossed, if_pos crossed]
  rw [if_neg crossed, if_neg crossed, h.splitAtChecked bound]
  refine bind_congr_ok fun halves made => ?_
  obtain ⟨-, hsuffix, whole⟩ := h.sides_of_splitAt bound first halves made
  have le := UInt64.not_lt.mp crossed
  have shorter : halves.2.toList.length < UInt64.size := by omega
  simp only [minusChecked_of_le le, minus_of_le le, lift_fault_ok, ok_bind,
    hsuffix.splitAtChecked shorter]

end Holds

end Sequence

namespace Builder.Holds

variable {b : Builder α} {xs ys : List α}

theorem length_parts (h : b.Holds xs) :
    b.front.length + (b.sequence.toList.length + b.back.length) = xs.length := by
  rw [← h.toList_eq, toList, List.length_append, List.length_append, List.length_reverse]

theorem sizeChecked (h : b.Holds xs) (bound : xs.length < UInt64.size) : b.sizeChecked = .ok b.size := by
  have parts := h.length_parts
  have sequence_size := h.holds_sequence.size_eq
  have sum : plus (.ofNat b.front.length) b.sequence.size =
      .ok (.ofNat b.front.length + b.sequence.size) := plus_eq rfl sequence_size (by omega)
  rw [Builder.sizeChecked, sum, ok_bind]
  exact plus_eq (add_eq_ofNat rfl sequence_size) rfl (by omega)

theorem isEmptyChecked (h : b.Holds xs) (bound : xs.length < UInt64.size) :
    b.isEmptyChecked = .ok b.isEmpty := by
  rw [Builder.isEmptyChecked, h.sizeChecked bound]
  rfl

theorem flushFrontChecked (h : b.Holds xs) (bound : xs.length < UInt64.size) :
    b.flushFrontChecked = b.flushFront := by
  have parts := h.length_parts
  rw [Builder.flushFrontChecked, Builder.flushFront]
  by_cases nothing : b.front.isEmpty = true
  · rw [if_pos nothing, if_pos nothing]
  · rw [if_neg nothing, if_neg nothing, Sequence.ofListChecked_eq (by omega), ok_bind,
      (Sequence.holds_ofList b.front).concatChecked h.holds_sequence (by omega)]

theorem flushBackChecked (h : b.Holds xs) (bound : xs.length < UInt64.size) :
    b.flushBackChecked = b.flushBack := by
  have parts := h.length_parts
  have reversed := b.back.length_reverse
  rw [Builder.flushBackChecked, Builder.flushBack]
  by_cases nothing : b.back.isEmpty = true
  · rw [if_pos nothing, if_pos nothing]
  · rw [if_neg nothing, if_neg nothing, Sequence.ofListChecked_eq (by omega), ok_bind,
      h.holds_sequence.concatChecked (Sequence.holds_ofList b.back.reverse) (by omega)]

theorem appendChecked {s : Sequence α} (h : b.Holds xs) (hs : s.Holds ys)
    (bound : xs.length + ys.length < UInt64.size) : b.appendChecked s = b.append s := by
  obtain ⟨flushed, flush, hf, -⟩ := h.flushBack
  have parts := hf.length_parts
  rw [Builder.appendChecked, Builder.append, h.flushBackChecked (by omega), flush, ok_bind, ok_bind,
    hf.holds_sequence.concatChecked hs (by omega)]

theorem prependChecked {s : Sequence α} (h : b.Holds xs) (hs : s.Holds ys)
    (bound : xs.length + ys.length < UInt64.size) : b.prependChecked s = b.prepend s := by
  obtain ⟨flushed, flush, hf, -⟩ := h.flushFront
  have parts := hf.length_parts
  rw [Builder.prependChecked, Builder.prepend, h.flushFrontChecked (by omega), flush, ok_bind, ok_bind,
    hs.concatChecked hf.holds_sequence (by omega)]

theorem buildChecked (h : b.Holds xs) (bound : xs.length < UInt64.size) :
    b.buildChecked = b.build := by
  obtain ⟨once, flush, ho, -⟩ := h.flushFront
  rw [Builder.buildChecked, Builder.build, h.flushFrontChecked bound, flush, ok_bind, ok_bind,
    ho.flushBackChecked bound]

end Builder.Holds

theorem Walk.takeFromChecked_eq (walk : Walk α) (e : End) :
    walk.takeFromChecked e = .ok (walk.takeFrom e) := by
  have counts : walk.remaining ≠ 0 →
      minusChecked walk.remaining 1 = .ok (walk.remaining - 1) := by
    intro nonzero
    refine minusChecked_of_le ?_
    have positive : walk.remaining.toNat ≠ 0 :=
      fun zero => nonzero (UInt64.toNat_inj.mp zero)
    rw [UInt64.le_iff_toNat_le]
    exact Nat.pos_of_ne_zero positive
  cases e with
  | front =>
    rw [takeFromChecked, takeFrom]
    by_cases ended : walk.remaining = 0
    · rw [if_pos ended, if_pos ended]
    · rw [if_neg ended, if_neg ended, counts ended]
      cases advance .front walk.front <;> rfl
  | back =>
    rw [takeFromChecked, takeFrom]
    by_cases ended : walk.remaining = 0
    · rw [if_pos ended, if_pos ended]
    · rw [if_neg ended, if_neg ended, counts ended]
      cases advance .back walk.back <;> rfl

/-- The counter of a walk is taken from only while it is not zero, whatever the walk. -/
theorem Walk.checkedCursor_eq : (Walk.checkedCursor : Cursor (Walk α) α) = instCursorWalk := by
  have take_eq : ∀ (side : Side) (walk : Walk α),
      Walk.checkedCursor.take side walk = instCursorWalk.take side walk := by
    intro side walk
    cases side with
    | near => exact walk.takeFromChecked_eq walk.near
    | far => exact walk.takeFromChecked_eq walk.near.opposite
  have takes : Walk.checkedCursor.take = (instCursorWalk : Cursor (Walk α) α).take :=
    funext fun side => funext fun walk => take_eq side walk
  exact congrArg (fun take => Cursor.mk take Walk.remaining) takes

/-- Two ways to take elements that do alike on all cursors of a kind, which taking never leaves. -/
structure Cursor.Agree {σ : Type} (one other : Cursor σ α) (keeps : σ → Prop) : Prop where
  kept : @Cursor.Keeps α σ other keeps
  remaining_eq : one.remaining = other.remaining
  take_eq (side : Side) (cursor : σ) : keeps cursor → one.take side cursor = other.take side cursor

namespace Cursor.Agree

variable {σ : Type} {one other : Cursor σ α} {keeps : σ → Prop} {cursor : σ}

theorem nth (agree : Cursor.Agree one other keeps) (h : keeps cursor) (side : Side) (count : Nat) :
    @Cursor.nth α σ one side count cursor = @Cursor.nth α σ other side count cursor := by
  induction count generalizing cursor with
  | zero =>
    unfold Cursor.nth
    rw [agree.take_eq side cursor h]
  | succ count ih =>
    unfold Cursor.nth
    rw [agree.take_eq side cursor h]
    refine bind_congr_ok fun taken made => ?_
    cases taken with
    | none => rfl
    | some next => exact ih (agree.kept side cursor h _ made next.1 next.2 rfl)

theorem collectOnto (agree : Cursor.Agree one other keeps) (h : keeps cursor) (side : Side)
    (read : List α) (count : Nat) :
    @Cursor.collectOnto α σ one side read count cursor =
      @Cursor.collectOnto α σ other side read count cursor := by
  induction count generalizing cursor read with
  | zero => rfl
  | succ count ih =>
    unfold Cursor.collectOnto
    rw [agree.take_eq side cursor h]
    refine bind_congr_ok fun taken made => ?_
    cases taken with
    | none => rfl
    | some next => exact ih (agree.kept side cursor h _ made next.1 next.2 rfl) (next.1 :: read)

theorem rest (agree : Cursor.Agree one other keeps) (h : keeps cursor) (side : Side) :
    @Cursor.rest α σ one side cursor = @Cursor.rest α σ other side cursor := by
  unfold Cursor.rest Cursor.collect
  rw [agree.collectOnto h, agree.remaining_eq]

theorem answer (agree : Cursor.Agree one other keeps) (h : keeps cursor) (request : CursorRequest) :
    @CursorRequest.answer α σ one cursor request = @CursorRequest.answer α σ other cursor request := by
  unfold CursorRequest.answer
  cases request with
  | nth side count => simp only [agree.nth h]
  | collect side count =>
    unfold Cursor.collect
    simp only [agree.collectOnto h]
  | rest side | fork side => simp only [agree.rest h]
  | remaining | bounds => simp only [agree.remaining_eq]

theorem course (agree : Cursor.Agree one other keeps) (h : keeps cursor) (requests : List CursorRequest) :
    @CursorRequest.course α σ one cursor requests = @CursorRequest.course α σ other cursor requests := by
  induction requests generalizing cursor with
  | nil => rfl
  | cons request later ih =>
    unfold CursorRequest.course
    rw [agree.answer h]
    refine bind_congr_ok fun answered made => ?_
    rw [ih (agree.kept.answer h request answered made)]

theorem answerAll (agree : Cursor.Agree one other keeps) (h : keeps cursor)
    (requests : List CursorRequest) :
    @CursorRequest.answerAll α σ one cursor requests =
      @CursorRequest.answerAll α σ other cursor requests := by
  unfold CursorRequest.answerAll
  rw [agree.course h]

end Cursor.Agree

theorem Drain.keeps_wellFormed [Arithmetic] [Arithmetic.Exact] :
    Cursor.Keeps (Drain α) fun drain => drain.tree.WellFormed 0 := by
  intro side drain h
  have shows : drain.Shows drain.tree.toList := ⟨h, rfl⟩
  cases met : side.arrange drain.tree.toList with
  | nil =>
    rw [side.eq_nil_of_arrange met] at shows
    rw [shows.take_nil side]
    exact .of_ok fun _ _ same => nomatch same
  | cons element rest =>
    obtain ⟨moved, taken, hmoved⟩ := shows.take_cons met
    rw [taken]
    refine .of_ok fun _ _ same => ?_
    cases same
    exact hmoved.wellFormed

theorem Drain.agree_checked :
    Cursor.Agree Drain.checkedCursor (instCursorDrainOfArithmetic : Cursor (Drain α) α)
      fun drain => drain.tree.WellFormed 0 where
  kept := Drain.keeps_wellFormed
  remaining_eq := rfl
  take_eq side drain h := by
    obtain ⟨consistent, bound⟩ := Tree.wellFormed_iff.mp h
    cases side with
    | near => exact congrArg (Drain.taken <$> ·) (consistent.popFrontChecked bound)
    | far => exact congrArg (Drain.taken <$> ·) (consistent.popBackChecked bound)

end IndexedSequence
