import IndexedSequence.Proofs.Edits

set_option autoImplicit false

namespace IndexedSequence

variable {α : Type}

namespace Bound

/-- Where a slice begins that has this bound in front. -/
def start : Bound → Nat
  | unbounded => 0
  | included index => index.toNat
  | excluded index => index.toNat + 1

/-- Where a slice of a sequence of `length` elements ends that has this bound behind. -/
def stop (length : Nat) : Bound → Nat
  | unbounded => length
  | included index => index.toNat + 1
  | excluded index => index.toNat

/-- What the refusal of a slice names: the bound that no position follows, the one in front before the one behind;
else the end, if it lies past the sequence; else the beginning, which lies past the end. -/
structure Blames (length : Nat) (lower upper : Bound) (index : UInt64) : Prop where
  lower_last : lower.start = UInt64.size → lower = excluded index
  upper_last : lower.start < UInt64.size → upper.stop length = UInt64.size → upper = included index
  beyond : lower.start < UInt64.size → upper.stop length < UInt64.size → length < upper.stop length →
    index.toNat = upper.stop length
  crossed : lower.start < UInt64.size → upper.stop length ≤ length → index.toNat = lower.start

end Bound

namespace Listed

variable {xs : List α} {lower upper : Bound}

theorem positionAfter_of_lt {index : UInt64} (within : index.toNat + 1 < UInt64.size) :
    positionAfter xs index = .ok (.ofNat (index.toNat + 1)) := by
  rw [positionAfter, if_pos within, UInt64.ofNat_add, UInt64.ofNat_toNat]
  rfl

theorem positionAfter_of_eq {index : UInt64} (last : index.toNat + 1 = UInt64.size) :
    positionAfter xs index = refuse xs index :=
  if_neg (Nat.not_lt.mpr (Nat.le_of_eq last.symm))

theorem startOf_cases (xs : List α) (lower : Bound) :
    lower.start < UInt64.size ∧ startOf xs lower = .ok (.ofNat lower.start) ∨
      lower.start = UInt64.size ∧ ∃ index, lower = .excluded index ∧ startOf xs lower = refuse xs index := by
  cases lower with
  | unbounded => exact .inl ⟨by decide, rfl⟩
  | included index =>
    refine .inl ⟨index.toNat_lt_size, ?_⟩
    rw [startOf, Bound.start, UInt64.ofNat_toNat]
  | excluded index =>
    obtain within | last := Nat.lt_or_eq_of_le (Nat.succ_le_of_lt index.toNat_lt_size)
    · exact .inl ⟨within, positionAfter_of_lt within⟩
    · exact .inr ⟨last, index, rfl, positionAfter_of_eq last⟩

theorem stopOf_cases (bound : xs.length < UInt64.size) (upper : Bound) :
    upper.stop xs.length < UInt64.size ∧ stopOf xs upper = .ok (.ofNat (upper.stop xs.length)) ∨
      upper.stop xs.length = UInt64.size ∧
        ∃ index, upper = .included index ∧ stopOf xs upper = refuse xs index := by
  cases upper with
  | unbounded => exact .inl ⟨bound, rfl⟩
  | included index =>
    obtain within | last := Nat.lt_or_eq_of_le (Nat.succ_le_of_lt index.toNat_lt_size)
    · exact .inl ⟨within, positionAfter_of_lt within⟩
    · exact .inr ⟨last, index, rfl, positionAfter_of_eq last⟩
  | excluded index =>
    refine .inl ⟨index.toNat_lt_size, ?_⟩
    rw [stopOf, Bound.stop, UInt64.ofNat_toNat]

theorem slice_of_not (bound : xs.length < UInt64.size)
    (outside : ¬(lower.start ≤ upper.stop xs.length ∧ upper.stop xs.length ≤ xs.length)) :
    ∃ index, slice xs lower upper = refuse xs index ∧ Bound.Blames xs.length lower upper index := by
  rw [slice]
  obtain ⟨small, started⟩ | ⟨large, index, same, refused⟩ := startOf_cases xs lower
  · rw [started]
    obtain ⟨small', stopped⟩ | ⟨large', index, same, refused⟩ := stopOf_cases bound upper
    · have toStart : (UInt64.ofNat lower.start).toNat = lower.start := UInt64.toNat_ofNat_of_lt' small
      have toStop : (UInt64.ofNat (upper.stop xs.length)).toNat = upper.stop xs.length :=
        UInt64.toNat_ofNat_of_lt' small'
      rw [stopped, ok_bind, ok_bind, toStart, toStop]
      by_cases beyond : xs.length < upper.stop xs.length
      · exact ⟨_, if_pos beyond, by omega, by omega, fun _ _ _ => toStop, by omega⟩
      · have crossed : upper.stop xs.length < lower.start := by omega
        exact ⟨_, (if_neg beyond).trans (if_pos crossed), by omega, by omega, by omega, fun _ _ => toStart⟩
    · rw [refused]
      exact ⟨index, rfl, by omega, fun _ _ => same, by omega, by omega⟩
  · rw [refused]
    exact ⟨index, rfl, fun _ => same, by omega, by omega, by omega⟩

end Listed

section

variable [Arithmetic] [Arithmetic.Exact] {s : Sequence α} {xs : List α} {lower upper : Bound}

theorem Sequence.Holds.slice_of_le (h : s.Holds xs) (bound : xs.length < UInt64.size)
    (ordered : lower.start ≤ upper.stop xs.length) (inside : upper.stop xs.length ≤ xs.length) :
    ∃ before suffix found after, s.splitAt (.ofNat lower.start) = .ok (before, suffix) ∧
      suffix.splitAt (.ofNat (upper.stop xs.length - lower.start)) = .ok (found, after) ∧
      s.slice lower upper = .ok found ∧
      found.Holds ((xs.take (upper.stop xs.length)).drop lower.start) := by
  have small' : upper.stop xs.length < UInt64.size := Nat.lt_of_le_of_lt inside bound
  have small : lower.start < UInt64.size := Nat.lt_of_le_of_lt ordered small'
  have started : Listed.startOf xs lower = .ok (.ofNat lower.start) := by
    obtain ⟨-, started⟩ | ⟨large, -⟩ := Listed.startOf_cases xs lower
    · exact started
    · omega
  have stopped : Listed.stopOf xs upper = .ok (.ofNat (upper.stop xs.length)) := by
    obtain ⟨-, stopped⟩ | ⟨large, -⟩ := Listed.stopOf_cases bound upper
    · exact stopped
    · omega
  have toStart : (UInt64.ofNat lower.start).toNat = lower.start := UInt64.toNat_ofNat_of_lt' small
  have toStop : (UInt64.ofNat (upper.stop xs.length)).toNat = upper.stop xs.length :=
    UInt64.toNat_ofNat_of_lt' small'
  have le : UInt64.ofNat lower.start ≤ UInt64.ofNat (upper.stop xs.length) := by
    rw [UInt64.le_iff_toNat_le, toStart, toStop]
    exact ordered
  obtain ⟨before, suffix, found, after, cut, cut', hfound⟩ :=
    h.between bound le (by rw [toStop]; exact inside)
  rw [toStart, toStop] at hfound
  refine ⟨before, suffix, found, after, cut, ?_, ?_, hfound⟩
  · rw [UInt64.ofNat_sub ordered]
    exact cut'
  · have sized : s.size.toNat = xs.length := toNat_ofNat_of_eq h.size_eq bound
    rw [Sequence.slice, h.startOf_eq, h.stopOf_eq, started, stopped, mapError_ok, mapError_ok, ok_bind, ok_bind,
      if_neg, if_neg (UInt64.not_lt.mpr le)]
    · simp [cut, minus_of_le le, cut']
    · rw [UInt64.lt_iff_toNat_lt, sized, toStop]
      exact Nat.not_lt.mpr inside

end

/-- A slice is taken just where its beginning, its end and the size are in order, as numbers that no increment wraps,
and holds what lies between. -/
theorem Sequence.slices_are_listed [Element α] [Arithmetic] [Json.Spelling] [Arithmetic.Exact] [Arithmetic.Modular]
    {program : List (Command α)} {s : Sequence α} (occurs : s.tree.OccursIn program)
    (bound : s.toList.length < UInt64.size) (lower upper : Bound) :
    ((∃ found, s.slice lower upper = .ok found) ↔
      lower.start ≤ upper.stop s.toList.length ∧ upper.stop s.toList.length ≤ s.toList.length) ∧
    (lower.start ≤ upper.stop s.toList.length → upper.stop s.toList.length ≤ s.toList.length →
      ∃ before suffix found after, s.splitAt (.ofNat lower.start) = .ok (before, suffix) ∧
        suffix.splitAt (.ofNat (upper.stop s.toList.length - lower.start)) = .ok (found, after) ∧
        s.slice lower upper = .ok found ∧ found.tree.WellFormed 0 ∧
        found.toList = (s.toList.take (upper.stop s.toList.length)).drop lower.start) ∧
    (¬(lower.start ≤ upper.stop s.toList.length ∧ upper.stop s.toList.length ≤ s.toList.length) →
      ∃ error, s.slice lower upper = .error (.outOfRange error) ∧ error.size.toNat = s.toList.length ∧
        Bound.Blames s.toList.length lower upper error.index) := by
  have held : s.Holds s.toList := ⟨occurs.consistent, rfl⟩
  by_cases within : lower.start ≤ upper.stop s.toList.length ∧ upper.stop s.toList.length ≤ s.toList.length
  · obtain ⟨before, suffix, found, after, cut, cut', sliced, hfound⟩ :=
      held.slice_of_le bound within.1 within.2
    have shorter : ((s.toList.take (upper.stop s.toList.length)).drop lower.start).length < UInt64.size := by
      rw [List.length_drop, List.length_take]
      omega
    refine ⟨iff_of_true ⟨found, sliced⟩ within, fun _ _ => ?_, fun outside => absurd within outside⟩
    exact ⟨before, suffix, found, after, cut, cut', sliced, hfound.wellFormed shorter, hfound.toList_eq⟩
  · obtain ⟨index, listed, blamed⟩ := Listed.slice_of_not bound within
    have outcome := held.slice bound lower upper
    rw [listed] at outcome
    have refused := outcome.eq_of_error
    refine ⟨iff_of_false ?_ within, fun ordered inside => absurd ⟨ordered, inside⟩ within, fun _ => ?_⟩
    · rintro ⟨found, sliced⟩
      rw [refused] at sliced
      cases sliced
    · exact ⟨_, refused, UInt64.toNat_ofNat_of_lt' bound, blamed⟩

theorem splitTwice_slices :
    let s := (Workspace.empty.run splitTwice).2.sequence "b"
    let last : UInt64 := 18446744073709551615
    s.tree.OccursIn splitTwice ∧ s.toList.length = 14 ∧
      (∃ found, s.slice (.excluded 2) (.included 9) = .ok found ∧ found.tree.WellFormed 0 ∧
        found.toList = [8, 9, 1, 2, 3, 4, 5]) ∧
      (∃ error, s.slice (.excluded last) (.included last) = .error (.outOfRange error) ∧
        Bound.excluded last = .excluded error.index ∧ error.size.toNat = 14) ∧
      (∃ error, s.slice (.included last) (.included last) = .error (.outOfRange error) ∧
        Bound.included last = .included error.index ∧ error.size.toNat = 14) ∧
      (∃ error, s.slice (.included last) (.excluded last) = .error (.outOfRange error) ∧
        error.index.toNat = last.toNat ∧ error.size.toNat = 14) ∧
      ∃ error, s.slice (.included 9) (.excluded 4) = .error (.outOfRange error) ∧
        error.index.toNat = 9 ∧ error.size.toNat = 14 := by
  intro s last
  have occurs : s.tree.OccursIn splitTwice := .kept "b"
  have elements : s.toList = [5, 6, 7, 8, 9, 1, 2, 3, 4, 5, 6, 7, 8, 9] := by decide +kernel
  have count : s.toList.length = 14 := by rw [elements]; rfl
  have bound : s.toList.length < UInt64.size := by rw [count]; decide
  have lists := Sequence.slices_are_listed occurs bound
  rw [count] at lists
  refine ⟨occurs, count, ?_, ?_, ?_, ?_, ?_⟩
  · obtain ⟨-, -, found, -, -, -, sliced, hfound, same⟩ :=
      (lists (.excluded 2) (.included 9)).2.1 (by decide) (by decide)
    exact ⟨found, sliced, hfound, by rw [same, elements]; rfl⟩
  · obtain ⟨error, refused, size, blamed⟩ := (lists (.excluded last) (.included last)).2.2 (by decide)
    exact ⟨error, refused, blamed.lower_last (by decide), size⟩
  · obtain ⟨error, refused, size, blamed⟩ := (lists (.included last) (.included last)).2.2 (by decide)
    exact ⟨error, refused, blamed.upper_last (by decide) (by decide), size⟩
  · obtain ⟨error, refused, size, blamed⟩ := (lists (.included last) (.excluded last)).2.2 (by decide)
    exact ⟨error, refused, blamed.beyond (by decide) (by decide) (by decide), size⟩
  · obtain ⟨error, refused, size, blamed⟩ := (lists (.included 9) (.excluded 4)).2.2 (by decide)
    exact ⟨error, refused, blamed.crossed (by decide) (by decide), size⟩

end IndexedSequence
