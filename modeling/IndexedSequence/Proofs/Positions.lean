import IndexedSequence.Proofs.Sequences
import IndexedSequence.Proofs.Splitting
import IndexedSequence.Sequence.Positional

set_option autoImplicit false

namespace IndexedSequence

variable {α : Type}

namespace Listed

def refuse {β : Type} (xs : List α) (index : UInt64) : Except OutOfRange β :=
  .error ⟨index, .ofNat xs.length⟩

def elementAt (xs : List α) (index : UInt64) : Except OutOfRange α :=
  match xs[index.toNat]? with
  | some element => .ok element
  | none => refuse xs index

def split (xs : List α) (index : UInt64) : Except OutOfRange (List α × α × List α) := do
  return (xs.take index.toNat, ← elementAt xs index, xs.drop (index.toNat + 1))

theorem split_of_lt {xs : List α} {index : UInt64} (inside : index.toNat < xs.length) :
    split xs index = .ok (xs.take index.toNat, xs[index.toNat], xs.drop (index.toNat + 1)) := by
  rw [split, elementAt, List.getElem?_eq_getElem inside]
  rfl

theorem split_of_not_lt {xs : List α} {index : UInt64} (outside : ¬index.toNat < xs.length) :
    split xs index = refuse xs index := by
  rw [split, elementAt, List.getElem?_eq_none (Nat.not_lt.mp outside)]
  rfl

def splitAt (xs : List α) (index : UInt64) : Except OutOfRange (List α × List α) :=
  if index.toNat ≤ xs.length then .ok (xs.take index.toNat, xs.drop index.toNat) else refuse xs index

def insertAt (xs : List α) (index : UInt64) (element : α) : Except OutOfRange (List α) :=
  if index.toNat ≤ xs.length then .ok (xs.take index.toNat ++ element :: xs.drop index.toNat)
  else refuse xs index

def removeAt (xs : List α) (index : UInt64) : Except OutOfRange (List α) :=
  if index.toNat < xs.length then .ok (xs.eraseIdx index.toNat) else refuse xs index

def update (xs : List α) (index : UInt64) (element : α) : Except OutOfRange (List α) :=
  if index.toNat < xs.length then .ok (xs.set index.toNat element) else refuse xs index

def positionAfter (xs : List α) (index : UInt64) : Except OutOfRange UInt64 :=
  if index.toNat + 1 < UInt64.size then .ok (index + 1) else refuse xs index

def startOf (xs : List α) : Bound → Except OutOfRange UInt64
  | .unbounded => .ok 0
  | .included index => .ok index
  | .excluded index => positionAfter xs index

def stopOf (xs : List α) : Bound → Except OutOfRange UInt64
  | .unbounded => .ok (.ofNat xs.length)
  | .included index => positionAfter xs index
  | .excluded index => .ok index

def slice (xs : List α) (start stop : Bound) : Except OutOfRange (List α) := do
  let first ← startOf xs start
  let last ← stopOf xs stop
  if xs.length < last.toNat then refuse xs last
  else if last.toNat < first.toNat then refuse xs first
  else return (xs.take last.toNat).drop first.toNat

end Listed

@[simp]
theorem lift_fault_ok {β : Type} (b : β) :
    (liftM (Except.ok b : Except Fault β) : Except Failure β) = .ok b := rfl

namespace Sequence.Holds

variable {s t : Sequence α} {xs ys : List α}

theorem outOfRange_eq (h : s.Holds xs) (index : UInt64) :
    s.outOfRange index = ⟨index, .ofNat xs.length⟩ := by
  rw [outOfRange, h.size_eq]

theorem positionAfter_eq (h : s.Holds xs) (index : UInt64) :
    s.positionAfter index = (Listed.positionAfter xs index).mapError .outOfRange := by
  have wraps : index + 1 = 0 ↔ ¬index.toNat + 1 < UInt64.size := by
    have small := index.toNat_lt_size
    rw [← UInt64.toNat_inj, UInt64.toNat_add]
    change (index.toNat + 1) % UInt64.size = 0 ↔ _
    rw [Nat.not_lt]
    constructor
    · intro zero
      exact Nat.le_of_not_lt fun less => by simp [Nat.mod_eq_of_lt less] at zero
    · intro le
      have last : index.toNat + 1 = UInt64.size := by omega
      rw [last, Nat.mod_self]
  rw [positionAfter, Listed.positionAfter]
  by_cases inside : index.toNat + 1 < UInt64.size
  · rw [if_neg (mt wraps.mp (not_not_intro inside)), if_pos inside]
    rfl
  · rw [if_pos (wraps.mpr inside), if_neg inside, h.outOfRange_eq]
    rfl

theorem startOf_eq (h : s.Holds xs) (bound : Bound) :
    s.startOf bound = (Listed.startOf xs bound).mapError .outOfRange := by
  cases bound with
  | unbounded | included index => rfl
  | excluded index => exact h.positionAfter_eq index

theorem stopOf_eq (h : s.Holds xs) (bound : Bound) :
    s.stopOf bound = (Listed.stopOf xs bound).mapError .outOfRange := by
  cases bound with
  | unbounded => exact congrArg Except.ok h.size_eq
  | included index => exact h.positionAfter_eq index
  | excluded index => rfl

variable [Arithmetic] [Arithmetic.Exact]

theorem elementAt_eq (h : s.Holds xs) (bound : xs.length < UInt64.size) (index : UInt64) :
    s.elementAt index = (Listed.elementAt xs index).mapError .outOfRange := by
  rw [elementAt, h.get? bound, Listed.elementAt, lift_fault_ok, ok_bind]
  cases xs[index.toNat]? with
  | some element => rfl
  | none => rw [h.outOfRange_eq]; rfl

theorem cut (h : s.Holds xs) (bound : xs.length < UInt64.size) {index : UInt64}
    (inside : index.toNat < xs.length) :
    ∃ before offset after, s.tree.split? index =
        .ok (some ⟨before, .leaf xs[index.toNat], offset, after⟩) ∧
      Holds ⟨before⟩ (xs.take index.toNat) ∧ Holds ⟨after⟩ (xs.drop (index.toNat + 1)) := by
  obtain ⟨consistent, rfl⟩ := h
  obtain ⟨⟨before, node, offset, after⟩, found, divides, hb, hn, ha⟩ := consistent.split? bound inside
  obtain ⟨element, rfl⟩ := hn.eq_leaf
  rw [UInt64.ofNat_toNat] at found
  obtain ⟨at_eq, parts⟩ := divides.leaf rfl
  simp only [← hb.toList_eq, ← ha.toList_eq, ← consistent.toList_eq] at at_eq parts
  have whole : s.toList = before.toList ++ element :: after.toList := parts
  refine ⟨before, offset, after, ?_, ⟨hb, ?_⟩, ⟨ha, ?_⟩⟩
  · simp [found, whole, ← at_eq]
  · rw [whole, ← at_eq, List.take_left]
    rfl
  · rw [whole, ← at_eq, List.drop_append]
    simp [toList]

omit [Arithmetic.Exact] in
theorem cut_none (h : s.Holds xs) (bound : xs.length < UInt64.size) {index : UInt64}
    (outside : ¬index.toNat < xs.length) : s.tree.split? index = .ok none := by
  obtain ⟨consistent, rfl⟩ := h
  have nothing := consistent.split?_none bound index.toNat_lt_size outside
  rwa [UInt64.ofNat_toNat] at nothing

theorem split (h : s.Holds xs) (bound : xs.length < UInt64.size) (index : UInt64) :
    Refines (fun parts lists => parts.1.Holds lists.1 ∧ parts.2.1 = lists.2.1 ∧ parts.2.2.Holds lists.2.2)
      (s.split index) ((Listed.split xs index).mapError .outOfRange) := by
  rw [Sequence.split, h.elementAt_eq bound, Listed.elementAt]
  by_cases inside : index.toNat < xs.length
  · obtain ⟨before, offset, after, found, hb, ha⟩ := h.cut bound inside
    rw [List.getElem?_eq_getElem inside, Listed.split_of_lt inside, found]
    exact ⟨hb, rfl, ha⟩
  · rw [List.getElem?_eq_none (Nat.not_lt.mp inside), Listed.split_of_not_lt inside]
    rfl

theorem splitAt (h : s.Holds xs) (bound : xs.length < UInt64.size) (index : UInt64) :
    Refines (fun halves lists => halves.1.Holds lists.1 ∧ halves.2.Holds lists.2)
      (s.splitAt index) ((Listed.splitAt xs index).mapError .outOfRange) := by
  have atEnd : index = s.size ↔ index.toNat = xs.length := by
    rw [h.size_eq, ← UInt64.toNat_inj, UInt64.toNat_ofNat_of_lt' bound]
  rw [Sequence.splitAt, Listed.splitAt]
  by_cases stop : index.toNat = xs.length
  · rw [if_pos (atEnd.mpr stop), if_pos (Nat.le_of_eq stop), stop, List.take_length, List.drop_length]
    exact ⟨h, holds_empty⟩
  · rw [if_neg (mt atEnd.mp stop)]
    by_cases inside : index.toNat < xs.length
    · obtain ⟨before, offset, after, found, hb, ha⟩ := h.cut bound inside
      rw [if_pos (Nat.le_of_lt inside), found]
      refine ⟨hb, ?_⟩
      rw [List.drop_eq_getElem_cons inside]
      exact ha.pushFront xs[index.toNat]
    · rw [if_neg (by omega), h.cut_none bound inside, h.outOfRange_eq]
      rfl

omit [Arithmetic] [Arithmetic.Exact] in
theorem concat_around (hs : s.Holds xs) (ht : t.Holds ys) (element : α) :
    ∃ grown whole, s.concat (singleton element) = .ok grown ∧ grown.concat t = .ok whole ∧
      whole.Holds (xs ++ element :: ys) := by
  obtain ⟨grown, joined, hgrown⟩ := (hs.concat (holds_singleton element)).exists_of_ok
  obtain ⟨whole, joined', hwhole⟩ := (hgrown.concat ht).exists_of_ok
  rw [← List.append_cons] at hwhole
  exact ⟨grown, whole, joined, joined', hwhole⟩

theorem insertAt (h : s.Holds xs) (bound : xs.length < UInt64.size) (index : UInt64) (element : α) :
    Refines Holds (s.insertAt index element) ((Listed.insertAt xs index element).mapError .outOfRange) := by
  have halves := h.splitAt bound index
  rw [Listed.splitAt] at halves
  rw [Sequence.insertAt, Listed.insertAt]
  by_cases inside : index.toNat ≤ xs.length
  · rw [if_pos inside] at halves ⊢
    obtain ⟨⟨before, after⟩, found, hb, ha⟩ := halves.exists_of_ok
    obtain ⟨grown, whole, joined, joined', hwhole⟩ := hb.concat_around ha element
    refine Refines.of_ok ?_ hwhole
    simp [found, joined, joined']
  · rw [if_neg inside] at halves ⊢
    rw [halves.eq_of_error]
    rfl

theorem removeAt (h : s.Holds xs) (bound : xs.length < UInt64.size) (index : UInt64) :
    Refines Holds (s.removeAt index) ((Listed.removeAt xs index).mapError .outOfRange) := by
  have parts := h.split bound index
  rw [Sequence.removeAt, Listed.removeAt]
  by_cases inside : index.toNat < xs.length
  · rw [Listed.split_of_lt inside] at parts
    obtain ⟨⟨before, element, after⟩, found, hb, -, ha⟩ := parts.exists_of_ok
    obtain ⟨whole, joined, hwhole⟩ := (hb.concat ha).exists_of_ok
    rw [if_pos inside, List.eraseIdx_eq_take_drop_succ]
    refine Refines.of_ok ?_ hwhole
    simp [found, joined]
  · rw [Listed.split_of_not_lt inside] at parts
    rw [if_neg inside, parts.eq_of_error]
    rfl

theorem update (h : s.Holds xs) (bound : xs.length < UInt64.size) (index : UInt64) (element : α) :
    Refines Holds (s.update index element) ((Listed.update xs index element).mapError .outOfRange) := by
  have parts := h.split bound index
  rw [Sequence.update, Listed.update]
  by_cases inside : index.toNat < xs.length
  · rw [Listed.split_of_lt inside] at parts
    obtain ⟨⟨before, old, after⟩, found, hb, -, ha⟩ := parts.exists_of_ok
    obtain ⟨grown, whole, joined, joined', hwhole⟩ := hb.concat_around ha element
    rw [if_pos inside, List.set_eq_take_append_cons_drop, if_pos inside]
    refine Refines.of_ok ?_ hwhole
    simp [found, joined, joined']
  · rw [Listed.split_of_not_lt inside] at parts
    rw [if_neg inside, parts.eq_of_error]
    rfl

/-- The two cuts that part the elements between positions in order and within the sequence from the others. -/
theorem between (h : s.Holds xs) (bound : xs.length < UInt64.size) {first last : UInt64}
    (ordered : first ≤ last) (inside : last.toNat ≤ xs.length) :
    ∃ before suffix found after, s.splitAt first = .ok (before, suffix) ∧
      suffix.splitAt (last - first) = .ok (found, after) ∧
      found.Holds ((xs.take last.toNat).drop first.toNat) := by
  have le : first.toNat ≤ last.toNat := UInt64.le_iff_toNat_le.mp ordered
  have halves := h.splitAt bound first
  rw [Listed.splitAt, if_pos (Nat.le_trans le inside)] at halves
  obtain ⟨⟨before, suffix⟩, cut, -, hsuffix⟩ := halves.exists_of_ok
  have shorter : (xs.drop first.toNat).length < UInt64.size := by
    rw [List.length_drop]
    omega
  have within : (last - first).toNat ≤ (xs.drop first.toNat).length := by
    rw [UInt64.toNat_sub_of_le _ _ ordered, List.length_drop]
    omega
  have parts := hsuffix.splitAt shorter (last - first)
  rw [Listed.splitAt, if_pos within] at parts
  obtain ⟨⟨found, after⟩, cut', hfound, -⟩ := parts.exists_of_ok
  refine ⟨before, suffix, found, after, cut, cut', ?_⟩
  rwa [List.drop_take, ← UInt64.toNat_sub_of_le _ _ ordered]

theorem slice (h : s.Holds xs) (bound : xs.length < UInt64.size) (start stop : Bound) :
    Refines Holds (s.slice start stop) ((Listed.slice xs start stop).mapError .outOfRange) := by
  rw [Sequence.slice, Listed.slice, h.startOf_eq, h.stopOf_eq]
  cases Listed.startOf xs start with
  | error refused => rfl
  | ok first =>
    cases Listed.stopOf xs stop with
    | error refused => rfl
    | ok last =>
      have sized : s.size.toNat = xs.length := toNat_ofNat_of_eq h.size_eq bound
      simp only [mapError_ok, ok_bind, UInt64.lt_iff_toNat_lt, sized, h.outOfRange_eq]
      by_cases beyond : xs.length < last.toNat
      · rw [if_pos beyond, if_pos beyond]
        rfl
      · rw [if_neg beyond, if_neg beyond]
        by_cases crossed : last.toNat < first.toNat
        · rw [if_pos crossed, if_pos crossed]
          rfl
        · rw [if_neg crossed, if_neg crossed]
          have ordered : first ≤ last := UInt64.le_iff_toNat_le.mpr (Nat.not_lt.mp crossed)
          obtain ⟨_, suffix, found, _, cut, cut', hfound⟩ :=
            h.between bound ordered (Nat.not_lt.mp beyond)
          refine Refines.of_ok ?_ hfound
          simp [cut, minus_of_le ordered, cut']

end Sequence.Holds

end IndexedSequence
