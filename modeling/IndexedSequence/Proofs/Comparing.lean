import IndexedSequence.Proofs.Walking
import IndexedSequence.Sequence.Comparison

set_option autoImplicit false

namespace IndexedSequence

variable {α : Type} {near near' : End} {a b : Walk α} {xs ys : List α}

namespace Walk

theorem Shows.agree (ha : a.Shows near xs) (hb : b.Shows near' ys) (same : α → α → Bool) :
    Walk.agree same a b = xs.isEqv ys same := by
  induction xs generalizing a b ys with
  | nil =>
    rw [Walk.agree, ha.next_nil]
    cases ys with
    | nil => simp [hb.next_nil]
    | cons y ys =>
      obtain ⟨b', next, -⟩ := hb.next_cons
      simp [next]
  | cons x xs ih =>
    obtain ⟨a', nextA, ha'⟩ := ha.next_cons
    rw [Walk.agree, nextA]
    cases ys with
    | nil => simp [hb.next_nil]
    | cons y ys =>
      obtain ⟨b', nextB, hb'⟩ := hb.next_cons
      simp [nextB, ih ha' hb', List.isEqv]

end Walk

/-- The order of the first two elements in the same place that are not equal in order. -/
def firstOrder? (order? : α → α → Option Ordering) : List α → List α → Option Ordering
  | [], [] => some .eq
  | [], _ :: _ => some .lt
  | _ :: _, [] => some .gt
  | x :: xs, y :: ys =>
    match order? x y with
    | some .eq => firstOrder? order? xs ys
    | decided => decided

namespace Walk

theorem Shows.partialOrder (ha : a.Shows near xs) (hb : b.Shows near' ys)
    (order? : α → α → Option Ordering) : Walk.partialOrder order? a b = firstOrder? order? xs ys := by
  induction xs generalizing a b ys with
  | nil =>
    rw [Walk.partialOrder, ha.next_nil]
    cases ys with
    | nil => simp [hb.next_nil, firstOrder?]
    | cons y ys =>
      obtain ⟨b', next, -⟩ := hb.next_cons
      simp [next, firstOrder?]
  | cons x xs ih =>
    obtain ⟨a', nextA, ha'⟩ := ha.next_cons
    rw [Walk.partialOrder, nextA]
    cases ys with
    | nil => simp [hb.next_nil, firstOrder?]
    | cons y ys =>
      obtain ⟨b', nextB, hb'⟩ := hb.next_cons
      rw [firstOrder?, nextB]
      rcases decided : order? x y with _ | _ | _ | _ <;> simp [decided, ih ha' hb']

theorem Shows.totalOrder (ha : a.Shows near xs) (hb : b.Shows near' ys) (order : α → α → Ordering) :
    Walk.totalOrder order a b = xs.compareLex order ys := by
  induction xs generalizing a b ys with
  | nil =>
    rw [Walk.totalOrder, ha.next_nil]
    cases ys with
    | nil => simp [hb.next_nil, List.compareLex]
    | cons y ys =>
      obtain ⟨b', next, -⟩ := hb.next_cons
      simp [next, List.compareLex]
  | cons x xs ih =>
    obtain ⟨a', nextA, ha'⟩ := ha.next_cons
    rw [Walk.totalOrder, nextA]
    cases ys with
    | nil => simp [hb.next_nil, List.compareLex]
    | cons y ys =>
      obtain ⟨b', nextB, hb'⟩ := hb.next_cons
      simp only [nextB, ih ha' hb', List.compareLex]
      cases order x y <;> rfl

end Walk

end IndexedSequence
