import IndexedSequence.Builder
import IndexedSequence.Proofs.Sequences

set_option autoImplicit false

namespace IndexedSequence

variable {α : Type}

/-- The elements gathered are those of the list, around a consistent sequence. -/
structure Builder.Holds (b : Builder α) (xs : List α) : Prop where
  consistent : b.sequence.tree.Consistent 0
  toList_eq : b.toList = xs

namespace Builder

theorem holds_empty : (empty : Builder α).Holds [] := ⟨trivial, rfl⟩

namespace Holds

variable {b : Builder α} {xs ys : List α}

theorem holds_sequence (h : b.Holds xs) : b.sequence.Holds b.sequence.toList :=
  ⟨h.consistent, rfl⟩

theorem size_eq (h : b.Holds xs) : b.size = .ofNat xs.length := by
  calc
    b.size = .ofNat b.front.length + .ofNat b.sequence.toList.length + .ofNat b.back.length := by
      rw [size, h.holds_sequence.size_eq]
    _ = .ofNat (b.front.length + (b.sequence.toList.length + b.back.reverse.length)) := by
      rw [UInt64.ofNat_add, UInt64.ofNat_add, UInt64.add_assoc, List.length_reverse]
    _ = .ofNat xs.length := by rw [← h.toList_eq, toList, List.length_append, List.length_append]

theorem pushFront (h : b.Holds xs) (element : α) : (b.pushFront element).Holds (element :: xs) where
  consistent := h.consistent
  toList_eq := congrArg (element :: ·) h.toList_eq

theorem pushBack (h : b.Holds xs) (element : α) : (b.pushBack element).Holds (xs ++ [element]) where
  consistent := h.consistent
  toList_eq := by simp [← h.toList_eq, Builder.pushBack, toList]

theorem extend (h : b.Holds xs) (elements : List α) : (b.extend elements).Holds (xs ++ elements) where
  consistent := h.consistent
  toList_eq := by simp [← h.toList_eq, Builder.extend, toList]

theorem flushFront (h : b.Holds xs) :
    ∃ flushed, b.flushFront = .ok flushed ∧ flushed.Holds xs ∧ flushed.front = [] ∧
      flushed.back = b.back := by
  rw [Builder.flushFront]
  by_cases nothing : b.front.isEmpty = true
  · rw [if_pos nothing]
    exact ⟨b, rfl, h, List.isEmpty_iff.mp nothing, rfl⟩
  · rw [if_neg nothing]
    obtain ⟨s, joined, hs⟩ :=
      ((Sequence.holds_ofList b.front).concat h.holds_sequence).exists_of_ok
    refine ⟨{ b with front := [], sequence := s }, by rw [joined]; rfl, ⟨hs.consistent, ?_⟩, rfl, rfl⟩
    rw [← h.toList_eq, toList, toList, hs.toList_eq]
    simp

theorem flushBack (h : b.Holds xs) :
    ∃ flushed, b.flushBack = .ok flushed ∧ flushed.Holds xs ∧ flushed.front = b.front ∧
      flushed.back = [] := by
  rw [Builder.flushBack]
  by_cases nothing : b.back.isEmpty = true
  · rw [if_pos nothing]
    exact ⟨b, rfl, h, rfl, List.isEmpty_iff.mp nothing⟩
  · rw [if_neg nothing]
    obtain ⟨s, joined, hs⟩ :=
      (h.holds_sequence.concat (Sequence.holds_ofList b.back.reverse)).exists_of_ok
    refine ⟨{ b with back := [], sequence := s }, by rw [joined]; rfl, ⟨hs.consistent, ?_⟩, rfl, rfl⟩
    rw [← h.toList_eq, toList, toList, hs.toList_eq]
    simp

theorem append {s : Sequence α} (h : b.Holds xs) (hs : s.Holds ys) :
    Refines Holds (b.append s) (.ok (xs ++ ys)) := by
  obtain ⟨flushed, hflush, hf, -, back⟩ := h.flushBack
  obtain ⟨t, joined, ht⟩ := (hf.holds_sequence.concat hs).exists_of_ok
  refine Refines.of_ok (c := { flushed with sequence := t }) ?_ ⟨ht.consistent, ?_⟩
  · simp [Builder.append, hflush, joined]
  · rw [← hf.toList_eq, toList, toList, ht.toList_eq, back]
    simp

theorem prepend {s : Sequence α} (h : b.Holds xs) (hs : s.Holds ys) :
    Refines Holds (b.prepend s) (.ok (ys ++ xs)) := by
  obtain ⟨flushed, hflush, hf, front, -⟩ := h.flushFront
  obtain ⟨t, joined, ht⟩ := (hs.concat hf.holds_sequence).exists_of_ok
  refine Refines.of_ok (c := { flushed with sequence := t }) ?_ ⟨ht.consistent, ?_⟩
  · simp [Builder.prepend, hflush, joined]
  · rw [← hf.toList_eq, toList, toList, ht.toList_eq, front]
    simp

theorem build (h : b.Holds xs) :
    Refines (fun built list => built.1.Holds list ∧ built.2 = empty) b.build (.ok xs) := by
  obtain ⟨once, flushedFront, ho, front, -⟩ := h.flushFront
  obtain ⟨twice, flushedBack, ht, front', back⟩ := ho.flushBack
  refine Refines.of_ok (c := (twice.sequence, { twice with sequence := .empty })) ?_
    ⟨⟨ht.consistent, ?_⟩, ?_⟩
  · simp [Builder.build, flushedFront, flushedBack]
  · rw [← ht.toList_eq, toList, front', front, back]
    simp
  · rw [empty, front', front, back]

end Holds

end Builder

end IndexedSequence
