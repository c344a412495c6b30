import IndexedSequence.Proofs.Draining
import IndexedSequence.Proofs.Grouping
import IndexedSequence.Proofs.Lookup
import IndexedSequence.Proofs.Reversal
import IndexedSequence.Proofs.Walking
import IndexedSequence.Sequence.Basic

set_option autoImplicit false

namespace IndexedSequence

variable {α : Type}

/-- The elements are those of the list, in a consistent tree of leaves. -/
structure Sequence.Holds (s : Sequence α) (xs : List α) : Prop where
  consistent : s.tree.Consistent 0
  toList_eq : s.toList = xs

def Listed.popFront (xs : List α) : Option (α × List α) :=
  xs.head?.map fun first => (first, xs.tail)

def Listed.popBack (xs : List α) : Option (α × List α) :=
  xs.getLast?.map fun last => (last, xs.dropLast)

namespace Sequence

def HoldsPopped (popped : Option (α × Sequence α)) (listed : Option (α × List α)) : Prop :=
  popped = none ∧ listed = none ∨
    ∃ element rest xs, popped = some (element, rest) ∧ listed = some (element, xs) ∧ rest.Holds xs

theorem holds_empty : (empty : Sequence α).Holds [] := ⟨trivial, rfl⟩

theorem holds_singleton (element : α) : (singleton element).Holds [element] := ⟨trivial, rfl⟩

theorem forall_leaf_consistent (elements : List α) :
    ∀ node ∈ elements.map Node.leaf, node.Consistent 0 := by
  intro node mem
  obtain ⟨element, -, rfl⟩ := List.mem_map.mp mem
  exact Node.consistent_leaf element

theorem elements_map_leaf (elements : List α) : Node.elements (elements.map Node.leaf) = elements := by
  induction elements with
  | nil => rfl
  | cons element rest ih =>
    rw [List.map_cons, Node.elements_cons, ih]
    rfl

theorem holds_ofList (elements : List α) : (ofList elements).Holds elements where
  consistent := .build (forall_leaf_consistent elements)
  toList_eq := by
    have built : (Tree.build (elements.map Node.leaf)).Consistent 0 :=
      .build (forall_leaf_consistent elements)
    rw [toList, ofList, built.toList_eq, Tree.nodes_build, elements_map_leaf]

namespace Holds

variable {s t : Sequence α} {xs ys : List α}

theorem size_eq (h : s.Holds xs) : s.size = .ofNat xs.length :=
  h.toList_eq ▸ h.consistent.size_eq

theorem isEmpty_eq (h : s.Holds xs) : s.isEmpty = xs.isEmpty := by
  rw [← h.toList_eq, toList, isEmpty]
  cases tree : s.tree with
  | empty => rfl
  | single node => simp [Tree.isEmpty, Tree.toList, node.toList_ne_nil]
  | deep size left middle right =>
    have := List.length_pos_iff.mp left.length_pos
    simp [Tree.isEmpty, Tree.toList, this]

theorem pushFront (h : s.Holds xs) (element : α) : (s.pushFront element).Holds (element :: xs) where
  consistent := h.consistent.pushFront (Node.consistent_leaf element)
  toList_eq := by
    rw [toList, Sequence.pushFront, Tree.toList_pushFront, ← h.toList_eq]
    rfl

theorem pushBack (h : s.Holds xs) (element : α) : (s.pushBack element).Holds (xs ++ [element]) where
  consistent := h.consistent.pushBack (Node.consistent_leaf element)
  toList_eq := by
    rw [toList, Sequence.pushBack, Tree.toList_pushBack, ← h.toList_eq]
    rfl

theorem pushAllFront (h : s.Holds xs) (elements : List α) :
    (s.pushAllFront elements).Holds (elements.reverse ++ xs) := by
  induction elements generalizing s xs with
  | nil => exact h
  | cons element rest ih =>
    rw [List.reverse_cons, List.append_assoc]
    exact ih (h.pushFront element)

theorem pushAllBack (h : s.Holds xs) (elements : List α) :
    (s.pushAllBack elements).Holds (xs ++ elements) := by
  induction elements generalizing s xs with
  | nil => rwa [List.append_nil]
  | cons element rest ih =>
    rw [List.append_cons]
    exact ih (h.pushBack element)

theorem reversed (h : s.Holds xs) : s.reversed.Holds xs.reverse where
  consistent := h.consistent.reversed
  toList_eq := by rw [toList, Sequence.reversed, Tree.toList_reversed, ← h.toList_eq, toList]

theorem concat (hs : s.Holds xs) (ht : t.Holds ys) : Refines Holds (s.concat t) (.ok (xs ++ ys)) := by
  obtain ⟨tree, joined, consistent, same⟩ := hs.consistent.concat ht.consistent
  refine Refines.of_ok (c := ⟨tree⟩) (by rw [Sequence.concat, joined, map_ok]) ⟨consistent, ?_⟩
  calc
    tree.toList = Node.elements s.tree.nodes ++ Node.elements t.tree.nodes := by
      rw [consistent.toList_eq, same, Node.elements_append]
    _ = s.tree.toList ++ t.tree.toList := by rw [hs.consistent.toList_eq, ht.consistent.toList_eq]
    _ = xs ++ ys := by rw [← hs.toList_eq, ← ht.toList_eq, toList, toList]

theorem extend (h : s.Holds xs) (elements : List α) :
    Refines Holds (s.extend elements) (.ok (xs ++ elements)) :=
  h.concat (holds_ofList elements)

end Holds

def doubledList (xs : List α) : Nat → List α
  | 0 => xs
  | times + 1 => doubledList (xs ++ xs) times

namespace Holds

variable {s t : Sequence α} {xs ys : List α}

theorem doubled (h : s.Holds xs) (times : Nat) :
    Refines Holds (s.doubled times) (.ok (doubledList xs times)) := by
  induction times generalizing s xs with
  | zero => exact h
  | succ times ih =>
    obtain ⟨twice, joined, ht⟩ := (h.concat h).exists_of_ok
    rw [Sequence.doubled, joined]
    exact ih ht

theorem wellFormed (h : s.Holds xs) (bound : xs.length < UInt64.size) : s.tree.WellFormed 0 := by
  obtain ⟨consistent, rfl⟩ := h
  exact Tree.wellFormed_iff.mpr ⟨consistent, bound⟩

theorem audit (h : s.Holds xs) (bound : xs.length < UInt64.size) : s.audit = .ok () :=
  (h.wellFormed bound).audit

theorem walk (h : s.Holds xs) (bound : xs.length < UInt64.size) (near : End) :
    (s.walk near).Shows near (near.arrange xs) :=
  h.toList_eq ▸ Walk.shows_ofTree (h.wellFormed bound) near

theorem elements_eq (h : s.Holds xs) (bound : xs.length < UInt64.size) : s.elements = xs :=
  (h.walk bound .front).elements

theorem drain (h : s.Holds xs) (bound : xs.length < UInt64.size) : s.drain.Shows xs :=
  ⟨h.wellFormed bound, h.toList_eq⟩

variable [Arithmetic] [Arithmetic.Exact]

theorem front? (h : s.Holds xs) (bound : xs.length < UInt64.size) : s.front? = .ok xs.head? := by
  obtain ⟨consistent, rfl⟩ := h
  exact consistent.front? bound

theorem back? (h : s.Holds xs) (bound : xs.length < UInt64.size) : s.back? = .ok xs.getLast? := by
  obtain ⟨consistent, rfl⟩ := h
  exact consistent.back? bound

theorem get? (h : s.Holds xs) (bound : xs.length < UInt64.size) (index : UInt64) :
    s.get? index = .ok xs[index.toNat]? := by
  obtain ⟨consistent, rfl⟩ := h
  have found := consistent.get? bound index.toNat_lt_size
  rwa [UInt64.ofNat_toNat] at found

theorem popFront (h : s.Holds xs) (bound : xs.length < UInt64.size) :
    Refines HoldsPopped s.popFront (.ok (Listed.popFront xs)) := by
  have first := h.front? bound
  obtain ⟨consistent, rfl⟩ := h
  cases begins : s.toList with
  | nil =>
    rw [begins] at first
    rw [Sequence.popFront, first]
    exact .inl ⟨rfl, rfl⟩
  | cons element rest =>
    obtain ⟨left, popped, hleft, same⟩ := consistent.popFront_cons bound begins
    rw [begins] at first
    rw [Sequence.popFront, first, ok_bind, popped]
    exact .inr ⟨element, ⟨left⟩, rest, rfl, rfl, hleft, same⟩

theorem popBack (h : s.Holds xs) (bound : xs.length < UInt64.size) :
    Refines HoldsPopped s.popBack (.ok (Listed.popBack xs)) := by
  have last := h.back? bound
  obtain ⟨consistent, rfl⟩ := h
  rcases s.toList.eq_nil_or_concat with nothing | ⟨rest, element, ends⟩
  · rw [nothing] at last ⊢
    rw [Sequence.popBack, last]
    exact .inl ⟨rfl, rfl⟩
  · rw [List.concat_eq_append] at ends
    obtain ⟨left, popped, hleft, same⟩ := consistent.popBack_concat bound ends
    rw [ends, List.getLast?_append, List.getLast?_singleton] at last
    rw [ends, Sequence.popBack, last]
    refine Refines.of_ok (c := some (element, ⟨left⟩)) (by simp [popped]) (.inr ?_)
    exact ⟨element, ⟨left⟩, rest, rfl, by simp [Listed.popBack], hleft, same⟩

end Holds

end Sequence

end IndexedSequence
