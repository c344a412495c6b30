import IndexedSequence.Proofs.Consistency
import IndexedSequence.Proofs.Locating

set_option autoImplicit false

namespace IndexedSequence

variable {α : Type}

namespace Node

/-- Every branch caches its number of leaves. How deep these lie is left open. -/
def SizesExact (node : Node α) : Prop :=
  ∀ branch ∈ node.branches, branch.size.toNat = branch.toList.length

instance (node : Node α) : Decidable node.SizesExact :=
  inferInstanceAs (Decidable (∀ branch ∈ node.branches, _))

variable {node child : Node α} {nodes : List (Node α)}

theorem SizesExact.toNat_size (exact : node.SizesExact) : node.size.toNat = node.toList.length := by
  cases node with
  | leaf element => rfl
  | two | three => exact exact _ (by simp [branches])

theorem mem_branches_of_mem_children {branch : Node α} (mem : child ∈ node.children)
    (below : branch ∈ child.branches) : branch ∈ node.branches := by
  cases node with
  | leaf element => cases mem
  | two size first second =>
    simp only [children, List.mem_cons, List.not_mem_nil, or_false] at mem
    rcases mem with rfl | rfl <;> simp [branches, below]
  | three size first second third =>
    simp only [children, List.mem_cons, List.not_mem_nil, or_false] at mem
    rcases mem with rfl | rfl | rfl <;> simp [branches, below]

theorem SizesExact.of_mem_children (exact : node.SizesExact) (mem : child ∈ node.children) :
    child.SizesExact :=
  fun branch below => exact branch (mem_branches_of_mem_children mem below)

theorem cachedSum_of_sizesExact (exact : ∀ node ∈ nodes, node.SizesExact) :
    cachedSum nodes = (elements nodes).length := by
  induction nodes with
  | nil => rfl
  | cons node rest ih =>
    rw [List.forall_mem_cons] at exact
    rw [cachedSum_cons, elements_cons, List.length_append, exact.1.toNat_size, ih exact.2]

theorem WellFormed.sizesExact {depth : Nat} (h : node.WellFormed depth) : node.SizesExact := by
  induction node generalizing depth with
  | leaf element => exact fun _ mem => absurd mem List.not_mem_nil
  | two size first second ihf ihs =>
    cases depth with
    | zero => exact h.elim
    | succ depth =>
      obtain ⟨hf, hs, counted⟩ := h
      refine forall_branches_two.mpr ⟨ihf hf, ihs hs, ?_⟩
      rw [Node.size, toList, List.length_append, counted]
  | three size first second third ihf ihs iht =>
    cases depth with
    | zero => exact h.elim
    | succ depth =>
      obtain ⟨hf, hs, ht, counted⟩ := h
      refine forall_branches_three.mpr ⟨ihf hf, ihs hs, iht ht, ?_⟩
      rw [Node.size, toList, List.length_append, List.length_append, counted, Nat.add_assoc]

theorem Consistent.sizesExact {depth : Nat} (h : node.Consistent depth)
    (bound : node.toList.length < UInt64.size) : node.SizesExact :=
  (wellFormed_iff.mpr ⟨h, bound⟩).sizesExact

theorem sizesExact_of_consistent {depth : Nat} (h : ∀ node ∈ nodes, node.Consistent depth)
    (bound : (elements nodes).length < UInt64.size) : ∀ node ∈ nodes, node.SizesExact :=
  fun node mem => (h node mem).sizesExact (Nat.lt_of_le_of_lt (length_le_of_mem mem) bound)

theorem SizesExact.cachedSum_children (exact : node.SizesExact) (branch : node.children ≠ []) :
    cachedSum node.children = node.size.toNat := by
  rw [cachedSum_of_sizesExact fun child mem => exact.of_mem_children mem, elements_children branch,
    exact.toNat_size]

end Node

/-- Where sizes are exact, the node that an index falls into has the element that the whole run has at the index. -/
theorem Cut.FallsAt.same_element {nodes : List (Node α)} {index : UInt64} {cut : Cut (List (Node α)) α}
    (h : cut.FallsAt nodes index) (exact : ∀ node ∈ nodes, node.SizesExact) :
    cut.offset.toNat < cut.node.toList.length ∧
      cut.node.toList[cut.offset.toNat]? = (Node.elements nodes)[index.toNat]? := by
  have within := UInt64.lt_iff_toNat_lt.mp h.within
  have passed := h.passed
  rw [h.nodes_eq, List.forall_mem_append, List.forall_mem_cons] at exact
  obtain ⟨before, found, -⟩ := exact
  rw [found.toNat_size] at within
  rw [Node.cachedSum_of_sizesExact before] at passed
  refine ⟨within, ?_⟩
  rw [h.nodes_eq, Node.elements_append, Node.elements_cons, List.getElem?_append_right (by omega),
    List.getElem?_append_left (by omega)]
  congr 1
  omega

theorem Cut.walks_within [Arithmetic] [Arithmetic.Exact] (asked : UInt64) {nodes : List (Node α)} {index : UInt64}
    (exact : ∀ node ∈ nodes, node.SizesExact) (inside : index.toNat < (Node.elements nodes).length) :
    ∃ cut : Cut (List (Node α)) α, cut.FallsAt nodes index ∧ ofNodesIn asked nodes index = .ok cut ∧
      Digit.lookupIn asked nodes index = cut.node.lookup cut.offset := by
  obtain ⟨cut, falls, -, made, looked⟩ | ⟨beyond, -⟩ := walks_cases asked nodes index
  · exact ⟨cut, falls, made, looked⟩
  · rw [Node.cachedSum_of_sizesExact exact] at beyond
    exact absurd inside (Nat.not_lt.mpr beyond)

namespace Node

section

variable [Arithmetic]

/-- One turn of a lookup at a branch: the index is located among the children, and goes on in the one there. -/
def Turn (here next : Node α × UInt64) : Prop :=
  ∃ place : Location, Location.find here.1.children here.2 = .ok place ∧
    here.1.children[place.position]? = some next.1 ∧ place.offset = next.2

variable [Arithmetic.Exact] {node : Node α} {index : UInt64} {start here next : Node α × UInt64}

theorem Turn.exists_cut (turn : Turn here next) : ∃ cut : Cut (List (Node α)) α,
    cut.FallsAt here.1.children here.2 ∧ cut.node = next.1 ∧ cut.offset = next.2 := by
  obtain ⟨place, found, there, counted⟩ := turn
  obtain ⟨cut, falls, rfl⟩ := Location.marks_iff.mp (Location.find_eq_ok_iff.mp found)
  rw [falls.nodes_eq] at there
  exact ⟨cut, falls, by simpa [Cut.place] using there, counted⟩

theorem turn_of_fallsAt {cut : Cut (List (Node α)) α} (falls : cut.FallsAt node.children index) :
    Turn (node, index) (cut.node, cut.offset) :=
  ⟨cut.place, Location.find_eq_ok_iff.mpr (Location.marks_iff.mpr ⟨cut, falls, rfl⟩),
    by simp [falls.nodes_eq, Cut.place], rfl⟩

theorem turns_of_lookup {element : α} (branch : node.children ≠ []) (found : node.lookup index = .ok element) :
    ∃ offset, Relation.TransGen Turn (node, index) (.leaf element, offset) := by
  induction node using induction_on_children generalizing index with
  | step node ih =>
    obtain ⟨cut, falls, -, looked⟩ | ⟨-, -, failed⟩ := lookup_cases branch index
    · have first : Relation.TransGen Turn (node, index) (cut.node, cut.offset) := .single (turn_of_fallsAt falls)
      rw [looked] at found
      by_cases inner : cut.node.children = []
      · obtain ⟨element', leaf⟩ := children_eq_nil_iff.mp inner
        rw [leaf] at first found
        cases found
        exact ⟨_, first⟩
      · obtain ⟨offset, later⟩ := ih cut.node (by simp [falls.nodes_eq]) inner found
        exact ⟨offset, first.trans later⟩
    · rw [failed] at found
      cases found

/-- What one turn keeps of a node with exact sizes. -/
theorem SizesExact.turn (exact : here.1.SizesExact) (turn : Turn here next) :
    next.1.SizesExact ∧ next.2.toNat < next.1.toList.length ∧
      next.1.toList[next.2.toNat]? = here.1.toList[here.2.toNat]? := by
  obtain ⟨cut, falls, sameNode, sameOffset⟩ := turn.exists_cut
  have branch : here.1.children ≠ [] := by simp [falls.nodes_eq]
  obtain ⟨within, same⟩ := falls.same_element fun child mem => exact.of_mem_children mem
  rw [elements_children branch] at same
  rw [← sameNode, ← sameOffset]
  exact ⟨exact.of_mem_children (by simp [falls.nodes_eq]), within, same⟩

theorem SizesExact.turns (exact : start.1.SizesExact) (way : Relation.TransGen Turn start here) :
    here.1.SizesExact ∧ here.2.toNat < here.1.toList.length ∧
      here.1.toList[here.2.toNat]? = start.1.toList[start.2.toNat]? := by
  induction way with
  | single turn => exact exact.turn turn
  | tail _ turn ih =>
    obtain ⟨exact', within, same⟩ := ih.1.turn turn
    exact ⟨exact', within, same.trans ih.2.2⟩

theorem SizesExact.lookup {element : α} (exact : node.SizesExact)
    (there : node.toList[index.toNat]? = some element) : node.lookup index = .ok element := by
  induction node using induction_on_children generalizing index with
  | step node ih =>
    by_cases branch : node.children = []
    · obtain ⟨only, rfl⟩ := children_eq_nil_iff.mp branch
      exact congrArg Except.ok (List.mem_singleton.mp (List.mem_of_getElem? there)).symm
    · obtain ⟨cut, falls, -, looked⟩ | ⟨beyond, -⟩ := lookup_cases branch index
      · obtain ⟨-, same⟩ := falls.same_element fun child mem => exact.of_mem_children mem
        have mem : cut.node ∈ node.children := by simp [falls.nodes_eq]
        rw [elements_children branch, there] at same
        rw [looked, ih cut.node mem (exact.of_mem_children mem) same]
      · rw [exact.cachedSum_children branch, exact.toNat_size] at beyond
        exact absurd (List.getElem?_eq_some_iff.mp there).1 (Nat.not_lt.mpr beyond)

theorem SizesExact.lookup_of_le (exact : node.SizesExact) (branch : node.children ≠ [])
    (past : node.size ≤ index) :
    Location.find node.children index = .error (.beyondNodes index) ∧
      node.lookup index = .error (.beyondNodes index) := by
  obtain ⟨cut, falls, -⟩ | ⟨-, failed⟩ := lookup_cases branch index
  · have inside := falls.lt_cachedSum
    rw [exact.cachedSum_children branch] at inside
    exact absurd (UInt64.le_iff_toNat_le.mp past) (Nat.not_le.mpr inside)
  · exact failed

/-- A lookup answers with the leaf that stands at the index, and fails only at its first branch, naming that index. -/
theorem lookup_fails_at_top_only (exact : node.SizesExact) (index : UInt64) :
    (∀ element, node = .leaf element → node.lookup index = .ok element) ∧
    (node.children ≠ [] →
      (index < node.size → ∃ inside : index.toNat < node.toList.length,
        node.lookup index = .ok node.toList[index.toNat] ∧
          ∃ offset, Relation.TransGen Turn (node, index) (.leaf node.toList[index.toNat], offset)) ∧
      (node.size ≤ index → Location.find node.children index = .error (.beyondNodes index) ∧
        node.lookup index = .error (.beyondNodes index) ∧
        (Fault.beyondNodes index).message = s!"index {index} lies beyond the nodes it was located in")) ∧
    ∀ inner offset, Relation.TransGen Turn (node, index) (inner, offset) →
      (inner.children ≠ [] → ∃ place, Location.find inner.children offset = .ok place) ∧
        ∃ element, inner.lookup offset = .ok element ∧ node.lookup index = .ok element := by
  refine ⟨?_, fun branch => ⟨fun inside => ?_, fun past => ?_⟩, fun inner offset way => ?_⟩
  · rintro element rfl
    rfl
  · have inside : index.toNat < node.toList.length := exact.toNat_size ▸ UInt64.lt_iff_toNat_lt.mp inside
    have found := exact.lookup (List.getElem?_eq_getElem inside)
    exact ⟨inside, found, turns_of_lookup branch found⟩
  · obtain ⟨missed, failed⟩ := exact.lookup_of_le branch past
    exact ⟨missed, failed, rfl⟩
  · obtain ⟨exact', within, same⟩ := exact.turns way
    have there := List.getElem?_eq_getElem within
    refine ⟨fun branch => ?_, _, exact'.lookup there, exact.lookup (same.symm.trans there)⟩
    obtain ⟨cut, -, found, -⟩ | ⟨beyond, -⟩ := lookup_cases branch offset
    · exact ⟨_, found⟩
    · rw [exact'.cachedSum_children branch, exact'.toNat_size] at beyond
      exact absurd within (Nat.not_lt.mpr beyond)

end

theorem lookup_uneven :
    let inner : Node Nat := .triple (.pair (.leaf 1) (.leaf 2)) (.leaf 3) (.leaf 4)
    let node : Node Nat := .pair (.leaf 0) inner
    node.SizesExact ∧ node.children ≠ [] ∧ (2 : UInt64) < node.size ∧ node.lookup 2 = .ok 2 ∧
      Relation.TransGen Turn (node, 2) (inner, 1) ∧ inner.lookup 1 = .ok 2 ∧
      node.size ≤ 5 ∧ node.lookup 5 = .error (.beyondNodes 5) ∧
      (Node.leaf 7 : Node Nat).SizesExact ∧ (Node.leaf 7 : Node Nat).lookup 5 = .ok 7 := by
  intro inner node
  have exact : node.SizesExact := by decide
  have branch : node.children ≠ [] := by decide
  have within : (2 : UInt64) < node.size := by decide
  have past : node.size ≤ 5 := by decide
  have leaf : (Node.leaf 7 : Node Nat).SizesExact := by decide
  have located : Location.find node.children 2 = .ok ⟨1, 1⟩ := by rfl
  have way : Relation.TransGen Turn (node, 2) (inner, 1) := .single ⟨⟨1, 1⟩, located, rfl, rfl⟩
  obtain ⟨-, branches, below⟩ := lookup_fails_at_top_only exact 2
  obtain ⟨-, branches', -⟩ := lookup_fails_at_top_only exact 5
  obtain ⟨leaves, -, -⟩ := lookup_fails_at_top_only leaf 5
  obtain ⟨_, answered, _⟩ := (branches branch).1 within
  obtain ⟨-, element, met, same⟩ := below inner 1 way
  obtain ⟨-, failed, -⟩ := (branches' branch).2 past
  have agreed : element = 2 := by
    rw [answered] at same
    exact (Except.ok.inj same).symm
  exact ⟨exact, branch, within, answered, way, agreed ▸ met, past, failed, leaf, leaves 7 rfl⟩

end Node

end IndexedSequence
