import IndexedSequence.Proofs.Outcome
import IndexedSequence.Tree.Parts

set_option autoImplicit false

namespace IndexedSequence

variable {α : Type}

theorem Node.cachedSum_cons (node : Node α) (rest : List (Node α)) :
    cachedSum (node :: rest) = node.size.toNat + cachedSum rest := rfl

theorem Node.cachedSum_append (front back : List (Node α)) :
    cachedSum (front ++ back) = cachedSum front + cachedSum back := by
  induction front with
  | nil => exact (Nat.zero_add _).symm
  | cons node rest ih => rw [List.cons_append, cachedSum_cons, cachedSum_cons, ih, Nat.add_assoc]

/-- The cached sizes before the position make up what the offset leaves of the index, and the offset is below the
cached size of the node there. -/
structure Location.Marks (nodes : List (Node α)) (index : UInt64) (place : Location) : Prop where
  passed : Node.cachedSum (nodes.take place.position) + place.offset.toNat = index.toNat
  within : ∃ node, nodes[place.position]? = some node ∧ place.offset < node.size

namespace Cut

def place (cut : Cut (List (Node α)) α) : Location :=
  ⟨cut.before.length, cut.offset⟩

structure FallsAt (nodes : List (Node α)) (index : UInt64) (cut : Cut (List (Node α)) α) : Prop where
  nodes_eq : nodes = cut.before ++ cut.node :: cut.after
  passed : Node.cachedSum cut.before + cut.offset.toNat = index.toNat
  within : cut.offset < cut.node.size

namespace FallsAt

variable {nodes rest : List (Node α)} {node : Node α} {index : UInt64} {cut cut' : Cut (List (Node α)) α}

theorem head (inside : index < node.size) : FallsAt (node :: rest) index ⟨[], node, index, rest⟩ :=
  ⟨rfl, Nat.zero_add _, inside⟩

theorem cons (past : node.size ≤ index) (h : cut.FallsAt rest (index - node.size)) :
    FallsAt (node :: rest) index { cut with before := node :: cut.before } where
  nodes_eq := congrArg (node :: ·) h.nodes_eq
  passed := by
    have le := UInt64.le_iff_toNat_le.mp past
    have passed := h.passed
    rw [UInt64.toNat_sub_of_le _ _ past] at passed
    change Node.cachedSum (node :: cut.before) + cut.offset.toNat = index.toNat
    rw [Node.cachedSum_cons]
    omega
  within := h.within

theorem lt_cachedSum (h : cut.FallsAt nodes index) : index.toNat < Node.cachedSum nodes := by
  have passed := h.passed
  have within := UInt64.lt_iff_toNat_lt.mp h.within
  rw [h.nodes_eq, Node.cachedSum_append, Node.cachedSum_cons]
  omega

/-- No cut of the same run at the same index is further along, or it would have passed a whole node. -/
theorem eq_of_further (h : cut.FallsAt nodes index) (h' : cut'.FallsAt nodes index)
    {between : List (Node α)} (further : cut'.before = cut.before ++ between)
    (same : cut.node :: cut.after = between ++ cut'.node :: cut'.after) : cut' = cut := by
  have passed := h.passed
  have passed' := h'.passed
  rw [further, Node.cachedSum_append] at passed'
  cases between with
  | nil =>
    obtain ⟨sameNode, sameAfter⟩ := List.cons.inj same
    have sameOffset : cut'.offset = cut.offset := UInt64.toNat_inj.mp (by
      change Node.cachedSum cut.before + 0 + _ = _ at passed'
      omega)
    cases cut
    cases cut'
    simp_all
  | cons node more =>
    obtain ⟨rfl, -⟩ := List.cons.inj same
    have within := UInt64.lt_iff_toNat_lt.mp h.within
    rw [Node.cachedSum_cons] at passed'
    omega

theorem unique (h : cut.FallsAt nodes index) (h' : cut'.FallsAt nodes index) : cut = cut' := by
  obtain ⟨between, further, same⟩ | ⟨between, further, same⟩ :=
    List.append_eq_append_iff.mp (h.nodes_eq.symm.trans h'.nodes_eq)
  · exact (h.eq_of_further h' further same).symm
  · exact h'.eq_of_further h further same

end FallsAt

end Cut

theorem Location.marks_iff {nodes : List (Node α)} {index : UInt64} {place : Location} :
    place.Marks nodes index ↔ ∃ cut : Cut (List (Node α)) α, cut.FallsAt nodes index ∧ cut.place = place := by
  constructor
  · rintro ⟨passed, node, there, within⟩
    obtain ⟨inside, rfl⟩ := List.getElem?_eq_some_iff.mp there
    refine ⟨⟨nodes.take place.position, nodes[place.position], place.offset,
      nodes.drop (place.position + 1)⟩, ⟨?_, passed, within⟩, ?_⟩
    · rw [List.getElem_cons_drop, List.take_append_drop]
    · rw [Cut.place, List.length_take, Nat.min_eq_left (Nat.le_of_lt inside)]
  · rintro ⟨cut, ⟨rfl, passed, within⟩, rfl⟩
    exact ⟨by rwa [Cut.place, List.take_left], cut.node, by simp [Cut.place], within⟩

section

variable [Arithmetic] [Arithmetic.Exact]

theorem minus_past_guard {β : Type} (index size : UInt64) (within : Except Fault β)
    (past : UInt64 → Except Fault β) :
    (if index < size then within else minus index size >>= past) =
      if index < size then within else past (index - size) := by
  by_cases inside : index < size
  · rw [if_pos inside, if_pos inside]
  · rw [if_neg inside, if_neg inside, minus_of_le (UInt64.not_lt.mp inside), ok_bind]

/-- The three walks meet where the index falls, or each of them ends past the last node. -/
theorem Cut.walks_cases (asked : UInt64) (nodes : List (Node α)) (index : UInt64) :
    (∃ cut : Cut (List (Node α)) α, cut.FallsAt nodes index ∧
      Location.findIn asked nodes index = .ok cut.place ∧ ofNodesIn asked nodes index = .ok cut ∧
      Digit.lookupIn asked nodes index = cut.node.lookup cut.offset) ∨
    Node.cachedSum nodes ≤ index.toNat ∧ Location.findIn asked nodes index = .error (.beyondNodes asked) ∧
      ofNodesIn asked nodes index = .error (.beyondNodes asked) ∧
      Digit.lookupIn asked nodes index = .error (.beyondDigit asked) := by
  induction nodes generalizing index with
  | nil => exact .inr ⟨Nat.zero_le _, rfl, rfl, rfl⟩
  | cons node rest ih =>
    rw [Location.findIn, ofNodesIn, Digit.lookupIn, minus_past_guard, minus_past_guard, minus_past_guard]
    by_cases inside : index < node.size
    · simp only [if_pos inside]
      exact .inl ⟨_, .head inside, rfl, rfl, rfl⟩
    · have past := UInt64.not_lt.mp inside
      simp only [if_neg inside]
      obtain ⟨cut, falls, found, made, looked⟩ | ⟨beyond, found, made, looked⟩ := ih (index - node.size)
      · rw [found, made, looked]
        exact .inl ⟨_, falls.cons past, rfl, rfl, rfl⟩
      · have le := UInt64.le_iff_toNat_le.mp past
        rw [UInt64.toNat_sub_of_le _ _ past] at beyond
        rw [found, made, looked]
        refine .inr ⟨?_, rfl, rfl, rfl⟩
        rw [Node.cachedSum_cons]
        omega

omit [Arithmetic.Exact] in
theorem Cut.ofNodesIn_nil_bind {β : Type} (asked index : UInt64)
    (next : Cut (List (Node α)) α → Except Fault β) :
    ofNodesIn asked [] index >>= next = .error (.beyondNodes asked) := rfl

theorem Cut.ofNodesIn_cons_bind {β : Type} (asked : UInt64) (node : Node α) (rest : List (Node α))
    (index : UInt64) (next : Cut (List (Node α)) α → Except Fault β) :
    ofNodesIn asked (node :: rest) index >>= next =
      if index < node.size then next ⟨[], node, index, rest⟩
      else ofNodesIn asked rest (index - node.size) >>= fun cut =>
        next { cut with before := node :: cut.before } := by
  rw [ofNodesIn, minus_past_guard]
  by_cases inside : index < node.size
  · rw [if_pos inside, if_pos inside, ok_bind]
  · rw [if_neg inside, if_neg inside]
    cases ofNodesIn asked rest (index - node.size) <;> rfl

namespace Location

variable {nodes : List (Node α)} {index : UInt64}

theorem find_eq_ok_iff {place : Location} : find nodes index = .ok place ↔ place.Marks nodes index := by
  rw [marks_iff, find]
  obtain ⟨cut, falls, found, -⟩ | ⟨beyond, found, -⟩ := Cut.walks_cases index nodes index
  · rw [found, Except.ok.injEq]
    constructor
    · exact fun same => ⟨cut, falls, same⟩
    · rintro ⟨cut', falls', rfl⟩
      rw [falls.unique falls']
  · rw [found]
    refine iff_of_false nofun ?_
    rintro ⟨cut, falls, -⟩
    exact Nat.not_le.mpr falls.lt_cachedSum beyond

theorem find_eq_error_iff {fault : Fault} :
    find nodes index = .error fault ↔ Node.cachedSum nodes ≤ index.toNat ∧ fault = .beyondNodes index := by
  rw [find]
  obtain ⟨cut, falls, found, -⟩ | ⟨beyond, found, -⟩ := Cut.walks_cases index nodes index
  · rw [found]
    exact iff_of_false nofun fun outside => Nat.not_le.mpr falls.lt_cachedSum outside.1
  · rw [found, Except.error.injEq, eq_comm]
    exact (and_iff_right beyond).symm

end Location

namespace Node

omit [Arithmetic] [Arithmetic.Exact] in
theorem children_eq_nil_iff {node : Node α} : node.children = [] ↔ ∃ element, node = .leaf element := by
  cases node <;> simp [children]

omit [Arithmetic] [Arithmetic.Exact] in
theorem induction_on_children {motive : Node α → Prop}
    (step : ∀ node, (∀ child ∈ node.children, motive child) → motive node) (node : Node α) : motive node := by
  induction node with
  | leaf element => exact step _ (by simp [children])
  | two size first second ihf ihs => exact step _ (by simp [children, ihf, ihs])
  | three size first second third ihf ihs iht => exact step _ (by simp [children, ihf, ihs, iht])

theorem lookup_branch {node : Node α} (branch : node.children ≠ []) (index : UInt64) :
    node.lookup index = Cut.ofNodes node.children index >>= fun cut => cut.node.lookup cut.offset := by
  cases node with
  | leaf element => exact absurd rfl branch
  | two | three =>
    simp only [lookup, children, Cut.ofNodes, minus_past_guard, Cut.ofNodesIn_nil_bind, Cut.ofNodesIn_cons_bind]

theorem lookup_cases {node : Node α} (branch : node.children ≠ []) (index : UInt64) :
    (∃ cut : Cut (List (Node α)) α, cut.FallsAt node.children index ∧
      Location.find node.children index = .ok cut.place ∧
      node.lookup index = cut.node.lookup cut.offset) ∨
    cachedSum node.children ≤ index.toNat ∧
      Location.find node.children index = .error (.beyondNodes index) ∧
      node.lookup index = .error (.beyondNodes index) := by
  rw [lookup_branch branch, Cut.ofNodes]
  obtain ⟨cut, falls, found, made, -⟩ | ⟨beyond, found, made, -⟩ := Cut.walks_cases index node.children index
  · exact .inl ⟨cut, falls, found, by rw [made, ok_bind]⟩
  · exact .inr ⟨beyond, found, by rw [made]; rfl⟩

/-- Wherever a lookup fails below a node, it is nodes that the index lies beyond, never a digit. -/
theorem beyondNodes_of_lookup {node : Node α} {index : UInt64} {fault : Fault}
    (failed : node.lookup index = .error fault) : ∃ offset, fault = .beyondNodes offset := by
  induction node using induction_on_children generalizing index with
  | step node ih =>
    by_cases branch : node.children = []
    · obtain ⟨element, rfl⟩ := children_eq_nil_iff.mp branch
      cases failed
    · obtain ⟨cut, falls, -, looked⟩ | ⟨-, -, looked⟩ := lookup_cases branch index
      · rw [looked] at failed
        exact ih cut.node (by simp [falls.nodes_eq]) failed
      · rw [looked] at failed
        exact ⟨index, (Except.error.inj failed).symm⟩

end Node

namespace Digit

theorem walks_cases (digit : Digit α) (index : UInt64) :
    (∃ cut : Cut (List (Node α)) α, cut.FallsAt digit.nodes index ∧
      Location.find digit.nodes index = .ok cut.place ∧ digit.split index = .ok cut ∧
      digit.lookup index = cut.node.lookup cut.offset) ∨
    ∃ fault, Location.find digit.nodes index = .error fault ∧ digit.split index = .error fault ∧
      digit.lookup index = .error (.beyondDigit index) := by
  obtain ⟨cut, falls, found, made, looked⟩ | ⟨-, found, made, looked⟩ :=
    Cut.walks_cases index digit.nodes index
  · exact .inl ⟨cut, falls, found, made, looked⟩
  · exact .inr ⟨_, found, made, looked⟩

theorem lookup_eq_beyondDigit_iff {digit : Digit α} {index asked : UInt64} :
    digit.lookup index = .error (.beyondDigit asked) ↔
      asked = index ∧ ∃ fault, Location.find digit.nodes index = .error fault := by
  obtain ⟨cut, -, found, -, looked⟩ | ⟨fault, found, -, looked⟩ := digit.walks_cases index
  · rw [looked, found]
    refine iff_of_false (fun failed => ?_) nofun
    obtain ⟨offset, same⟩ := Node.beyondNodes_of_lookup failed
    cases same
  · rw [looked, found]
    simp [eq_comm]

theorem split_eq_error_iff {digit : Digit α} {index : UInt64} {fault : Fault} :
    digit.split index = .error fault ↔ Location.find digit.nodes index = .error fault := by
  obtain ⟨cut, -, found, made, -⟩ | ⟨fault', found, made, -⟩ := digit.walks_cases index
  · rw [found, made]
    exact iff_of_false nofun nofun
  · rw [found, made]
    simp

/-- An index is located at the only place where the cached sizes put it, whatever they are; a digit is cut there, and
looks up what is there. -/
theorem walks_agree (nodes : List (Node α)) (digit : Digit α) (index : UInt64) :
    (∀ place, Location.find nodes index = .ok place ↔ place.Marks nodes index) ∧
    (∀ place other : Location, place.Marks nodes index → other.Marks nodes index → place = other) ∧
    (∀ fault, Location.find nodes index = .error fault ↔
      Node.cachedSum nodes ≤ index.toNat ∧ fault = .beyondNodes index) ∧
    (∀ fault, digit.split index = .error fault ↔ Location.find digit.nodes index = .error fault) ∧
    (∀ asked, digit.lookup index = .error (.beyondDigit asked) ↔
      asked = index ∧ ∃ fault, Location.find digit.nodes index = .error fault) ∧
    ∀ place, Location.find digit.nodes index = .ok place → ∃ before node after,
      digit.split index = .ok ⟨before, node, place.offset, after⟩ ∧
        before ++ node :: after = digit.nodes ∧ before.length = place.position ∧
        digit.get? place.position = some node ∧ digit.lookup index = node.lookup place.offset := by
  refine ⟨fun place => Location.find_eq_ok_iff, fun place other marked marked' => ?_,
    fun fault => Location.find_eq_error_iff, fun fault => split_eq_error_iff,
    fun asked => lookup_eq_beyondDigit_iff, fun place located => ?_⟩
  · rw [← Location.find_eq_ok_iff] at marked marked'
    exact Except.ok.inj (marked.symm.trans marked')
  · obtain ⟨cut, falls, found, made, looked⟩ | ⟨fault, found, -, -⟩ := digit.walks_cases index
    · obtain rfl : cut.place = place := Except.ok.inj (found.symm.trans located)
      refine ⟨cut.before, cut.node, cut.after, made, falls.nodes_eq.symm, rfl, ?_, looked⟩
      rw [get?, falls.nodes_eq]
      simp [Cut.place]
    · rw [found] at located
      cases located

end Digit

end

/-- The first node claims to be empty and is passed over; the third claims more than it has, and fails further in. -/
theorem Digit.miscounted_walks :
    let third : Node Nat := .three 5 (.leaf 5) (.leaf 6) (.leaf 7)
    let digit : Digit Nat := .four (.two 0 (.leaf 1) (.leaf 2)) (.two 2 (.leaf 3) (.leaf 4)) third (.leaf 8)
    Location.Marks digit.nodes 0 ⟨1, 0⟩ ∧ Location.find digit.nodes 0 = .ok ⟨1, 0⟩ ∧ digit.lookup 0 = .ok 3 ∧
      Location.find digit.nodes 6 = .ok ⟨2, 4⟩ ∧
      (∃ before after, digit.split 6 = .ok ⟨before, third, 4, after⟩ ∧ before.length = 2) ∧
      digit.lookup 6 = third.lookup 4 ∧ third.lookup 4 = .error (.beyondNodes 4) ∧
      Node.cachedSum digit.nodes ≤ 8 ∧ Location.find digit.nodes 8 = .error (.beyondNodes 8) ∧
      digit.split 8 = .error (.beyondNodes 8) ∧ digit.lookup 8 = .error (.beyondDigit 8) := by
  intro third digit
  have marked : Location.Marks digit.nodes 0 ⟨1, 0⟩ := ⟨rfl, .two 2 (.leaf 3) (.leaf 4), rfl, by decide⟩
  have beyond : Node.cachedSum digit.nodes ≤ 8 := by decide
  have sixth : Location.find digit.nodes 6 = .ok ⟨2, 4⟩ := by rfl
  obtain ⟨marks, -, -, -, -, first⟩ := digit.walks_agree digit.nodes 0
  obtain ⟨-, -, -, -, -, further⟩ := digit.walks_agree digit.nodes 6
  obtain ⟨-, -, ends, uncut, blamed, -⟩ := digit.walks_agree digit.nodes 8
  have located : Location.find digit.nodes 0 = .ok ⟨1, 0⟩ := (marks ⟨1, 0⟩).mpr marked
  have missed : Location.find digit.nodes 8 = .error (.beyondNodes 8) := (ends _).mpr ⟨beyond, rfl⟩
  obtain ⟨-, node, -, -, -, -, got, looked⟩ := first _ located
  obtain ⟨before, node', after, made, -, count, got', looked'⟩ := further _ sixth
  obtain rfl : Node.two 2 (.leaf 3) (.leaf 4) = node := Option.some.inj got
  obtain rfl : third = node' := Option.some.inj got'
  exact ⟨marked, located, looked, sixth, ⟨before, after, made, count⟩, looked', rfl, beyond, missed,
    (uncut _).mpr missed, (blamed _).mpr ⟨rfl, _, missed⟩⟩

end IndexedSequence
