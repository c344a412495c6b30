import IndexedSequence.Proofs.Gathering
import IndexedSequence.Proofs.Splitting
import IndexedSequence.Sequence.Positional
import IndexedSequence.Workspace.Run

set_option autoImplicit false

namespace IndexedSequence

variable {α : Type} {depth : Nat}

/-- What is left of the size of a tree after that of a node is taken away, whether or not it has wrapped. -/
theorem Tree.Consistent.sub_size {tree : Tree α} {node : Node α} {kept : Nat} (h : tree.Consistent depth)
    (hn : node.Consistent depth) (parts : tree.toList.length = node.toList.length + kept) :
    tree.size - node.size = .ofNat kept := by
  rw [h.size_eq, hn.size_eq, parts, ofNat_add_sub]

/-- What a pop gave, if it gave anything, is consistent on both sides. -/
def Tree.Parted (depth : Nat) (popped : Option (Node α × Tree α)) : Prop :=
  ∀ node rest, popped = some (node, rest) → node.Consistent depth ∧ rest.Consistent depth

theorem Tree.parted_none : Tree.Parted depth (none : Option (Node α × Tree α)) :=
  fun _ _ same => nomatch same

theorem Tree.parted_some {node : Node α} {rest : Tree α} (hn : node.Consistent depth)
    (hr : rest.Consistent depth) : Tree.Parted depth (some (node, rest)) := by
  intro node' rest' same
  cases same
  exact ⟨hn, hr⟩

theorem Node.Consistent.ensures_ofBranch {node : Node α} (h : node.Consistent (depth + 1)) :
    Ensures (Digit.Consistent depth) (Digit.ofBranch node) := by
  obtain ⟨digit, unpacked, -, hd⟩ := h.ofBranch
  rw [unpacked]
  exact .of_ok hd

theorem Tree.Parted.refillLeft {popped : Option (Node α × Tree α)} {right : Digit α}
    (h : Tree.Parted (depth + 1) popped) (hr : right.Consistent depth) :
    Ensures (Tree.Consistent depth) (Tree.refillLeft popped right) := by
  cases popped with
  | none => exact .of_ok (.ofDigit hr)
  | some parts =>
    obtain ⟨hb, hm⟩ := h parts.1 parts.2 rfl
    exact hb.ensures_ofBranch.bind fun left hl => .of_ok (.level hl hm hr)

theorem Tree.Parted.refillRight {popped : Option (Node α × Tree α)} {left : Digit α}
    (hl : left.Consistent depth) (h : Tree.Parted (depth + 1) popped) :
    Ensures (Tree.Consistent depth) (Tree.refillRight left popped) := by
  cases popped with
  | none => exact .of_ok (.ofDigit hl)
  | some parts =>
    obtain ⟨hb, hm⟩ := h parts.1 parts.2 rfl
    exact hb.ensures_ofBranch.bind fun right hr => .of_ok (.level hl hm hr)

section

variable [Arithmetic] [Arithmetic.Modular]

theorem ensures_minus (a b : UInt64) : Ensures (· = a - b) (minus a b) :=
  fun _ given => eq_sub_of_minus given

theorem Tree.Consistent.ensures_popFront {tree : Tree α} (h : tree.Consistent depth) :
    Ensures (Tree.Parted depth) tree.popFront := by
  induction tree generalizing depth with
  | empty => exact .of_ok parted_none
  | single node => exact .of_ok (parted_some h trivial)
  | deep size left middle right ih =>
    obtain ⟨hl, hm, hr, -⟩ := id h
    rw [popFront]
    obtain ⟨node, rfl⟩ | ⟨node, digit, popped, same⟩ := left.popFront_cases
    · have hn : node.Consistent depth := hl node List.mem_cons_self
      refine (ih hm).bind fun inner hinner => ?_
      exact (hinner.refillLeft hr).bind fun rest hrest => .of_ok (parted_some hn hrest)
    · rw [Digit.Consistent, same, List.forall_mem_cons] at hl
      rw [popped]
      refine (ensures_minus size node.size).bind fun kept hkept => .of_ok (parted_some hl.1 ?_)
      refine Tree.Consistent.deep hl.2 hm hr (hkept.trans (h.sub_size hl.1 ?_))
      simp only [toList, Digit.toList_eq, same, Node.elements_cons, List.length_append]
      omega

theorem Tree.Consistent.ensures_popBack {tree : Tree α} (h : tree.Consistent depth) :
    Ensures (Tree.Parted depth) tree.popBack := by
  induction tree generalizing depth with
  | empty => exact .of_ok parted_none
  | single node => exact .of_ok (parted_some h trivial)
  | deep size left middle right ih =>
    obtain ⟨hl, hm, hr, -⟩ := id h
    rw [popBack]
    obtain ⟨node, rfl⟩ | ⟨node, digit, popped, same⟩ := right.popBack_cases
    · have hn : node.Consistent depth := hr node List.mem_cons_self
      refine (ih hm).bind fun inner hinner => ?_
      exact (Parted.refillRight hl hinner).bind fun rest hrest => .of_ok (parted_some hn hrest)
    · rw [Digit.Consistent, same, List.forall_mem_append] at hr
      have hn : node.Consistent depth := hr.2 node List.mem_cons_self
      rw [popped]
      refine (ensures_minus size node.size).bind fun kept hkept => .of_ok (parted_some hn ?_)
      refine Tree.Consistent.deep hl hm hr.1 (hkept.trans (h.sub_size hn ?_))
      simp only [toList, Digit.toList_eq, same, Node.elements_append, Node.elements_cons,
        List.length_append]
      simp only [Node.elements, List.flatMap_nil, List.length_nil]
      omega

theorem Tree.Consistent.ensures_levelLeft {before : List (Node α)} {middle : Tree α} {right : Digit α}
    (hb : ∀ node ∈ before, node.Consistent depth) (short : before.length ≤ 4)
    (hm : middle.Consistent (depth + 1)) (hr : right.Consistent depth) :
    Ensures (Tree.Consistent depth) (Tree.levelLeft before middle right) := by
  rw [Tree.levelLeft]
  obtain ⟨rfl, nothing⟩ | ⟨left, found, rfl⟩ := Digit.ofNodes?_cases short
  · rw [nothing]
    exact hm.ensures_popFront.bind fun popped hp => hp.refillLeft hr
  · rw [found]
    exact .of_ok (.level hb hm hr)

theorem Tree.Consistent.ensures_levelRight {left : Digit α} {middle : Tree α} {after : List (Node α)}
    (hl : left.Consistent depth) (hm : middle.Consistent (depth + 1))
    (ha : ∀ node ∈ after, node.Consistent depth) (short : after.length ≤ 4) :
    Ensures (Tree.Consistent depth) (Tree.levelRight left middle after) := by
  rw [Tree.levelRight]
  obtain ⟨rfl, nothing⟩ | ⟨right, found, rfl⟩ := Digit.ofNodes?_cases short
  · rw [nothing]
    exact hm.ensures_popBack.bind fun popped hp => Parted.refillRight hl hp
  · rw [found]
    exact .of_ok (.level hl hm ha)

omit [Arithmetic.Modular] in
theorem Cut.ensures_ofNodesIn (asked : UInt64) (nodes : List (Node α)) (index : UInt64) :
    Ensures (fun cut => nodes = cut.before ++ cut.node :: cut.after) (ofNodesIn asked nodes index) := by
  induction nodes generalizing index with
  | nil => exact .of_error _
  | cons node rest ih =>
    rw [ofNodesIn]
    split
    · exact .of_ok rfl
    · refine Ensures.after fun past => (ih past).bind fun cut parts => .of_ok ?_
      exact congrArg (node :: ·) parts

def Cut.Parted (depth : Nat) (cut : Cut (Tree α) α) : Prop :=
  cut.before.Consistent depth ∧ cut.node.Consistent depth ∧ cut.after.Consistent depth

omit [Arithmetic.Modular] in
theorem Digit.Consistent.ensures_split {digit : Digit α} (h : digit.Consistent depth) (index : UInt64) :
    Ensures (fun cut => (∀ node ∈ cut.before, node.Consistent depth) ∧ cut.node.Consistent depth ∧
      (∀ node ∈ cut.after, node.Consistent depth) ∧ cut.before.length ≤ 4 ∧ cut.after.length ≤ 4)
      (digit.split index) := by
  refine (Cut.ensures_ofNodesIn index digit.nodes index).mono fun cut parts => ?_
  have short := digit.length_nodes_le
  rw [Digit.Consistent, parts, List.forall_mem_append, List.forall_mem_cons] at h
  rw [parts, List.length_append, List.length_cons] at short
  exact ⟨h.1, h.2.1, h.2.2, by omega, by omega⟩

def Cut.PartedIfAny (depth : Nat) (found : Option (Cut (Tree α) α)) : Prop :=
  ∀ cut, found = some cut → cut.Parted depth

omit [Arithmetic] [Arithmetic.Modular] in
theorem Cut.partedIfAny_none : PartedIfAny depth (none : Option (Cut (Tree α) α)) := by
  intro cut same
  cases same

omit [Arithmetic] [Arithmetic.Modular] in
theorem Cut.Parted.some {cut : Cut (Tree α) α} (h : cut.Parted depth) :
    PartedIfAny depth (some cut) := by
  intro cut' same
  cases same
  exact h

theorem Tree.Consistent.ensures_split {tree : Tree α} (h : tree.Consistent depth) (index : UInt64) :
    Ensures (Cut.PartedIfAny depth) (tree.split? index) := by
  induction tree generalizing depth index with
  | empty => exact .of_ok Cut.partedIfAny_none
  | single node =>
    rw [Tree.split?]
    split
    · exact .of_ok (Cut.Parted.some ⟨trivial, h, trivial⟩)
    · exact .of_ok Cut.partedIfAny_none
  | deep size left middle right ih =>
    obtain ⟨hl, hm, hr, -⟩ := h
    rw [Tree.split?]
    split
    case isFalse => exact .of_ok Cut.partedIfAny_none
    split
    · refine (hl.ensures_split index).bind ?_
      rintro cut ⟨hb, hn, ha, -, short⟩
      refine (ensures_levelLeft ha short hm hr).bind fun after hafter => .of_ok ?_
      exact Cut.Parted.some ⟨.build hb, hn, hafter⟩
    · refine Ensures.after fun pastLeft => ?_
      split
      · refine (ih hm pastLeft).bind fun found hfound => ?_
        cases found with
        | none => exact .of_ok Cut.partedIfAny_none
        | some outer =>
          obtain ⟨hob, hon, hoa⟩ := hfound outer rfl
          refine hon.ensures_ofBranch.bind fun digit hd => ?_
          refine (hd.ensures_split outer.offset).bind ?_
          rintro cut ⟨hb, hn, ha, short, short'⟩
          refine (ensures_levelRight hl hob hb short).bind fun before hbefore => ?_
          refine (ensures_levelLeft ha short' hoa hr).bind fun after hafter => .of_ok ?_
          exact Cut.Parted.some ⟨hbefore, hn, hafter⟩
      · refine Ensures.after fun pastMiddle => ?_
        refine (hr.ensures_split pastMiddle).bind ?_
        rintro cut ⟨hb, hn, ha, short, -⟩
        refine (ensures_levelRight hl hm hb short).bind fun before hbefore => .of_ok ?_
        exact Cut.Parted.some ⟨hbefore, hn, .build ha⟩

end

namespace Ensures

variable {β : Type} {holds : β → Prop}

theorem lift_fault {result : Except Fault β} (h : Ensures holds result) :
    Ensures holds (liftM result : Except Failure β) :=
  h.mapError

end Ensures

namespace Sequence

variable {s t : Sequence α}

def Parted (popped : Option (α × Sequence α)) : Prop :=
  ∀ element rest, popped = some (element, rest) → rest.tree.Consistent 0

theorem parted_map {popped : Option (Node α × Tree α)} (h : Tree.Parted 0 popped) (element : α) :
    Parted (popped.map fun (_, rest) => (element, Sequence.mk rest)) := by
  intro element' rest same
  obtain ⟨parts, rfl, made⟩ := Option.map_eq_some_iff.mp same
  cases made
  exact (h parts.1 parts.2 rfl).2

theorem ensures_concat (hs : s.tree.Consistent 0) (ht : t.tree.Consistent 0) :
    Ensures (fun u => u.tree.Consistent 0) (s.concat t) := by
  have held : s.Holds s.toList := ⟨hs, rfl⟩
  exact (Ensures.of_refines (held.concat ⟨ht, rfl⟩)).mono fun u hu => hu.consistent

theorem ensures_doubled (hs : s.tree.Consistent 0) (times : Nat) :
    Ensures (fun u => u.tree.Consistent 0) (s.doubled times) := by
  have held : s.Holds s.toList := ⟨hs, rfl⟩
  exact (Ensures.of_refines (held.doubled times)).mono fun u hu => hu.consistent

theorem ensures_concat_around (hs : s.tree.Consistent 0) (ht : t.tree.Consistent 0) (element : α) :
    Ensures (fun u => u.tree.Consistent 0)
      (do (← (s.concat (singleton element) : Except Fault _)).concat t : Except Failure (Sequence α)) :=
  have single : (singleton element).tree.Consistent 0 := Node.consistent_leaf element
  (ensures_concat hs single).lift_fault.bind fun _ hu => (ensures_concat hu ht).lift_fault

variable [Arithmetic]

theorem ensures_popFront [Arithmetic.Modular] (hs : s.tree.Consistent 0) :
    Ensures Parted s.popFront := by
  refine Ensures.after fun first => ?_
  cases first with
  | none => exact .of_ok fun _ _ same => nomatch same
  | some element => exact hs.ensures_popFront.bind fun popped hp => .of_ok (parted_map hp element)

theorem ensures_popBack [Arithmetic.Modular] (hs : s.tree.Consistent 0) :
    Ensures Parted s.popBack := by
  refine Ensures.after fun last => ?_
  cases last with
  | none => exact .of_ok fun _ _ same => nomatch same
  | some element => exact hs.ensures_popBack.bind fun popped hp => .of_ok (parted_map hp element)

variable [Arithmetic.Modular]

theorem ensures_split (hs : s.tree.Consistent 0) (index : UInt64) :
    Ensures (fun parts => parts.1.tree.Consistent 0 ∧ parts.2.2.tree.Consistent 0) (s.split index) := by
  refine Ensures.after fun element => ?_
  refine (hs.ensures_split index).lift_fault.bind fun found hfound => ?_
  cases found with
  | none => exact .of_error _
  | some cut => exact .of_ok ⟨(hfound cut rfl).1, (hfound cut rfl).2.2⟩

theorem ensures_splitAt (hs : s.tree.Consistent 0) (index : UInt64) :
    Ensures (fun halves => halves.1.tree.Consistent 0 ∧ halves.2.tree.Consistent 0)
      (s.splitAt index) := by
  rw [splitAt]
  split
  · exact .of_ok ⟨hs, trivial⟩
  · refine (hs.ensures_split index).lift_fault.bind fun found hfound => ?_
    cases found with
    | none => exact .of_error _
    | some cut =>
      obtain ⟨hb, hn, ha⟩ := hfound cut rfl
      exact .of_ok ⟨hb, ha.pushFront hn⟩

theorem ensures_insertAt (hs : s.tree.Consistent 0) (index : UInt64) (element : α) :
    Ensures (fun u => u.tree.Consistent 0) (s.insertAt index element) :=
  (ensures_splitAt hs index).bind fun _ h => ensures_concat_around h.1 h.2 element

theorem ensures_removeAt (hs : s.tree.Consistent 0) (index : UInt64) :
    Ensures (fun u => u.tree.Consistent 0) (s.removeAt index) :=
  (ensures_split hs index).bind fun _ h => (ensures_concat h.1 h.2).lift_fault

theorem ensures_update (hs : s.tree.Consistent 0) (index : UInt64) (element : α) :
    Ensures (fun u => u.tree.Consistent 0) (s.update index element) :=
  (ensures_split hs index).bind fun _ h => ensures_concat_around h.1 h.2 element

theorem ensures_slice (hs : s.tree.Consistent 0) (start stop : Bound) :
    Ensures (fun u => u.tree.Consistent 0) (s.slice start stop) := by
  refine Ensures.after fun first => Ensures.after fun last => ?_
  split
  · exact .of_error _
  split
  · exact .of_error _
  refine (ensures_splitAt hs first).bind fun halves h => ?_
  refine Ensures.after fun count => ?_
  exact (ensures_splitAt h.2 count).bind fun parts h' => .of_ok h'.1

end Sequence

namespace Cursor

variable {σ : Type} [Cursor σ α] {keeps : σ → Prop}

/-- Whatever a single step gives, it keeps what it had. -/
def Keeps (σ : Type) [Cursor σ α] (keeps : σ → Prop) : Prop :=
  ∀ side cursor, keeps cursor →
    Ensures (fun taken => ∀ element moved, taken = some (element, moved) → keeps moved)
      (take side cursor)

namespace Keeps

theorem nth (h : Keeps σ keeps) (side : Side) (count : Nat) {cursor : σ} (hc : keeps cursor) :
    Ensures (fun answered => keeps answered.2) (Cursor.nth side count cursor) := by
  induction count generalizing cursor with
  | zero =>
    refine (h side cursor hc).bind fun taken ht => ?_
    cases taken with
    | none => exact .of_ok hc
    | some next => exact .of_ok (ht next.1 next.2 rfl)
  | succ count ih =>
    refine (h side cursor hc).bind fun taken ht => ?_
    cases taken with
    | none => exact .of_ok hc
    | some next => exact ih (ht next.1 next.2 rfl)

theorem collectOnto (h : Keeps σ keeps) (side : Side) (read : List α) (count : Nat) {cursor : σ}
    (hc : keeps cursor) :
    Ensures (fun answered => keeps answered.2) (Cursor.collectOnto side read count cursor) := by
  induction count generalizing cursor read with
  | zero => exact .of_ok hc
  | succ count ih =>
    refine (h side cursor hc).bind fun taken ht => ?_
    cases taken with
    | none => exact .of_ok hc
    | some next => exact ih (next.1 :: read) (ht next.1 next.2 rfl)

theorem answer (h : Keeps σ keeps) {cursor : σ} (hc : keeps cursor) (request : CursorRequest) :
    Ensures (fun answered => keeps answered.2) (request.answer cursor) := by
  cases request with
  | nth side count => exact (h.nth side count.toNat hc).bind fun _ hm => .of_ok hm
  | collect side count => exact (h.collectOnto side [] count.toNat hc).bind fun _ hm => .of_ok hm
  | rest side => exact (h.collectOnto side [] _ hc).bind fun _ hm => .of_ok hm
  | fork side => exact Ensures.after fun _ => .of_ok hc
  | remaining | bounds => exact .of_ok hc

end Keeps

end Cursor

theorem Drain.keeps_consistent [Arithmetic] [Arithmetic.Modular] :
    Cursor.Keeps (Drain α) fun drain => drain.tree.Consistent 0 := by
  have taken_consistent : ∀ popped, Tree.Parted 0 popped →
      ∀ (element : α) moved, taken popped = some (element, moved) → moved.tree.Consistent 0 := by
    intro popped hp element moved same
    match popped, hp, same with
    | some (.leaf _, rest), hp, rfl => exact (hp _ rest rfl).2
  intro side drain h
  cases side with
  | near => exact Ensures.map (h.ensures_popFront.mono taken_consistent)
  | far => exact Ensures.map (h.ensures_popBack.mono taken_consistent)

end IndexedSequence
