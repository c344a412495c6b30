import IndexedSequence.Proofs.Auditing
import IndexedSequence.Proofs.Queue

/-!
Walks as queues. A stack is known by what it would give out if it were unfolded to the end, which is all of
the tree at first; of that, the elements still to come are a part that stands first, and what lies beyond
has been given out at the other side.
-/

set_option autoImplicit false

namespace IndexedSequence

variable {α : Type} {depth : Nat}

theorem End.flatMap_arrange {β : Type} (e : End) (run : List α) (f : α → List β) :
    (e.arrange run).flatMap (fun x => e.arrange (f x)) = e.arrange (run.flatMap f) := by
  cases e with
  | front => rfl
  | back => exact List.reverse_flatMap.symm

theorem End.length_arrange (e : End) (run : List α) : (e.arrange run).length = run.length := by
  cases e with
  | front => rfl
  | back => exact run.length_reverse

namespace Frame

theorem flatMap_parts (frame : Frame α) (unfolds : ∀ element, frame ≠ node (.leaf element)) :
    frame.parts.flatMap toList = frame.toList := by
  cases frame with
  | tree t =>
    cases t with
    | empty => rfl
    | single n => simp [parts, toList, Tree.toList]
    | deep size left middle right =>
      simp [parts, toList, Tree.toList, Digit.toList, Node.elements, List.flatMap_map, List.flatMap_append]
  | node n =>
    cases n with
    | leaf element => exact absurd rfl (unfolds element)
    | two size first second => simp [parts, toList, Node.children, Node.toList]
    | three size first second third => simp [parts, toList, Node.children, Node.toList]

/-- What a stack gives out from its end when it is unfolded all the way. -/
def given (e : End) (stack : List (Frame α)) : List α :=
  stack.flatMap fun frame => e.arrange frame.toList

theorem given_cons (e : End) (frame : Frame α) (rest : List (Frame α)) :
    given e (frame :: rest) = e.arrange frame.toList ++ given e rest := rfl

theorem given_append (e : End) (upper lower : List (Frame α)) :
    given e (upper ++ lower) = given e upper ++ given e lower :=
  List.flatMap_append

theorem given_parts (e : End) (frame : Frame α) (unfolds : ∀ element, frame ≠ node (.leaf element)) :
    given e (e.arrange frame.parts) = e.arrange frame.toList := by
  rw [given, e.flatMap_arrange, frame.flatMap_parts unfolds]

end Frame

/-- The next element of a stack is the first it has to give, and the rest is still there. -/
theorem advance_cases (e : End) (stack : List (Frame α)) :
    advance e stack = none ∧ Frame.given e stack = [] ∨
      ∃ element rest, advance e stack = some (element, rest) ∧
        Frame.given e stack = element :: Frame.given e rest := by
  fun_induction advance e stack with
  | case1 => exact .inl ⟨rfl, rfl⟩
  | case2 element rest =>
    refine .inr ⟨element, rest, rfl, ?_⟩
    cases e <;> rfl
  | case3 frame rest unfolds ih =>
    rwa [Frame.given_append, Frame.given_parts e frame fun element same => unfolds element same,
      ← Frame.given_cons] at ih

def Side.endFrom (near : End) : Side → End
  | .near => near
  | .far => near.opposite

def Side.other : Side → Side
  | .near => .far
  | .far => .near

theorem Side.eq_or_eq_other (side side' : Side) : side' = side ∨ side' = side.other := by
  cases side <;> cases side' <;> simp [Side.other]

theorem Side.endFrom_other (side : Side) (near : End) :
    side.other.endFrom near = (side.endFrom near).opposite := by
  cases side <;> cases near <;> rfl

theorem Side.arrange_other (side : Side) (run : List α) :
    side.other.arrange run = (side.arrange run).reverse := by
  cases side with
  | near => rfl
  | far => exact run.reverse_reverse.symm

namespace Walk

def stack (walk : Walk α) : End → List (Frame α)
  | .front => walk.front
  | .back => walk.back

def moved (walk : Walk α) (rest : List (Frame α)) : End → Walk α
  | .front => { walk with front := rest, remaining := walk.remaining - 1 }
  | .back => { walk with back := rest, remaining := walk.remaining - 1 }

theorem takeFrom_eq (walk : Walk α) (e : End) :
    walk.takeFrom e =
      if walk.remaining = 0 then none
      else (advance e (walk.stack e)).map fun (element, rest) => (element, walk.moved rest e) := by
  cases e <;> rfl

theorem stack_moved (walk : Walk α) (rest : List (Frame α)) (e : End) :
    (walk.moved rest e).stack e = rest := by
  cases e <;> rfl

theorem stack_moved_opposite (walk : Walk α) (rest : List (Frame α)) (e : End) :
    (walk.moved rest e).stack e.opposite = walk.stack e.opposite := by
  cases e <;> rfl

theorem remaining_moved (walk : Walk α) (rest : List (Frame α)) (e : End) :
    (walk.moved rest e).remaining = walk.remaining - 1 := by
  cases e <;> rfl

theorem near_moved (walk : Walk α) (rest : List (Frame α)) (e : End) :
    (walk.moved rest e).near = walk.near := by
  cases e <;> rfl

theorem take_eq (walk : Walk α) (side : Side) :
    Cursor.take side walk = .ok (walk.takeFrom (side.endFrom walk.near)) := by
  cases side <;> rfl

/-- The walk has just `queue` still to come, in its direction from `near`: on either side its stack gives these
elements first, and it counts them. -/
structure Shows (near : End) (walk : Walk α) (queue : List α) : Prop where
  near_eq : walk.near = near
  bounded : queue.length < UInt64.size
  counted : walk.remaining = .ofNat queue.length
  given (side : Side) :
    side.arrange queue <+: Frame.given (side.endFrom near) (walk.stack (side.endFrom near))

theorem shows_ofTree {tree : Tree α} (h : tree.WellFormed depth) (near : End) :
    (ofTree tree near).Shows near (near.arrange tree.toList) where
  near_eq := rfl
  bounded := by rw [near.length_arrange]; exact (Tree.wellFormed_iff.mp h).2
  counted := by rw [near.length_arrange]; exact (Tree.wellFormed_iff.mp h).1.size_eq
  given side := by
    cases near <;> cases side <;>
      simp [Side.arrange, Side.endFrom, End.arrange, End.opposite, ofTree, stack, Frame.given, Frame.toList]

variable {near : End} {walk : Walk α} {queue rest : List α}

theorem Shows.takeFrom_nil (h : walk.Shows near []) (e : End) : walk.takeFrom e = none := by
  rw [takeFrom_eq]
  exact if_pos h.counted

theorem Shows.takeFrom_cons (h : walk.Shows near queue) (side : Side) {element : α}
    (met : side.arrange queue = element :: rest) :
    ∃ stack, walk.takeFrom (side.endFrom near) = some (element, walk.moved stack (side.endFrom near)) ∧
      (walk.moved stack (side.endFrom near)).Shows near (side.arrange rest) := by
  have longer : queue.length = rest.length + 1 := by
    rw [← side.length_arrange queue, met, List.length_cons]
  have bounded := h.bounded
  obtain ⟨beyond, stands⟩ := h.given side
  rw [met] at stands
  obtain ⟨-, nothing⟩ | ⟨first, stack, advanced, unfolded⟩ :=
    advance_cases (side.endFrom near) (walk.stack (side.endFrom near))
  · rw [nothing] at stands
    cases stands
  rw [unfolded, List.cons_append, List.cons.injEq] at stands
  obtain ⟨rfl, stands⟩ := stands
  refine ⟨stack, ?_, ?_, ?_, ?_, ?_⟩
  · have counted : walk.remaining ≠ 0 := by
      intro zero
      have none := congrArg UInt64.toNat zero
      rw [h.counted, UInt64.toNat_ofNat_of_lt' bounded, longer] at none
      exact absurd none (Nat.succ_ne_zero _)
    rw [takeFrom_eq, if_neg counted, advanced]
    rfl
  · rw [near_moved, h.near_eq]
  · rw [side.length_arrange]
    omega
  · rw [remaining_moved, h.counted, longer, side.length_arrange, UInt64.ofNat_add]
    exact UInt64.add_sub_cancel _ _
  · intro side'
    obtain rfl | rfl := side.eq_or_eq_other side'
    · rw [stack_moved, Side.arrange_arrange]
      exact ⟨beyond, stands⟩
    · -- The other stack stays, and gives one element more than are still to come.
      have same := h.given side.other
      rw [side.arrange_other, met, List.reverse_cons] at same
      rw [side.endFrom_other, stack_moved_opposite, side.arrange_other, side.arrange_arrange,
        ← side.endFrom_other]
      exact (List.prefix_append _ _).trans same

theorem queues (near : End) : Cursor.Queues (Walk α) (Shows near) where
  bounded h := h.bounded
  remaining_eq h := h.counted
  take_none side h := by rw [take_eq, h.takeFrom_nil]
  take_some {walk _ _ side _} h met := by
    obtain ⟨stack, taken, hmoved⟩ := h.takeFrom_cons side met
    exact ⟨_, by rw [take_eq, h.near_eq, taken], hmoved⟩

theorem Shows.next_nil (h : walk.Shows near []) : walk.next = none :=
  h.takeFrom_nil walk.near

theorem Shows.next_cons {element : α} (h : walk.Shows near (element :: rest)) :
    ∃ moved, walk.next = some (element, moved) ∧ moved.Shows near rest := by
  obtain ⟨stack, taken, hmoved⟩ := h.takeFrom_cons .near rfl
  exact ⟨_, by rw [next, h.near_eq]; exact taken, hmoved⟩

theorem Shows.elementsOnto (h : walk.Shows near queue) (read : List α) :
    walk.elementsOnto read = read.reverse ++ queue := by
  induction queue generalizing walk read with
  | nil =>
    rw [Walk.elementsOnto, h.next_nil, List.append_nil]
  | cons element rest ih =>
    obtain ⟨moved, next, hmoved⟩ := h.next_cons
    rw [Walk.elementsOnto, next]
    simp [ih hmoved]

theorem Shows.elements (h : walk.Shows near queue) : walk.elements = queue :=
  h.elementsOnto []

/-- A walk of a well-formed tree answers any requests in any order as the queue of its elements does, and counts
exactly what is left. -/
theorem follows_queue {tree : Tree α} (h : tree.WellFormed depth) (near : End)
    (requests : List CursorRequest) :
    ∃ moved, CursorRequest.follow (ofTree tree near) requests =
        .ok ((CursorRequest.queuedAll (near.arrange tree.toList) requests).1, moved) ∧
      (Cursor.remaining moved).toNat =
        (CursorRequest.queuedAll (near.arrange tree.toList) requests).2.length ∧
      (∀ side, Cursor.take side moved = .ok none ↔
        (CursorRequest.queuedAll (near.arrange tree.toList) requests).2 = []) ∧
      ((CursorRequest.queuedAll (near.arrange tree.toList) requests).2 = [] →
        ∀ later, ∃ replies final, CursorRequest.follow moved later = .ok (replies, final) ∧
          ∀ element, CursorReply.element (some element) ∉ replies) := by
  obtain ⟨moved, followed, hmoved⟩ := (queues near).follow (shows_ofTree h near) requests
  refine ⟨moved, followed, toNat_ofNat_of_eq hmoved.counted hmoved.bounded,
    (queues near).take_eq_none_iff hmoved, ?_⟩
  intro empty later
  rw [empty] at hmoved
  obtain ⟨final, followed', -⟩ := (queues near).follow hmoved later
  exact ⟨_, final, followed', CursorRequest.element_notMem_queuedAll_nil later⟩

theorem follows_queue_until_met :
    ∃ moved, CursorRequest.follow
        (ofTree (.level (.two (.leaf 1) (.leaf 2)) (.single (.pair (.leaf 3) (.leaf 4)))
          (.one (.leaf 5))) .back)
        [.nth .near 0, .nth .far 1, .bounds, .nth .near 1, .nth .far 0] =
      .ok ([.element (some 5), .element (some 2), .bounds 2 2, .element (some 3), .element none], moved) ∧
      (Cursor.remaining moved : UInt64).toNat = 0 := by
  have wellFormed : (Tree.level (.two (.leaf 1) (.leaf 2)) (.single (.pair (.leaf 3) (.leaf 4)))
      (.one (.leaf (5 : Nat)))).WellFormed 0 := by
    decide
  obtain ⟨moved, followed, counted, -⟩ := follows_queue wellFormed .back
    [.nth .near 0, .nth .far 1, .bounds, .nth .near 1, .nth .far 0]
  exact ⟨moved, followed, counted⟩

end Walk

end IndexedSequence
