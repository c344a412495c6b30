import IndexedSequence.Proofs.Outcome
import IndexedSequence.Traversal.Cursor
import Mathlib.Data.List.Forall2

set_option autoImplicit false

namespace IndexedSequence

variable {α β σ : Type}

/-- A queue as it is met from one of its sides. -/
def Side.arrange : Side → List α → List α
  | near, queue => queue
  | far, queue => queue.reverse

@[simp]
theorem Side.arrange_nil (side : Side) : side.arrange ([] : List α) = [] := by
  cases side <;> rfl

@[simp]
theorem Side.arrange_arrange (side : Side) (queue : List α) :
    side.arrange (side.arrange queue) = queue := by
  cases side with
  | near => rfl
  | far => exact queue.reverse_reverse

theorem Side.eq_nil_of_arrange (side : Side) {queue : List α} (empty : side.arrange queue = []) :
    queue = [] := by
  rw [← side.arrange_arrange queue, empty, side.arrange_nil]

@[simp]
theorem Side.length_arrange (side : Side) (queue : List α) :
    (side.arrange queue).length = queue.length := by
  cases side with
  | near => rfl
  | far => exact queue.length_reverse

namespace CursorRequest

def queued (queue : List α) : CursorRequest → CursorReply α × List α
  | nth side count =>
    (.element (side.arrange queue)[count.toNat]?,
      side.arrange ((side.arrange queue).drop (count.toNat + 1)))
  | collect side count =>
    (.elements ((side.arrange queue).take count.toNat),
      side.arrange ((side.arrange queue).drop count.toNat))
  | rest side => (.elements (side.arrange queue), [])
  | fork side => (.elements (side.arrange queue), queue)
  | remaining => (.remaining (.ofNat queue.length), queue)
  | bounds => (.bounds (.ofNat queue.length) (.ofNat queue.length), queue)

/-- The replies of a queue to requests in turn, each with the queue that is left. -/
def queuedCourse (queue : List α) : List CursorRequest → List (CursorReply α × List α)
  | [] => []
  | request :: later => request.queued queue :: queuedCourse (request.queued queue).2 later

/-- All the replies of a course, and what the last of them leaves of what it began with. -/
def ended (start : β) (steps : List (CursorReply α × β)) : List (CursorReply α) × β :=
  (steps.map Prod.fst, (steps.map Prod.snd).getLastD start)

theorem ended_cons (start : β) (step : CursorReply α × β) (steps : List (CursorReply α × β)) :
    ended start (step :: steps) = (step.1 :: (ended step.2 steps).1, (ended step.2 steps).2) := by
  rw [ended, List.map_cons, List.map_cons, List.getLastD_cons, ended]

def queuedAll (queue : List α) (requests : List CursorRequest) : List (CursorReply α) × List α :=
  ended queue (queuedCourse queue requests)

def follow [Cursor σ α] (cursor : σ) (requests : List CursorRequest) : Except Fault (List (CursorReply α) × σ) :=
  ended cursor <$> course cursor requests

theorem queued_nil (request : CursorRequest) :
    (request.queued ([] : List α)).2 = [] ∧
      ∀ element, (request.queued ([] : List α)).1 ≠ .element (some element) := by
  cases request <;> simp [queued]

theorem element_notMem_queuedAll_nil (requests : List CursorRequest) (element : α) :
    CursorReply.element (some element) ∉ (queuedAll ([] : List α) requests).1 := by
  induction requests with
  | nil => exact List.not_mem_nil
  | cons request later ih =>
    obtain ⟨empty, nothing⟩ := request.queued_nil (α := α)
    rw [queuedAll, queuedCourse, empty, ended_cons, empty, List.mem_cons, not_or]
    exact ⟨Ne.symm (nothing element), ih⟩

end CursorRequest

/-- A view of cursors as queues that every single step respects, queues being short enough for their lengths
to be counted. -/
structure Cursor.Queues (σ : Type) [Cursor σ α] (shows : σ → List α → Prop) : Prop where
  bounded {cursor : σ} {queue : List α} : shows cursor queue → queue.length < UInt64.size
  remaining_eq {cursor : σ} {queue : List α} :
    shows cursor queue → Cursor.remaining cursor = .ofNat queue.length
  take_none {cursor : σ} (side : Side) : shows cursor [] → take side cursor = .ok none
  take_some {cursor : σ} {queue rest : List α} {side : Side} {element : α} :
    shows cursor queue → side.arrange queue = element :: rest →
      ∃ moved, take side cursor = .ok (some (element, moved)) ∧ shows moved (side.arrange rest)

/-- Step by step the same replies, and cursors that show the queues that are left. -/
def Cursor.Paired (shows : σ → List α → Prop) :
    List (CursorReply α × σ) → List (CursorReply α × List α) → Prop :=
  List.Forall₂ fun step queued => step.1 = queued.1 ∧ shows step.2 queued.2

namespace Cursor.Queues

variable [Cursor σ α] {shows : σ → List α → Prop}

theorem take_eq_none_iff (queues : Cursor.Queues σ shows) {cursor : σ} {queue : List α}
    (h : shows cursor queue) (side : Side) : take side cursor = .ok none ↔ queue = [] := by
  constructor
  · intro nothing
    cases met : side.arrange queue with
    | nil => exact side.eq_nil_of_arrange met
    | cons element rest =>
      obtain ⟨moved, taken, -⟩ := queues.take_some h met
      rw [taken] at nothing
      cases nothing
  · rintro rfl
    exact queues.take_none side h

theorem nth_nil (queues : Cursor.Queues σ shows) {cursor : σ} (h : shows cursor []) (side : Side)
    (count : Nat) : Cursor.nth side count cursor = .ok (none, cursor) := by
  cases count with
  | zero | succ count =>
    rw [Cursor.nth, queues.take_none side h]
    rfl

theorem nth (queues : Cursor.Queues σ shows) {cursor : σ} {queue : List α} (h : shows cursor queue)
    (side : Side) (count : Nat) :
    ∃ moved, Cursor.nth side count cursor = .ok ((side.arrange queue)[count]?, moved) ∧
      shows moved (side.arrange ((side.arrange queue).drop (count + 1))) := by
  induction count generalizing cursor queue with
  | zero =>
    cases met : side.arrange queue with
    | nil =>
      obtain rfl := side.eq_nil_of_arrange met
      exact ⟨cursor, queues.nth_nil h side 0, by simpa using h⟩
    | cons element rest =>
      obtain ⟨moved, taken, hmoved⟩ := queues.take_some h met
      refine ⟨moved, ?_, by simpa using hmoved⟩
      rw [Cursor.nth, taken]
      rfl
  | succ count ih =>
    cases met : side.arrange queue with
    | nil =>
      obtain rfl := side.eq_nil_of_arrange met
      exact ⟨cursor, queues.nth_nil h side (count + 1), by simpa using h⟩
    | cons element rest =>
      obtain ⟨moved, taken, hmoved⟩ := queues.take_some h met
      obtain ⟨final, dropped, hfinal⟩ := ih hmoved
      rw [side.arrange_arrange] at dropped hfinal
      refine ⟨final, ?_, hfinal⟩
      rw [Cursor.nth, taken, ok_bind]
      exact dropped

theorem collectOnto (queues : Cursor.Queues σ shows) {cursor : σ} {queue : List α}
    (h : shows cursor queue) (side : Side) (read : List α) (count : Nat) :
    ∃ moved, Cursor.collectOnto side read count cursor =
        .ok (read.reverse ++ (side.arrange queue).take count, moved) ∧
      shows moved (side.arrange ((side.arrange queue).drop count)) := by
  induction count generalizing cursor queue read with
  | zero => exact ⟨cursor, by simp [Cursor.collectOnto], by simpa using h⟩
  | succ count ih =>
    cases met : side.arrange queue with
    | nil =>
      obtain rfl := side.eq_nil_of_arrange met
      refine ⟨cursor, ?_, by simpa using h⟩
      rw [Cursor.collectOnto, queues.take_none side h]
      simp
    | cons element rest =>
      obtain ⟨moved, taken, hmoved⟩ := queues.take_some h met
      obtain ⟨final, collected, hfinal⟩ := ih hmoved (element :: read)
      rw [side.arrange_arrange] at collected hfinal
      refine ⟨final, ?_, hfinal⟩
      rw [Cursor.collectOnto, taken, ok_bind]
      simpa using collected

theorem rest (queues : Cursor.Queues σ shows) {cursor : σ} {queue : List α} (h : shows cursor queue)
    (side : Side) :
    ∃ moved, Cursor.rest side cursor = .ok (side.arrange queue, moved) ∧ shows moved [] := by
  obtain ⟨moved, collected, hmoved⟩ := queues.collectOnto h side [] queue.length
  rw [← side.length_arrange queue, List.take_length] at collected
  rw [← side.length_arrange queue, List.drop_length, side.arrange_nil] at hmoved
  refine ⟨moved, ?_, hmoved⟩
  rw [Cursor.rest, queues.remaining_eq h, UInt64.toNat_ofNat_of_lt' (queues.bounded h),
    ← side.length_arrange queue]
  exact collected

theorem answer (queues : Cursor.Queues σ shows) {cursor : σ} {queue : List α} (h : shows cursor queue)
    (request : CursorRequest) :
    ∃ moved, request.answer cursor = .ok ((request.queued queue).1, moved) ∧
      shows moved (request.queued queue).2 := by
  cases request with
  | nth side count =>
    obtain ⟨moved, found, hmoved⟩ := queues.nth h side count.toNat
    refine ⟨moved, ?_, hmoved⟩
    rw [CursorRequest.answer, found]
    rfl
  | collect side count =>
    obtain ⟨moved, collected, hmoved⟩ := queues.collectOnto h side [] count.toNat
    refine ⟨moved, ?_, hmoved⟩
    rw [CursorRequest.answer, Cursor.collect, collected]
    rfl
  | rest side =>
    obtain ⟨moved, collected, hmoved⟩ := queues.rest h side
    refine ⟨moved, ?_, hmoved⟩
    rw [CursorRequest.answer, collected]
    rfl
  | fork side =>
    obtain ⟨moved, collected, -⟩ := queues.rest h side
    refine ⟨cursor, ?_, h⟩
    rw [CursorRequest.answer, collected]
    rfl
  | remaining => exact ⟨cursor, by rw [CursorRequest.answer, queues.remaining_eq h]; rfl, h⟩
  | bounds => exact ⟨cursor, by rw [CursorRequest.answer, queues.remaining_eq h]; rfl, h⟩

theorem course (queues : Cursor.Queues σ shows) {cursor : σ} {queue : List α} (h : shows cursor queue)
    (requests : List CursorRequest) :
    ∃ steps, CursorRequest.course cursor requests = .ok steps ∧
      Cursor.Paired shows steps (CursorRequest.queuedCourse queue requests) := by
  induction requests generalizing cursor queue with
  | nil => exact ⟨[], rfl, .nil⟩
  | cons request later ih =>
    obtain ⟨moved, answered, hmoved⟩ := queues.answer h request
    obtain ⟨steps, gone, paired⟩ := ih hmoved
    refine ⟨((request.queued queue).1, moved) :: steps, ?_, .cons ⟨rfl, hmoved⟩ paired⟩
    rw [CursorRequest.course, answered, ok_bind, gone]
    rfl

omit [Cursor σ α] in
theorem ended {steps : List (CursorReply α × σ)} {queued : List (CursorReply α × List α)}
    (paired : Cursor.Paired shows steps queued)
    {cursor : σ} {queue : List α} (h : shows cursor queue) :
    (CursorRequest.ended cursor steps).1 = (CursorRequest.ended queue queued).1 ∧
      shows (CursorRequest.ended cursor steps).2 (CursorRequest.ended queue queued).2 := by
  induction paired generalizing cursor queue with
  | nil => exact ⟨rfl, h⟩
  | cons same _ ih =>
    obtain ⟨replies, left⟩ := ih same.2
    rw [CursorRequest.ended_cons, CursorRequest.ended_cons]
    exact ⟨congrArg₂ _ same.1 replies, left⟩

theorem follow (queues : Cursor.Queues σ shows) {cursor : σ} {queue : List α} (h : shows cursor queue)
    (requests : List CursorRequest) :
    ∃ moved, CursorRequest.follow cursor requests =
        .ok ((CursorRequest.queuedAll queue requests).1, moved) ∧
      shows moved (CursorRequest.queuedAll queue requests).2 := by
  obtain ⟨steps, gone, paired⟩ := queues.course h requests
  obtain ⟨replies, left⟩ := ended paired h
  refine ⟨(CursorRequest.ended cursor steps).2, ?_, left⟩
  rw [CursorRequest.follow, gone, map_ok, CursorRequest.queuedAll, ← replies]

theorem answerAll (queues : Cursor.Queues σ shows) {cursor : σ} {queue : List α}
    (h : shows cursor queue) (requests : List CursorRequest) :
    CursorRequest.answerAll cursor requests = .ok (CursorRequest.queuedAll queue requests).1 := by
  obtain ⟨steps, gone, paired⟩ := queues.course h requests
  rw [CursorRequest.answerAll, gone, map_ok]
  exact congrArg Except.ok (ended paired h).1

end Cursor.Queues

end IndexedSequence
