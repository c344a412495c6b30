import IndexedSequence.Proofs.Occurrence

set_option autoImplicit false

namespace IndexedSequence

variable {α σ : Type}

namespace CursorRequest

/-- What shows of one step: the reply, and the number of elements that are left to come. -/
def shown [Cursor σ α] (answered : CursorReply α × σ) : CursorReply α × UInt64 :=
  (answered.1, Cursor.remaining answered.2)

def queuedShown (queued : CursorReply α × List α) : CursorReply α × UInt64 := (queued.1, .ofNat queued.2.length)

end CursorRequest

theorem Cursor.Queues.map_shown [Cursor σ α] {shows : σ → List α → Prop} (queues : Cursor.Queues σ shows)
    {steps : List (CursorReply α × σ)} {queued : List (CursorReply α × List α)}
    (paired : Cursor.Paired shows steps queued) :
    steps.map CursorRequest.shown = queued.map CursorRequest.queuedShown := by
  induction paired with
  | nil => rfl
  | cons same _ ih =>
    rw [List.map_cons, List.map_cons, ih, CursorRequest.shown, CursorRequest.queuedShown, same.1,
      queues.remaining_eq same.2]

theorem Cursor.Queues.shows_of_mem {shows : σ → List α → Prop} {steps : List (CursorReply α × σ)}
    {queued : List (CursorReply α × List α)}
    (paired : Cursor.Paired shows steps queued)
    {step : CursorReply α × σ} (mem : step ∈ steps) : ∃ left, shows step.2 left := by
  induction paired with
  | nil => cases mem
  | cons same _ ih =>
    obtain rfl | later := List.mem_cons.mp mem
    · exact ⟨_, same.2⟩
    · exact ih later

/-- A walk and a drain of a sequence that has come about in any way reply the same, and have as many elements left
after every step. -/
theorem drain_shows_as_walk [Element α] [Arithmetic] [Json.Spelling] [Arithmetic.Exact] [Arithmetic.Modular]
    {program : List (Command α)} {s : Sequence α} (occurs : s.tree.OccursIn program)
    (bound : s.toList.length < UInt64.size) (requests : List CursorRequest) :
    Cursor.remaining (s.walk .front) = Cursor.remaining s.drain ∧
      ∃ walked drained, CursorRequest.course (s.walk .front) requests = .ok walked ∧
        CursorRequest.course s.drain requests = .ok drained ∧
        walked.map CursorRequest.shown = drained.map CursorRequest.shown ∧
        ∀ step ∈ drained, step.2.tree.WellFormed 0 := by
  have held : s.Holds s.toList := ⟨occurs.consistent, rfl⟩
  have walks := held.walk bound .front
  have drains := held.drain bound
  obtain ⟨walked, gone, paired⟩ := (Walk.queues .front).course walks requests
  obtain ⟨drained, gone', paired'⟩ := Drain.queues.course drains requests
  refine ⟨?_, walked, drained, gone, gone', ?_, ?_⟩
  · exact ((Walk.queues .front).remaining_eq walks).trans (Drain.queues.remaining_eq drains).symm
  · exact ((Walk.queues .front).map_shown paired).trans (Drain.queues.map_shown paired').symm
  · intro step mem
    obtain ⟨left, shows⟩ := Cursor.Queues.shows_of_mem paired' mem
    exact shows.wellFormed

theorem splitTwice_drain_shows_as_walk :
    let s := (Workspace.empty.run splitTwice).2.sequence "b"
    let requests : List CursorRequest :=
      [.nth .near 0, .nth .far 2, .nth .near 5, .nth .far 0, .nth .near 9, .bounds]
    s.toList.length = 14 ∧
      ∃ walked drained, CursorRequest.course (s.walk .front) requests = .ok walked ∧
        CursorRequest.course s.drain requests = .ok drained ∧
        walked.map CursorRequest.shown = drained.map CursorRequest.shown := by
  intro s requests
  have occurs : s.tree.OccursIn splitTwice := .kept "b"
  have long : s.toList.length = 14 := by decide +kernel
  have small : s.toList.length < UInt64.size := by
    rw [long]
    decide
  obtain ⟨-, walked, drained, gone, gone', same, -⟩ := drain_shows_as_walk occurs small requests
  exact ⟨long, walked, drained, gone, gone', same⟩

end IndexedSequence
