import IndexedSequence.Json.Basic

set_option autoImplicit false

namespace IndexedSequence.Json

/-- What takes an array down, with what it has taken so far in `σ`. The monad is where it may refuse to. -/
structure ArrayWriter (m : Type → Type) (σ ρ : Type) where
  start (announced : Option UInt64) : m σ
  item (taken : σ) (value : Json) : m σ
  finish (taken : σ) : m ρ

def ArrayWriter.collecting : ArrayWriter Id (List Json) Json where
  start _ := []
  item taken value := value :: taken
  finish taken := .array taken.reverse

def ArrayWriter.run {m : Type → Type} {σ ρ : Type} [Monad m] (writer : ArrayWriter m σ ρ)
    (announced : Option UInt64) (items : List Json) : m ρ := do
  let opened ← writer.start announced
  let taken ← items.foldlM writer.item opened
  writer.finish taken

theorem ArrayWriter.run_collecting (announced : Option UInt64) (items : List Json) :
    (collecting.run announced items).run = .array items := by
  have taken : items.foldl (fun taken value => value :: taken) [] = items.reverse := by
    rw [List.foldl_flip_cons_eq_append', List.append_nil]
  change Json.array (List.foldlM _ _ items : Id (List Json)).run.reverse = _
  rw [List.idRun_foldlM]
  change Json.array (items.foldl (fun taken value => value :: taken) []).reverse = _
  rw [taken, List.reverse_reverse]

end IndexedSequence.Json
