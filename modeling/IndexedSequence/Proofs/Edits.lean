import IndexedSequence.Proofs.Assembling

set_option autoImplicit false

namespace IndexedSequence

variable {α β γ : Type}

/-- What comes of asking `s` for something at a position: a value just when the position is admitted, and else
the position asked for and the size of `s` itself. -/
structure Sequence.AnswersIf (s : Sequence α) (index : UInt64) (admitted : Prop) (holds : β → Prop)
    (outcome : Except Failure β) : Prop where
  succeeds_iff : (∃ b, outcome = .ok b) ↔ admitted
  of_success : ∀ b, outcome = .ok b → holds b
  of_failure : ∀ failure, outcome = .error failure →
    ∃ error, failure = .outOfRange error ∧ error.index = index ∧ error.size.toNat = s.toList.length

theorem Sequence.AnswersIf.of_refines {s : Sequence α} {index : UInt64} {admitted : Prop} {holds : β → Prop}
    {outcome : Except Failure β} {related : β → γ → Prop} {listed : Except OutOfRange γ}
    (bound : s.toList.length < UInt64.size)
    (h : Refines related outcome (listed.mapError .outOfRange))
    (yes : admitted → ∃ c, listed = .ok c ∧ ∀ b, related b c → holds b)
    (no : ¬admitted → listed = Listed.refuse s.toList index) :
    s.AnswersIf index admitted holds outcome := by
  by_cases inside : admitted
  · obtain ⟨c, given, enough⟩ := yes inside
    rw [given] at h
    obtain ⟨b, made, hb⟩ := h.exists_of_ok
    subst made
    exact ⟨iff_of_true ⟨b, rfl⟩ inside, fun _ same => Except.ok.inj same ▸ enough b hb, nofun⟩
  · rw [no inside] at h
    have refused : outcome = .error (.outOfRange ⟨index, .ofNat s.toList.length⟩) := h.eq_of_error
    subst refused
    refine ⟨iff_of_false nofun inside, nofun, fun failure same => ?_⟩
    obtain rfl := Except.error.inj same
    exact ⟨_, rfl, rfl, UInt64.toNat_ofNat_of_lt' bound⟩

/-- What is put in at a position is what is taken out there. -/
theorem eraseIdx_take_cons_drop {xs : List α} {i : Nat} (inside : i ≤ xs.length) (x : α) :
    (xs.take i ++ x :: xs.drop i).eraseIdx i = xs := by
  have front : (xs.take i).length = i := List.length_take_of_le inside
  rw [List.eraseIdx_append_of_length_le (Nat.le_of_eq front), front, Nat.sub_self, List.eraseIdx_cons_zero,
    List.take_append_drop]

namespace Sequence.Holds

variable {s : Sequence α} {xs : List α} [Arithmetic] [Arithmetic.Exact]

theorem insertAt_of_le (h : s.Holds xs) (bound : xs.length < UInt64.size) {index : UInt64}
    (inside : index.toNat ≤ xs.length) (element : α) :
    ∃ grown, s.insertAt index element = .ok grown ∧
      grown.Holds (xs.take index.toNat ++ element :: xs.drop index.toNat) := by
  have inserted := h.insertAt bound index element
  rw [Listed.insertAt, if_pos inside] at inserted
  exact inserted.exists_of_ok

theorem removeAt_of_lt (h : s.Holds xs) (bound : xs.length < UInt64.size) {index : UInt64}
    (inside : index.toNat < xs.length) :
    ∃ rest, s.removeAt index = .ok rest ∧ rest.Holds (xs.eraseIdx index.toNat) := by
  have removed := h.removeAt bound index
  rw [Listed.removeAt, if_pos inside] at removed
  exact removed.exists_of_ok

theorem removeAt_insertAt (h : s.Holds xs) (bound : xs.length + 1 < UInt64.size) {index : UInt64}
    (inside : index.toNat ≤ xs.length) (element : α) :
    ∃ grown back, s.insertAt index element = .ok grown ∧ grown.removeAt index = .ok back ∧
      back.Holds xs := by
  obtain ⟨grown, inserted, hgrown⟩ := h.insertAt_of_le (by omega) inside element
  have longer : (xs.take index.toNat ++ element :: xs.drop index.toNat).length = xs.length + 1 := by
    rw [List.length_append, List.length_cons, ← Nat.add_assoc, ← List.length_append, List.take_append_drop]
  have within : index.toNat < (xs.take index.toNat ++ element :: xs.drop index.toNat).length := by omega
  obtain ⟨back, removed, hback⟩ := hgrown.removeAt_of_lt (by omega) within
  rw [eraseIdx_take_cons_drop inside] at hback
  exact ⟨grown, back, inserted, removed, hback⟩

end Sequence.Holds

/-- Every edit of a sequence at a position is the one of its list, and a position that the edit does not take is
refused. -/
theorem Sequence.edits_are_listed [Element α] [Arithmetic] [Json.Spelling] [Arithmetic.Exact] [Arithmetic.Modular]
    {program : List (Command α)} {s : Sequence α} (occurs : s.tree.OccursIn program)
    (bound : s.toList.length < UInt64.size) (index : UInt64) (element : α) :
    s.AnswersIf index (index.toNat < s.toList.length)
      (fun parts => parts.1.toList = s.toList.take index.toNat ∧
        s.toList[index.toNat]? = some parts.2.1 ∧
        parts.2.2.toList = s.toList.drop (index.toNat + 1)) (s.split index) ∧
    s.AnswersIf index (index.toNat < s.toList.length)
      (fun rest => rest.toList = s.toList.eraseIdx index.toNat) (s.removeAt index) ∧
    s.AnswersIf index (index.toNat < s.toList.length)
      (fun updated => updated.toList = s.toList.set index.toNat element) (s.update index element) ∧
    s.AnswersIf index (index.toNat ≤ s.toList.length)
      (fun halves => halves.1.toList = s.toList.take index.toNat ∧
        halves.2.toList = s.toList.drop index.toNat) (s.splitAt index) ∧
    s.AnswersIf index (index.toNat ≤ s.toList.length)
      (fun grown => grown.toList = s.toList.take index.toNat ++ element :: s.toList.drop index.toNat)
      (s.insertAt index element) ∧
    (index.toNat ≤ s.toList.length → s.toList.length + 1 < UInt64.size →
      ∃ grown back, s.insertAt index element = .ok grown ∧ grown.removeAt index = .ok back ∧
        back.toList = s.toList ∧ ((∀ x : α, (x == x) = true) → (back == s) = true)) := by
  have held : s.Holds s.toList := ⟨occurs.consistent, rfl⟩
  refine ⟨?_, ?_, ?_, ?_, ?_, ?_⟩
  · refine .of_refines bound (held.split bound index) (fun inside => ?_) Listed.split_of_not_lt
    refine ⟨_, Listed.split_of_lt inside, ?_⟩
    rintro ⟨before, found, after⟩ ⟨hb, same, ha⟩
    refine ⟨hb.toList_eq, ?_, ha.toList_eq⟩
    rw [List.getElem?_eq_getElem inside]
    exact congrArg some same.symm
  · exact .of_refines bound (held.removeAt bound index)
      (fun inside => ⟨_, if_pos inside, fun _ h => h.toList_eq⟩) fun outside => if_neg outside
  · exact .of_refines bound (held.update bound index element)
      (fun inside => ⟨_, if_pos inside, fun _ h => h.toList_eq⟩) fun outside => if_neg outside
  · exact .of_refines bound (held.splitAt bound index)
      (fun inside => ⟨_, if_pos inside, fun _ h => ⟨h.1.toList_eq, h.2.toList_eq⟩⟩)
      fun outside => if_neg outside
  · exact .of_refines bound (held.insertAt bound index element)
      (fun inside => ⟨_, if_pos inside, fun _ h => h.toList_eq⟩) fun outside => if_neg outside
  · intro inside small
    obtain ⟨grown, back, inserted, removed, hback⟩ := held.removeAt_insertAt small inside element
    exact ⟨grown, back, inserted, removed, hback.toList_eq, hback.equal_self held bound⟩

theorem splitTwice_edits :
    let s := (Workspace.empty.run splitTwice).2.sequence "b"
    s.tree.OccursIn splitTwice ∧ s.toList.length = 14 ∧
      (∃ halves, s.splitAt 14 = .ok halves ∧ halves.1.toList = s.toList ∧ halves.2.toList = []) ∧
      (∀ updated, s.update 14 0 ≠ .ok updated) ∧
      (∀ failure, s.update 14 0 = .error failure →
        ∃ error, failure = .outOfRange error ∧ error.index = 14 ∧ error.size.toNat = 14) ∧
      ∃ grown back, s.insertAt 14 0 = .ok grown ∧ grown.removeAt 14 = .ok back ∧ (back == s) = true := by
  intro s
  have occurs : s.tree.OccursIn splitTwice := .kept "b"
  have count : s.toList.length = 14 := by decide +kernel
  have bound : s.toList.length + 1 < UInt64.size := by
    rw [count]
    decide
  obtain ⟨-, -, updates, parts, -, restored⟩ :=
    Sequence.edits_are_listed occurs (Nat.lt_of_succ_lt bound) 14 0
  obtain ⟨halves, found⟩ := parts.succeeds_iff.mpr (Nat.le_of_eq count.symm)
  obtain ⟨before, after⟩ := parts.of_success halves found
  obtain ⟨grown, back, inserted, removed, -, equal⟩ := restored (Nat.le_of_eq count.symm) bound
  refine ⟨occurs, count, ⟨halves, found, ?_, ?_⟩, ?_, ?_, grown, back, inserted, removed, ?_⟩
  · rw [before]
    exact List.take_of_length_le (Nat.le_of_eq count)
  · rw [after]
    exact List.drop_of_length_le (Nat.le_of_eq count)
  · intro updated made
    have inside := updates.succeeds_iff.mp ⟨updated, made⟩
    rw [count] at inside
    exact absurd inside (by decide)
  · rw [← count]
    exact updates.of_failure
  · exact equal fun x => beq_self_eq_true x

end IndexedSequence
