import IndexedSequence.Proofs.Occurrence

set_option autoImplicit false

namespace IndexedSequence

variable {α : Type}

namespace Builder

inductive Action (α : Type) where
  | pushFront (element : α)
  | pushBack (element : α)
  | extend (elements : List α)
  | append (s : Sequence α)
  | prepend (s : Sequence α)
  | build

/-- What has been built at one stage, if anything has, and what is left to go on with. -/
structure Stage (ω σ : Type) where
  built : Option ω
  left : σ

def Stage.map {ω ω' σ σ' : Type} (f : ω → ω') (g : σ → σ') (stage : Stage ω σ) : Stage ω' σ' :=
  ⟨stage.built.map f, g stage.left⟩

def perform (b : Builder α) : Action α → Except Fault (Stage (Sequence α) (Builder α))
  | .pushFront element => return ⟨none, b.pushFront element⟩
  | .pushBack element => return ⟨none, b.pushBack element⟩
  | .extend elements => return ⟨none, b.extend elements⟩
  | .append s => return ⟨none, ← b.append s⟩
  | .prepend s => return ⟨none, ← b.prepend s⟩
  | .build => do
    let (s, rest) ← b.build
    return ⟨some s, rest⟩

end Builder

def Sequence.perform (s : Sequence α) :
    Builder.Action α → Except Fault (Builder.Stage (Sequence α) (Sequence α))
  | .pushFront element => return ⟨none, s.pushFront element⟩
  | .pushBack element => return ⟨none, s.pushBack element⟩
  | .extend elements => return ⟨none, s.pushAllBack elements⟩
  | .append t => return ⟨none, ← s.concat t⟩
  | .prepend t => return ⟨none, ← t.concat s⟩
  | .build => return ⟨some s, .empty⟩

namespace Builder.Action

variable {σ : Type}

def operands : Action α → List (Sequence α)
  | append s | prepend s => [s]
  | _ => []

def listed (xs : List α) : Action α → Stage (List α) (List α)
  | pushFront element => ⟨none, element :: xs⟩
  | pushBack element => ⟨none, xs ++ [element]⟩
  | extend elements => ⟨none, xs ++ elements⟩
  | append s => ⟨none, xs ++ s.toList⟩
  | prepend s => ⟨none, s.toList ++ xs⟩
  | build => ⟨some xs, []⟩

def listedAll (xs : List α) : List (Action α) → List (Stage (List α) (List α))
  | [] => []
  | action :: later => action.listed xs :: listedAll (action.listed xs).left later

def performAll (perform : σ → Action α → Except Fault (Stage (Sequence α) σ)) (state : σ) :
    List (Action α) → Except Fault (List (Stage (Sequence α) σ))
  | [] => .ok []
  | action :: later => do
    let stage ← perform state action
    return stage :: (← performAll perform stage.left later)

end Builder.Action

namespace Builder

variable {σ : Type}

/-- A stage as the lists have it. Once something is built, all starts from `empty` again. -/
structure Stage.Holds (holds : σ → List α → Prop) (empty : σ) (stage : Stage (Sequence α) σ)
    (listed : Stage (List α) (List α)) : Prop where
  left : holds stage.left listed.left
  built : stage.built.map Sequence.toList = listed.built
  consistent : ∀ s ∈ stage.built, s.tree.Consistent 0
  emptied : stage.built.isSome = true → stage.left = empty

theorem Stage.holds_grown {holds : σ → List α → Prop} {empty state : σ} {xs : List α}
    (h : holds state xs) : Stage.Holds holds empty ⟨none, state⟩ ⟨none, xs⟩ :=
  ⟨h, rfl, nofun, nofun⟩

theorem Stage.holds_built {holds : σ → List α → Prop} {empty : σ} {s : Sequence α} {xs : List α}
    (hs : s.Holds xs) (h : holds empty []) :
    Stage.Holds holds empty ⟨some s, empty⟩ ⟨some xs, []⟩ where
  left := h
  built := congrArg some hs.toList_eq
  consistent := by
    intro _ same
    cases same
    exact hs.consistent
  emptied _ := rfl

/-- A way to perform actions that has at every stage what the lists have. -/
def Performs (perform : σ → Action α → Except Fault (Stage (Sequence α) σ))
    (holds : σ → List α → Prop) (empty : σ) : Prop :=
  ∀ state xs action, holds state xs → (∀ s ∈ Action.operands action, s.tree.Consistent 0) →
    Refines (Stage.Holds holds empty) (perform state action) (.ok (action.listed xs))

theorem performs : Performs perform Holds (empty : Builder α) := by
  intro b xs action h operands
  cases action with
  | pushFront element => exact Stage.holds_grown (h.pushFront element)
  | pushBack element => exact Stage.holds_grown (h.pushBack element)
  | extend elements => exact Stage.holds_grown (h.extend elements)
  | append s =>
    have hs : s.Holds s.toList := ⟨operands s List.mem_cons_self, rfl⟩
    obtain ⟨grown, appended, hgrown⟩ := (h.append hs).exists_of_ok
    exact .of_ok (by rw [perform, appended]; rfl) (Stage.holds_grown hgrown)
  | prepend s =>
    have hs : s.Holds s.toList := ⟨operands s List.mem_cons_self, rfl⟩
    obtain ⟨grown, prepended, hgrown⟩ := (h.prepend hs).exists_of_ok
    exact .of_ok (by rw [perform, prepended]; rfl) (Stage.holds_grown hgrown)
  | build =>
    obtain ⟨⟨s, rest⟩, built, hs, rfl⟩ := h.build.exists_of_ok
    exact .of_ok (by rw [perform, built]; rfl) (Stage.holds_built hs holds_empty)

theorem performs_directly : Performs Sequence.perform Sequence.Holds (Sequence.empty : Sequence α) := by
  intro s xs action h operands
  cases action with
  | pushFront element => exact Stage.holds_grown (h.pushFront element)
  | pushBack element => exact Stage.holds_grown (h.pushBack element)
  | extend elements => exact Stage.holds_grown (h.pushAllBack elements)
  | append t =>
    have ht : t.Holds t.toList := ⟨operands t List.mem_cons_self, rfl⟩
    obtain ⟨grown, appended, hgrown⟩ := (h.concat ht).exists_of_ok
    exact .of_ok (by rw [Sequence.perform, appended]; rfl) (Stage.holds_grown hgrown)
  | prepend t =>
    have ht : t.Holds t.toList := ⟨operands t List.mem_cons_self, rfl⟩
    obtain ⟨grown, prepended, hgrown⟩ := (ht.concat h).exists_of_ok
    exact .of_ok (by rw [Sequence.perform, prepended]; rfl) (Stage.holds_grown hgrown)
  | build => exact Stage.holds_built h Sequence.holds_empty

theorem Performs.all {perform : σ → Action α → Except Fault (Stage (Sequence α) σ)}
    {holds : σ → List α → Prop} {empty : σ} {read : σ → List α} (performs : Performs perform holds empty)
    (read_eq : ∀ state xs, holds state xs → read state = xs) {state : σ} {xs : List α}
    (h : holds state xs) {actions : List (Action α)}
    (operands : ∀ action ∈ actions, ∀ s ∈ action.operands, s.tree.Consistent 0) :
    ∃ stages, Action.performAll perform state actions = .ok stages ∧
      stages.map (Stage.map Sequence.toList read) = Action.listedAll xs actions ∧
      ∀ stage ∈ stages, ∃ listed, stage.Holds holds empty listed := by
  induction actions generalizing state xs with
  | nil => exact ⟨[], rfl, rfl, fun _ mem => absurd mem List.not_mem_nil⟩
  | cons action later ih =>
    rw [List.forall_mem_cons] at operands
    obtain ⟨stage, performed, hstage⟩ := (performs state xs action h operands.1).exists_of_ok
    obtain ⟨stages, gone, same, kept⟩ := ih hstage.left operands.2
    refine ⟨stage :: stages, ?_, ?_, ?_⟩
    · rw [Action.performAll, performed, ok_bind, gone]
      rfl
    · rw [List.map_cons, same, Stage.map, hstage.built, read_eq _ _ hstage.left, Action.listedAll]
    · rw [List.forall_mem_cons]
      exact ⟨⟨_, hstage⟩, kept⟩

end Builder

theorem Builder.Holds.measured {b : Builder α} {xs : List α} (h : b.Holds xs)
    (bound : xs.length < UInt64.size) :
    b.size.toNat = xs.length ∧ (b.isEmpty = true ↔ xs = []) := by
  have counted : b.size.toNat = xs.length := toNat_ofNat_of_eq h.size_eq bound
  refine ⟨counted, ?_⟩
  rw [isEmpty, beq_iff_eq, ← UInt64.toNat_inj, counted]
  exact List.length_eq_zero_iff

theorem Sequence.Holds.equal_self [BEq α] {s t : Sequence α} {xs : List α} (hs : s.Holds xs)
    (ht : t.Holds xs) (bound : xs.length < UInt64.size) (equal : ∀ x : α, (x == x) = true) :
    (s == t) = true := by
  rw [hs.equal_eq ht bound bound]
  clear bound hs ht
  induction xs with
  | nil => rfl
  | cons x xs ih => rw [List.isEqv_cons_cons, equal, ih, Bool.and_self]

/-- Whatever is done to a builder, with sequences of any origin, it holds and builds at every stage what a
list would. -/
theorem builder_assembles_list [Element α] [Arithmetic] [Json.Spelling] [Arithmetic.Modular]
    {actions : List (Builder.Action α)}
    (occur : ∀ action ∈ actions, ∀ s ∈ action.operands, ∃ program, s.tree.OccursIn program) :
    ∃ stages direct, Builder.Action.performAll Builder.perform .empty actions = .ok stages ∧
      Builder.Action.performAll Sequence.perform .empty actions = .ok direct ∧
      stages.map (.map Sequence.toList Builder.toList) = Builder.Action.listedAll [] actions ∧
      direct.map (.map Sequence.toList Sequence.toList) = Builder.Action.listedAll [] actions ∧
      (∀ stage ∈ stages, stage.left.size = .ofNat stage.left.toList.length ∧
        (stage.left.toList.length < UInt64.size →
          stage.left.size.toNat = stage.left.toList.length ∧
            (stage.left.isEmpty = true ↔ stage.left.toList = []))) ∧
      (∀ stage ∈ stages, stage.built.isSome = true → stage.left = .empty) ∧
      ∀ (step : Nat) (stage : Builder.Stage _ _) (s : Sequence α), stages[step]? = some stage →
        stage.built = some s → ∃ (other : Builder.Stage _ _) (t : Sequence α),
          direct[step]? = some other ∧ other.built = some t ∧ t.toList = s.toList ∧
          (s.toList.length < UInt64.size → (∀ x : α, (x == x) = true) → (s == t) = true) := by
  have operands : ∀ action ∈ actions, ∀ s ∈ action.operands, s.tree.Consistent 0 := by
    intro action mem s given
    obtain ⟨program, occurs⟩ := occur action mem s given
    exact occurs.consistent
  obtain ⟨stages, gone, same, kept⟩ := Builder.performs.all
    (fun _ _ h => Builder.Holds.toList_eq h) Builder.holds_empty operands
  obtain ⟨direct, gone', same', kept'⟩ := Builder.performs_directly.all
    (fun _ _ h => Sequence.Holds.toList_eq h) Sequence.holds_empty operands
  refine ⟨stages, direct, gone, gone', same, same', ?_, ?_, ?_⟩
  · intro stage mem
    obtain ⟨listed, h⟩ := kept stage mem
    have held : stage.left.Holds stage.left.toList := ⟨h.left.consistent, rfl⟩
    exact ⟨held.size_eq, held.measured⟩
  · intro stage mem built
    obtain ⟨listed, h⟩ := kept stage mem
    exact h.emptied built
  · intro step stage s reached built
    have agree := congrArg (·[step]?) (same'.trans same.symm)
    simp only [List.getElem?_map, reached, Option.map_some] at agree
    obtain ⟨other, reached', agree⟩ := Option.map_eq_some_iff.mp agree
    have lists : other.built.map Sequence.toList = stage.built.map Sequence.toList :=
      congrArg Builder.Stage.built agree
    rw [built] at lists
    obtain ⟨t, built', equal⟩ := Option.map_eq_some_iff.mp lists
    refine ⟨other, t, reached', built', equal, ?_⟩
    intro bound reflexive
    obtain ⟨listed, h⟩ := kept stage (List.mem_of_getElem? reached)
    obtain ⟨listed', h'⟩ := kept' other (List.mem_of_getElem? reached')
    have hs : s.Holds s.toList := ⟨h.consistent s built, rfl⟩
    exact hs.equal_self ⟨h'.consistent t built', equal⟩ bound reflexive

theorem builder_assembles_split :
    let s := (Workspace.empty.run splitTwice).2.sequence "b"
    let actions : List (Builder.Action Int64) :=
      [.pushBack 2, .pushFront 1, .append s, .extend [3], .prepend s, .build, .pushFront 5, .build]
    ∃ stages, Builder.Action.performAll Builder.perform .empty actions = .ok stages ∧
      stages.map (fun stage => stage.built.map Sequence.toList) =
        [none, none, none, none, none, some (s.toList ++ ([1, 2] ++ (s.toList ++ [3]))), none, some [5]] := by
  intro s actions
  have only : ∀ action ∈ actions, ∀ t ∈ action.operands, t = s := by
    simp [actions, Builder.Action.operands]
  have occur : ∀ action ∈ actions, ∀ t ∈ action.operands, ∃ program, t.tree.OccursIn program := by
    intro action mem t given
    have kept : s.tree.OccursIn splitTwice := .kept "b"
    exact ⟨splitTwice, only action mem t given ▸ kept⟩
  obtain ⟨stages, -, gone, -, same, -⟩ := builder_assembles_list occur
  refine ⟨stages, gone, ?_⟩
  have built := congrArg (List.map (·.built)) same
  rw [List.map_map] at built
  refine Eq.trans built ?_
  decide +kernel

end IndexedSequence
