import IndexedSequence.Proofs.Occurrence

set_option autoImplicit false

namespace IndexedSequence

variable {α β : Type}

/-- On what is admitted, equality is where the order finds no difference. -/
def EqualInOrder [BEq α] [PartialCompare α] (admitted : α → Prop) : Prop :=
  ∀ x y, admitted x → admitted y → ((x == y) = true ↔ order? x y = some .eq)

/-- On what is admitted, comparing is a total order, with which the partial order and equality agree. -/
structure TotallyOrdered [BEq α] [PartialCompare α] [Ord α] (admitted : α → Prop) : Prop where
  swap {x y : α} (hx : admitted x) (hy : admitted y) : compare y x = (compare x y).swap
  trans {x y z : α} (hx : admitted x) (hy : admitted y) (hz : admitted z) (first : (compare x y).isLE = true)
    (second : (compare y z).isLE = true) : (compare x z).isLE = true
  decided {x y : α} (hx : admitted x) (hy : admitted y) : order? x y = some (compare x y)
  eq_iff {x y : α} (hx : admitted x) (hy : admitted y) : compare x y = .eq ↔ (x == y) = true

namespace TotallyOrdered

variable [BEq α] [PartialCompare α] [Ord α] {admitted : α → Prop}

theorem equalInOrder (h : TotallyOrdered admitted) : EqualInOrder admitted := by
  intro x y hx hy
  rw [h.decided hx hy, Option.some.injEq]
  exact (h.eq_iff hx hy).symm

theorem of_lawful [Std.TransOrd α] [Std.LawfulEqOrd α] [LawfulBEq α]
    (decided : ∀ x y : α, order? x y = some (compare x y)) : TotallyOrdered (fun _ : α => True) where
  swap _ _ := Std.OrientedOrd.eq_swap
  trans _ _ _ := Std.TransOrd.isLE_trans
  decided _ _ := decided _ _
  eq_iff _ _ := Std.LawfulEqOrd.compare_eq_iff_eq.trans beq_iff_eq.symm

end TotallyOrdered

theorem totallyOrdered_integers : TotallyOrdered (fun _ : Int64 => True) :=
  .of_lawful fun _ _ => rfl

theorem totallyOrdered_texts : TotallyOrdered (fun _ : String => True) :=
  .of_lawful fun _ _ => rfl

theorem equalInOrder_doubles : EqualInOrder (fun _ : Binary64 => True) := by
  intro x y _ _
  change x.equal y = true ↔ x.order? y = some .eq
  rw [Binary64.equal, Binary64.order?]
  cases x.isNaN <;> cases y.isNaN <;> simp

/-- The first position that is not found equal decides, and leaves undecided what it is itself. -/
theorem firstOrder?_at (order? : α → α → Option Ordering) {i : Nat} {xs ys : List α} (hx : i < xs.length)
    (hy : i < ys.length) (before : ∀ (j : Nat) (lt : j < i), order? xs[j] ys[j] = some .eq)
    (differ : order? xs[i] ys[i] ≠ some .eq) : firstOrder? order? xs ys = order? xs[i] ys[i] := by
  induction i generalizing xs ys with
  | zero =>
    cases xs with
    | nil => cases hx
    | cons x xs =>
      cases ys with
      | nil => cases hy
      | cons y ys =>
        simp only [List.getElem_cons_zero] at differ ⊢
        rw [firstOrder?]
        split
        · contradiction
        · rfl
  | succ i ih =>
    cases xs with
    | nil => cases hx
    | cons x xs =>
      cases ys with
      | nil => cases hy
      | cons y ys =>
        have head : order? x y = some .eq := before 0 i.succ_pos
        simp only [List.getElem_cons_succ] at differ ⊢
        simp only [firstOrder?, head]
        exact ih _ _ (fun j lt => before (j + 1) (Nat.succ_lt_succ lt)) differ

theorem firstOrder?_of_alike (order? : α → α → Option Ordering) {xs ys : List α}
    (alike : ∀ (i : Nat) (hx : i < xs.length) (hy : i < ys.length), order? xs[i] ys[i] = some .eq) :
    firstOrder? order? xs ys = some (compare xs.length ys.length) := by
  induction xs generalizing ys with
  | nil =>
    cases ys with
    | nil => rfl
    | cons y ys => exact congrArg some (Nat.compare_eq_lt.mpr (Nat.succ_pos _)).symm
  | cons x xs ih =>
    cases ys with
    | nil => exact congrArg some (Nat.compare_eq_gt.mpr (Nat.succ_pos _)).symm
    | cons y ys =>
      have head : order? x y = some .eq := alike 0 (Nat.succ_pos _) (Nat.succ_pos _)
      simp only [firstOrder?, head]
      rw [ih fun i hx hy => alike (i + 1) (Nat.succ_lt_succ hx) (Nat.succ_lt_succ hy)]
      simp only [List.length_cons, Nat.compare_eq_ite_lt, Nat.add_lt_add_iff_right]

theorem isEqv_iff_getElem {xs ys : List α} {same : α → α → Bool} : xs.isEqv ys same = true ↔
    xs.length = ys.length ∧
      ∀ (i : Nat) (hx : i < xs.length) (hy : i < ys.length), same xs[i] ys[i] = true := by
  rw [List.isEqv_eq_decide]
  split
  · next lengths =>
    rw [decide_eq_true_iff, and_iff_right lengths]
    exact ⟨fun each i hx _ => each i hx, fun each i hx => each i hx (lengths ▸ hx)⟩
  · next lengths => exact iff_of_false Bool.false_ne_true fun both => lengths both.1

theorem compareLex_map (f : β → α) (cmp : α → α → Ordering) (xs ys : List β) :
    (xs.map f).compareLex cmp (ys.map f) = xs.compareLex (fun x y => cmp (f x) (f y)) ys := by
  induction xs generalizing ys with
  | nil => cases ys <;> rfl
  | cons x xs ih =>
    cases ys with
    | nil => rfl
    | cons y ys => rw [List.map_cons, List.map_cons, List.compareLex, List.compareLex, ih]

theorem exists_map_val_eq {admitted : α → Prop} {xs : List α} (hx : ∀ x ∈ xs, admitted x) :
    ∃ xs' : List {x : α // admitted x}, xs'.map Subtype.val = xs :=
  ⟨xs.attachWith admitted hx, List.attachWith_map_subtype_val hx⟩

section

variable [BEq α] [PartialCompare α] {admitted : α → Prop} {xs ys zs : List α}

theorem EqualInOrder.lists (h : EqualInOrder admitted) (hx : ∀ x ∈ xs, admitted x)
    (hy : ∀ y ∈ ys, admitted y) : xs.isEqv ys (· == ·) = true ↔ firstOrder? order? xs ys = some .eq := by
  induction xs generalizing ys with
  | nil => cases ys <;> simp [firstOrder?]
  | cons x xs ih =>
    cases ys with
    | nil => simp [firstOrder?]
    | cons y ys =>
      rw [List.forall_mem_cons] at hx hy
      rw [List.isEqv_cons_cons, Bool.and_eq_true, h x y hx.1 hy.1, ih hx.2 hy.2, firstOrder?]
      split
      · next same => rw [same, and_iff_right rfl]
      · next differ => exact iff_of_false (fun both => differ both.1) differ

variable [Ord α]

theorem TotallyOrdered.lists_decided (h : TotallyOrdered admitted) (hx : ∀ x ∈ xs, admitted x)
    (hy : ∀ y ∈ ys, admitted y) : firstOrder? order? xs ys = some (xs.compareLex compare ys) := by
  induction xs generalizing ys with
  | nil => cases ys <;> rfl
  | cons x xs ih =>
    cases ys with
    | nil => rfl
    | cons y ys =>
      rw [List.forall_mem_cons] at hx hy
      rw [firstOrder?, List.compareLex, h.decided hx.1 hy.1, ih hx.2 hy.2]
      cases compare x y <;> rfl

theorem TotallyOrdered.transCmp (h : TotallyOrdered admitted) :
    Std.TransCmp fun x y : {x : α // admitted x} => compare x.1 y.1 where
  eq_swap {x y} := h.swap y.2 x.2
  isLE_trans {x y z} := h.trans x.2 y.2 z.2

theorem TotallyOrdered.lists_swap (h : TotallyOrdered admitted) (hx : ∀ x ∈ xs, admitted x)
    (hy : ∀ y ∈ ys, admitted y) : ys.compareLex compare xs = (xs.compareLex compare ys).swap := by
  have := h.transCmp
  obtain ⟨xs', rfl⟩ := exists_map_val_eq hx
  obtain ⟨ys', rfl⟩ := exists_map_val_eq hy
  rw [compareLex_map, compareLex_map]
  exact Std.OrientedCmp.eq_swap

theorem TotallyOrdered.lists_trans (h : TotallyOrdered admitted) (hx : ∀ x ∈ xs, admitted x)
    (hy : ∀ y ∈ ys, admitted y) (hz : ∀ z ∈ zs, admitted z)
    (first : (xs.compareLex compare ys).isLE = true) (second : (ys.compareLex compare zs).isLE = true) :
    (xs.compareLex compare zs).isLE = true := by
  have := h.transCmp
  obtain ⟨xs', rfl⟩ := exists_map_val_eq hx
  obtain ⟨ys', rfl⟩ := exists_map_val_eq hy
  obtain ⟨zs', rfl⟩ := exists_map_val_eq hz
  rw [compareLex_map] at first second ⊢
  exact Std.TransCmp.isLE_trans first second

end

/-- In order as the first position that the order of the elements does not find equal, and as their lengths if there
is none. -/
structure Sequence.ComparesAsListed [BEq α] [PartialCompare α] (s t : Sequence α) : Prop where
  equal_iff : (s == t) = true ↔ s.toList.length = t.toList.length ∧
    ∀ (i : Nat) (hs : i < s.toList.length) (ht : i < t.toList.length),
      (s.toList[i] == t.toList[i]) = true
  order_at (i : Nat) (hs : i < s.toList.length) (ht : i < t.toList.length)
    (before : ∀ (j : Nat) (lt : j < i), order? s.toList[j] t.toList[j] = some .eq)
    (differ : order? s.toList[i] t.toList[i] ≠ some .eq) : order? s t = order? s.toList[i] t.toList[i]
  order_of_alike
    (alike : ∀ (i : Nat) (hs : i < s.toList.length) (ht : i < t.toList.length),
      order? s.toList[i] t.toList[i] = some .eq) :
    order? s t = some (compare s.toList.length t.toList.length)

section

variable [Element α] [Arithmetic] [Json.Spelling] [Arithmetic.Modular] {admitted : α → Prop} {s t : Sequence α}

theorem Sequence.Attained.equal_eq (hs : s.Attained admitted) (ht : t.Attained admitted) :
    (s == t) = s.toList.isEqv t.toList (· == ·) :=
  hs.holds.equal_eq ht.holds hs.bounded ht.bounded

theorem Sequence.Attained.partialOrder_eq (hs : s.Attained admitted) (ht : t.Attained admitted) :
    order? s t = firstOrder? order? s.toList t.toList :=
  hs.holds.partialOrder_eq ht.holds hs.bounded ht.bounded

theorem Sequence.Attained.totalOrder_eq [Ord α] (hs : s.Attained admitted) (ht : t.Attained admitted) :
    compare s t = s.toList.compareLex compare t.toList :=
  hs.holds.totalOrder_eq ht.holds hs.bounded ht.bounded

theorem Sequence.Attained.comparesAsListed (hs : s.Attained admitted) (ht : t.Attained admitted) :
    s.ComparesAsListed t where
  equal_iff := by
    rw [hs.equal_eq ht]
    exact isEqv_iff_getElem
  order_at i inS inT before differ := by
    rw [hs.partialOrder_eq ht]
    exact firstOrder?_at order? inS inT before differ
  order_of_alike alike := by
    rw [hs.partialOrder_eq ht]
    exact firstOrder?_of_alike order? alike

theorem EqualInOrder.sequences (h : EqualInOrder admitted) : EqualInOrder (Sequence.Attained admitted) := by
  intro s t hs ht
  rw [hs.equal_eq ht, hs.partialOrder_eq ht]
  exact h.lists hs.elements ht.elements

theorem TotallyOrdered.sequences [Ord α] (h : TotallyOrdered admitted) :
    TotallyOrdered (Sequence.Attained admitted) where
  swap hs ht := by
    rw [ht.totalOrder_eq hs, hs.totalOrder_eq ht]
    exact h.lists_swap hs.elements ht.elements
  trans hr hs ht := by
    rw [hr.totalOrder_eq hs, hs.totalOrder_eq ht, hr.totalOrder_eq ht]
    exact h.lists_trans hr.elements hs.elements ht.elements
  decided hs ht := by
    rw [hs.partialOrder_eq ht, hs.totalOrder_eq ht]
    exact h.lists_decided hs.elements ht.elements
  eq_iff hs ht := by
    rw [hs.totalOrder_eq ht, hs.equal_eq ht, h.equalInOrder.lists hs.elements ht.elements,
      h.lists_decided hs.elements ht.elements, Option.some.injEq]

end

/-- Sequences of any shapes compare as their lists, and a total order of the elements is one of the sequences, and of
sequences of these. -/
theorem comparison_is_lexicographic [Element α] [Arithmetic] [Json.Spelling] [Arithmetic.Modular]
    (admitted : α → Prop) :
    (∀ s t : Sequence α, s.Attained admitted → t.Attained admitted → s.ComparesAsListed t) ∧
    (EqualInOrder admitted → EqualInOrder (Sequence.Attained admitted) ∧
      EqualInOrder (Sequence.Attained (Sequence.Attained admitted))) ∧
    (∀ [Ord α], TotallyOrdered admitted → TotallyOrdered (Sequence.Attained admitted) ∧
      TotallyOrdered (Sequence.Attained (Sequence.Attained admitted))) ∧
    TotallyOrdered (fun _ : Int64 => True) ∧ TotallyOrdered (fun _ : String => True) ∧
    EqualInOrder (fun _ : Int64 => True) ∧ EqualInOrder (fun _ : String => True) ∧
    EqualInOrder (fun _ : Binary64 => True) := by
  refine ⟨fun s t hs ht => hs.comparesAsListed ht, fun h => ⟨h.sequences, h.sequences.sequences⟩, ?_, ?_⟩
  · intro _ h
    exact ⟨h.sequences, h.sequences.sequences⟩
  · exact ⟨totallyOrdered_integers, totallyOrdered_texts, totallyOrdered_integers.equalInOrder,
      totallyOrdered_texts.equalInOrder, equalInOrder_doubles⟩

def undecidedDoubles : List (Command Binary64) :=
  let one : Binary64 := ⟨4607182418800017408⟩
  let two : Binary64 := ⟨4611686018427387904⟩
  [.ofList [one, .nan, one, one, one] (some "a"), .singleton .nan (some "b"),
    .transform "b" (.pushAllBack [two, one, one]) (some "b"), .transform "b" (.pushFront one) (some "b")]

/-- The doubles are undecided, and so not equal. Of two sequences of sequences with the same elements inside, the
one that parts them sooner comes first. -/
theorem undecidedDoubles_compare :
    let a := (Workspace.empty.run undecidedDoubles).2.sequence "a"
    let b := (Workspace.empty.run undecidedDoubles).2.sequence "b"
    let s : Sequence (Sequence Int64) := .ofList [.ofList [1], .ofList [2]]
    let t : Sequence (Sequence Int64) := .ofList [.ofList [1, 2], .ofList []]
    a.Attained (fun _ => True) ∧ b.Attained (fun _ => True) ∧ order? a b = none ∧ (a == b) = false ∧
      TotallyOrdered (fun _ : Int64 => True) ∧ s.Attained (Sequence.Attained fun _ => True) ∧
      t.Attained (Sequence.Attained fun _ => True) ∧ compare s t = .lt ∧ compare t s = .gt ∧
      order? s t = some .lt := by
  intro a b s t
  have ha : a.Attained (fun _ => True) := ⟨⟨_, .kept "a"⟩, by decide +kernel, fun _ _ => trivial⟩
  have hb : b.Attained (fun _ => True) := ⟨⟨_, .kept "b"⟩, by decide +kernel, fun _ _ => trivial⟩
  obtain ⟨compares, doubles, -, -, -, -, -, equal⟩ :=
    comparison_is_lexicographic (fun _ : Binary64 => True)
  let one : Binary64 := ⟨4607182418800017408⟩
  let two : Binary64 := ⟨4611686018427387904⟩
  have elementsA : a.toList = [one, .nan, one, one, one] := by decide +kernel
  have elementsB : b.toList = [one, .nan, two, one, one] := by decide +kernel
  have undecided : order? a b = none := by
    refine ((compares a b ha hb).order_at 1 (by decide +kernel) (by decide +kernel) ?_ (by decide +kernel)).trans
      (by decide +kernel)
    intro j lt
    obtain rfl : j = 0 := by omega
    rw [List.getElem_of_eq elementsA, List.getElem_of_eq elementsB]
    simp only [List.getElem_cons_zero]
    decide +kernel
  have unequal : (a == b) = false := by
    rw [Bool.eq_false_iff]
    intro same
    rw [(doubles equal).1 a b ha hb, undecided] at same
    cases same
  have built {xs : List Int64} (bound : xs.length < UInt64.size) :
      (Sequence.ofList xs).Attained fun _ => True := Sequence.attained_ofList bound fun _ _ => trivial
  have paired {x y : Sequence Int64} (hx : x.Attained fun _ => True) (hy : y.Attained fun _ => True) :
      (Sequence.ofList [x, y]).Attained (Sequence.Attained fun _ => True) := by
    apply Sequence.attained_ofList (by simp [UInt64.size])
    simp [hx, hy]
  have hs : s.Attained (Sequence.Attained fun _ => True) := paired (built (by decide)) (built (by decide))
  have ht : t.Attained (Sequence.Attained fun _ => True) := paired (built (by decide)) (built (by decide))
  obtain ⟨-, -, total, integers, -⟩ := comparison_is_lexicographic (fun _ : Int64 => True)
  have ordered := (total integers).2
  have less : compare s t = .lt := by decide +kernel
  refine ⟨ha, hb, undecided, unequal, integers, hs, ht, less, ?_, ?_⟩
  · rw [ordered.swap hs ht, less]
    rfl
  · rw [ordered.decided hs ht, less]

end IndexedSequence
