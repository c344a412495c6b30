set_option autoImplicit false

namespace IndexedSequence

variable {ε ε' β γ β' γ' : Type}

@[simp]
theorem pure_eq_ok (b : β) : (pure b : Except ε β) = .ok b := rfl

@[simp]
theorem ok_bind (b : β) (next : β → Except ε γ) : Except.ok b >>= next = next b := rfl

@[simp]
theorem map_ok (f : β → γ) (b : β) : (f <$> Except.ok b : Except ε γ) = .ok (f b) := rfl

@[simp]
theorem map_error (f : β → γ) (e : ε) : (f <$> Except.error e : Except ε γ) = .error e := rfl

@[simp]
theorem mapError_ok (f : ε → ε') (b : β) : (Except.ok b).mapError f = .ok b := rfl

theorem mapError_bind (f : ε → ε') (result : Except ε β) (next : β → Except ε γ) :
    (result >>= next).mapError f = result.mapError f >>= fun b => (next b).mapError f := by
  cases result <;> rfl

theorem bind_congr_ok {result : Except ε β} {next next' : β → Except ε γ}
    (later : ∀ b, result = .ok b → next b = next' b) : result >>= next = result >>= next' := by
  cases result with
  | error e => rfl
  | ok b => exact later b rfl

theorem bind_eq_ok_iff {result : Except ε β} {next : β → Except ε γ} {c : γ} :
    result >>= next = .ok c ↔ ∃ b, result = .ok b ∧ next b = .ok c := by
  cases result with
  | error e => exact iff_of_false nofun nofun
  | ok b => exact ⟨fun later => ⟨b, rfl, later⟩, fun ⟨_, same, later⟩ => Except.ok.inj same ▸ later⟩

theorem map_eq_ok_iff {result : Except ε β} {f : β → γ} {c : γ} :
    f <$> result = .ok c ↔ ∃ b, result = .ok b ∧ f b = c := by
  cases result with
  | error e => exact iff_of_false nofun nofun
  | ok b => exact ⟨fun made => ⟨b, rfl, Except.ok.inj made⟩, fun ⟨_, same, made⟩ => made ▸ same ▸ rfl⟩

theorem map_eq_error_iff {result : Except ε β} {f : β → γ} {e : ε} :
    f <$> result = .error e ↔ result = .error e := by
  cases result with
  | error e' => simp only [map_error, Except.error.injEq]
  | ok b => exact iff_of_false nofun nofun

/-- `result` has the outcome of `spec`, with a value that `holds` relates to the one of `spec`. -/
def Refines (holds : γ → β → Prop) : Except ε γ → Except ε β → Prop
  | .ok c, .ok b => holds c b
  | .error e, .error e' => e = e'
  | _, _ => False

namespace Refines

variable {holds : γ → β → Prop} {holds' : γ' → β' → Prop} {result : Except ε γ} {spec : Except ε β}

theorem exists_of_ok {b : β} (h : Refines holds result (.ok b)) : ∃ c, result = .ok c ∧ holds c b := by
  cases result with
  | error e => exact h.elim
  | ok c => exact ⟨c, rfl, h⟩

theorem eq_of_error {e : ε} (h : Refines holds result (.error e)) : result = .error e := by
  cases result with
  | error e' => exact congrArg Except.error h
  | ok c => exact h.elim

theorem spec_eq_of_error {e : ε} (h : Refines holds result spec) (failed : result = .error e) :
    spec = .error e := by
  rw [failed] at h
  cases spec with
  | error e' => exact congrArg Except.error (Eq.symm h)
  | ok b => exact h.elim

theorem of_ok {c : γ} {b : β} (made : result = .ok c) (h : holds c b) : Refines holds result (.ok b) := by
  rw [made]
  exact h

theorem bind {next : γ → Except ε γ'} {next' : β → Except ε β'} (h : Refines holds result spec)
    (later : ∀ c b, holds c b → Refines holds' (next c) (next' b)) :
    Refines holds' (result >>= next) (spec >>= next') := by
  cases spec with
  | error e => rw [h.eq_of_error]; rfl
  | ok b =>
    obtain ⟨c, made, hc⟩ := h.exists_of_ok
    rw [made]
    exact later c b hc

theorem mono {weaker : γ → β → Prop} (h : Refines holds result spec)
    (weaken : ∀ c b, holds c b → weaker c b) : Refines weaker result spec := by
  cases spec with
  | error e => rw [h.eq_of_error]; rfl
  | ok b =>
    obtain ⟨c, made, hc⟩ := h.exists_of_ok
    exact .of_ok made (weaken c b hc)

end Refines

/-- Whatever value the result has, it `holds`; an error has none. -/
def Ensures (holds : β → Prop) (result : Except ε β) : Prop :=
  ∀ b, result = .ok b → holds b

namespace Ensures

variable {holds : β → Prop} {holds' : γ → Prop} {result : Except ε β}

theorem of_ok {b : β} (h : holds b) : Ensures holds (.ok b : Except ε β) := by
  intro b' same
  cases same
  exact h

theorem of_error (e : ε) : Ensures holds (.error e : Except ε β) :=
  fun _ same => nomatch same

theorem mono {weaker : β → Prop} (h : Ensures holds result) (weaken : ∀ b, holds b → weaker b) :
    Ensures weaker result :=
  fun b same => weaken b (h b same)

theorem bind {next : β → Except ε γ} (h : Ensures holds result)
    (later : ∀ b, holds b → Ensures holds' (next b)) : Ensures holds' (result >>= next) := by
  cases result with
  | error e => exact of_error e
  | ok b => exact later b (h b rfl)

theorem after {next : β → Except ε γ} (later : ∀ b, Ensures holds' (next b)) :
    Ensures holds' (result >>= next) := by
  cases result with
  | error e => exact of_error e
  | ok b => exact later b

theorem next {next : β → Except ε γ} {b : β} (h : Ensures holds' (result >>= next))
    (made : result = .ok b) : Ensures holds' (next b) := by
  rw [made] at h
  exact h

theorem map {f : β → γ} (h : Ensures (fun b => holds' (f b)) result) : Ensures holds' (f <$> result) := by
  cases result with
  | error e => exact of_error e
  | ok b => exact of_ok (h b rfl)

theorem mapError {f : ε → ε'} (h : Ensures holds result) : Ensures holds (result.mapError f) := by
  cases result with
  | error e => exact of_error (f e)
  | ok b => exact of_ok (h b rfl)

theorem of_mapError {f : ε → ε'} (h : Ensures holds (result.mapError f)) : Ensures holds result := by
  cases result with
  | error e => exact of_error e
  | ok b => exact of_ok (h b rfl)

theorem of_refines {related : β → γ → Prop} {spec : γ} (h : Refines related result (.ok spec)) :
    Ensures (related · spec) result := by
  obtain ⟨b, made, hb⟩ := h.exists_of_ok
  rw [made]
  exact of_ok hb

end Ensures

section

variable {step : β → Except ε γ} {xs : List β}

theorem mapM_cons_eq_ok_iff {x : β} {ys : List γ} :
    (x :: xs).mapM step = .ok ys ↔ ∃ y zs, step x = .ok y ∧ xs.mapM step = .ok zs ∧ ys = y :: zs := by
  rw [List.mapM_cons]
  simp only [bind_eq_ok_iff, pure_eq_ok, Except.ok.injEq, eq_comm (a := ys)]
  constructor
  · rintro ⟨y, first, zs, later, whole⟩
    exact ⟨y, zs, first, later, whole⟩
  · rintro ⟨y, zs, first, later, whole⟩
    exact ⟨y, first, zs, later, whole⟩

theorem mapM_eq_ok {made : β → γ} (h : ∀ x ∈ xs, step x = .ok (made x)) : xs.mapM step = .ok (xs.map made) := by
  induction xs with
  | nil => rfl
  | cons x rest ih =>
    rw [List.forall_mem_cons] at h
    exact mapM_cons_eq_ok_iff.mpr ⟨made x, rest.map made, h.1, ih h.2, rfl⟩

theorem exists_mapM_eq_ok_iff : (∃ ys, xs.mapM step = .ok ys) ↔ ∀ x ∈ xs, ∃ y, step x = .ok y := by
  induction xs with
  | nil => exact iff_of_true ⟨[], rfl⟩ nofun
  | cons x rest ih =>
    rw [List.forall_mem_cons, ← ih]
    simp only [mapM_cons_eq_ok_iff]
    constructor
    · rintro ⟨-, y, zs, first, later, -⟩
      exact ⟨⟨y, first⟩, zs, later⟩
    · rintro ⟨⟨y, first⟩, zs, later⟩
      exact ⟨y :: zs, y, zs, first, later, rfl⟩

theorem map_eq_of_mapM_eq_ok {ys : List γ} {back : γ → β} (made : xs.mapM step = .ok ys)
    (h : ∀ x, ∀ y ∈ ys, step x = .ok y → back y = x) : ys.map back = xs := by
  induction xs generalizing ys with
  | nil =>
    cases made
    rfl
  | cons x rest ih =>
    obtain ⟨y, zs, first, later, rfl⟩ := mapM_cons_eq_ok_iff.mp made
    rw [List.map_cons, h x y List.mem_cons_self first,
      ih later fun x' y' mem => h x' y' (List.mem_cons_of_mem y mem)]

theorem mapM_eq_error_iff {e : ε} :
    xs.mapM step = .error e ↔ ∃ before first after, xs = before ++ first :: after ∧
      (∀ x ∈ before, ∃ y, step x = .ok y) ∧ step first = .error e := by
  constructor
  · intro failed
    induction xs with
    | nil => cases failed
    | cons x rest ih =>
      rw [List.mapM_cons] at failed
      cases first : step x with
      | error e' =>
        rw [first] at failed
        obtain rfl : e' = e := Except.error.inj failed
        exact ⟨[], x, rest, rfl, nofun, first⟩
      | ok y =>
        rw [first, ok_bind] at failed
        cases later : rest.mapM step with
        | error e' =>
          rw [later] at failed
          obtain rfl : e' = e := Except.error.inj failed
          obtain ⟨before, bad, after, rfl, fit, refused⟩ := ih later
          exact ⟨x :: before, bad, after, rfl, List.forall_mem_cons.mpr ⟨⟨y, first⟩, fit⟩, refused⟩
        | ok zs =>
          rw [later] at failed
          cases failed
  · rintro ⟨before, first, after, rfl, fit, failed⟩
    obtain ⟨ys, made⟩ := exists_mapM_eq_ok_iff.mpr fit
    rw [List.mapM_append, made, ok_bind, List.mapM_cons, failed]
    rfl

end

end IndexedSequence
