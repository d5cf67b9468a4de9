import Mathlib.Tactic

/-! Taking `Except` computations apart: what a sequence that returned must have
done, and where one that failed can have failed. -/

namespace Except

universe u v

variable {ε ε' : Type u} {α β : Type v}

@[simp] theorem ok_bind (a : α) (f : α → Except ε β) : (Except.ok a >>= f) = f a := rfl

@[simp] theorem error_bind (e : ε) (f : α → Except ε β) : (Except.error e >>= f) = .error e := rfl

@[simp] theorem pure_eq_ok (a : α) : (pure a : Except ε α) = .ok a := rfl

@[simp] theorem throw_eq_error (e : ε) : (throw e : Except ε α) = .error e := rfl

@[simp] theorem throw_bind (e : ε) (f : α → Except ε β) : (throw e >>= f) = .error e := rfl

theorem bind_eq_ok {x : Except ε α} {f : α → Except ε β} {b : β} :
    (x >>= f) = .ok b ↔ ∃ a, x = .ok a ∧ f a = .ok b := by
  cases x <;> simp

theorem bind_eq_error {x : Except ε α} {f : α → Except ε β} {e : ε} :
    (x >>= f) = .error e ↔ x = .error e ∨ ∃ a, x = .ok a ∧ f a = .error e := by
  cases x <;> simp

@[simp] theorem mapError_eq_ok {x : Except ε α} {f : ε → ε'} {a : α} :
    x.mapError f = .ok a ↔ x = .ok a := by
  cases x <;> simp [Except.mapError]

theorem mapError_eq_error {x : Except ε α} {f : ε → ε'} {e : ε'} :
    x.mapError f = .error e ↔ ∃ e', x = .error e' ∧ f e' = e := by
  cases x <;> simp [Except.mapError]

theorem map_eq_ok {x : Except ε α} {f : α → β} {b : β} :
    x.map f = .ok b ↔ ∃ a, x = .ok a ∧ f a = b := by
  cases x <;> simp [Except.map]

/-- A guard with an early return lets only the passing case through. -/
theorem guard_eq_ok {c : Prop} [Decidable c] {e : ε} {x : Except ε α} {b : α} :
    (if c then .error e else x) = .ok b ↔ ¬ c ∧ x = .ok b := by
  by_cases h : c <;> simp [h]

/-- A list mapped in order: every element has its result. -/
theorem mapM_eq_ok {f : α → Except ε β} {xs : List α} {ys : List β} :
    xs.mapM f = .ok ys ↔ List.Forall₂ (fun x y => f x = .ok y) xs ys := by
  induction xs generalizing ys with
  | nil => simp [List.mapM_nil, eq_comm]
  | cons x xs ih =>
    rw [List.mapM_cons, List.forall₂_cons_left_iff]
    simp only [bind_eq_ok, ih, pure_eq_ok, ok.injEq]
    refine ⟨fun h => ?_, fun h => ?_⟩
    · obtain ⟨y, hy, ys', hys, rfl⟩ := h
      exact ⟨y, ys', hy, hys, rfl⟩
    · obtain ⟨y, ys', hy, hys, rfl⟩ := h
      exact ⟨y, hy, ys', hys, rfl⟩

/-- The same, where a result is a function of its element. -/
theorem mapM_eq_ok_map {f : α → Except ε β} {g : α → β} {xs : List α} {ys : List β}
    (hg : ∀ x y, f x = .ok y → y = g x) :
    xs.mapM f = .ok ys ↔ (∀ x ∈ xs, ∃ y, f x = .ok y) ∧ ys = xs.map g := by
  induction xs generalizing ys with
  | nil => simp [List.mapM_nil, eq_comm]
  | cons x xs ih =>
    rw [List.mapM_cons, List.forall_mem_cons, List.map_cons]
    simp only [bind_eq_ok, ih, pure_eq_ok, ok.injEq]
    refine ⟨fun h => ?_, fun h => ?_⟩
    · obtain ⟨y, hy, ys', ⟨hall, rfl⟩, rfl⟩ := h
      exact ⟨⟨⟨y, hy⟩, hall⟩, by rw [hg x y hy]⟩
    · obtain ⟨⟨⟨y, hy⟩, hall⟩, rfl⟩ := h
      exact ⟨y, hy, _, ⟨hall, rfl⟩, by rw [hg x y hy]⟩

/-- A computation that may also panic does not, if none of its parts does. -/
theorem run_ofExcept_bind {ε α β : Type u} {x : Except ε α} {f : α → ExceptT ε Option β}
    {g : α → Except ε β} (h : ∀ a, (f a).run = some (g a)) :
    ExceptT.run (MonadExcept.ofExcept x >>= f) = some (x >>= g) := by
  cases x with
  | error e => rfl
  | ok a => exact h a

/-! ### The first failure of a sequence -/

/-- The error of a computation that failed. -/
def error? : Except ε α → Option ε
  | .error e => some e
  | .ok _ => none

@[simp] theorem error?_ok (a : α) : (Except.ok a : Except ε α).error? = none := rfl

@[simp] theorem error?_error (e : ε) : (Except.error e : Except ε α).error? = some e := rfl

theorem error?_eq_some {x : Except ε α} {e : ε} : x.error? = some e ↔ x = .error e := by
  cases x <;> simp

theorem error?_eq_none {x : Except ε α} : x.error? = none ↔ ∃ a, x = .ok a := by
  cases x <;> simp

variable {γ δ : Type*} {f : γ → Except ε δ} {x : Except ε α} {g : α → Except ε β} {l l' : List γ}

/-- `x` fails when one of the trials of `l` does, and with the error of the first
one that does. -/
def FailsAs (f : γ → Except ε δ) (x : Except ε α) (l : List γ) : Prop :=
  x.error? = l.findSome? fun c => (f c).error?

theorem FailsAs.ok (a : α) : FailsAs f (.ok a : Except ε α) [] := rfl

theorem FailsAs.single (c : γ) : FailsAs f (f c) [c] := by
  simp only [FailsAs, List.findSome?_cons, List.findSome?_nil]
  cases (f c).error? <;> rfl

theorem FailsAs.bind (hx : FailsAs f x l) (hg : ∀ a, FailsAs f (g a) l') : FailsAs f (x >>= g) (l ++ l') := by
  unfold FailsAs at *
  rw [List.findSome?_append, ← hx]
  cases x with
  | error e => rfl
  | ok a => exact hg a

theorem FailsAs.map (hx : FailsAs f x l) (h : α → β) : FailsAs f (x.map h) l := by
  unfold FailsAs at *
  rw [← hx]
  cases x <;> rfl

theorem FailsAs.bind_ok (hx : FailsAs f x l) (h : α → β) : FailsAs f (x >>= fun a => .ok (h a)) l := by
  unfold FailsAs at *
  rw [← hx]
  cases x <;> rfl

theorem FailsAs.eq_error {e : ε} (hx : FailsAs f x l) :
    x = .error e ↔ ∃ pre c post, l = pre ++ c :: post ∧ f c = .error e ∧ ∀ b ∈ pre, ∃ d, f b = .ok d := by
  rw [← error?_eq_some, hx, List.findSome?_eq_some_iff]
  simp only [error?_eq_some, error?_eq_none]

end Except
