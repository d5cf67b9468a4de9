import Bweso.Lib.Result

/-! Fallible computations that record the calls they make: what such a
computation returns together with the calls of a run, and rules for both along
the way it is put together. -/

/-- The calls so far, and an early return. -/
abbrev Recording (κ ε α : Type) := ExceptT ε (StateM (List κ)) α

namespace Recording

variable {κ ε ε' α β : Type}

/-- Make one call and go on with its answer. -/
def record (call : κ) (answer : α) : Recording κ ε α := do
  modify (· ++ [call])
  return answer

/-- A step that makes no call. -/
def silent (x : Except ε α) : Recording κ ε α := ExceptT.mk (pure x)

def mapError (f : ε → ε') (x : Recording κ ε α) : Recording κ ε' α :=
  ExceptT.mk (Except.mapError f <$> x.run)

/-- What a computation returns, with the calls it makes. -/
def outcome (x : Recording κ ε α) : Except ε α × List κ := x.run.run []

/-- Whatever was called before, `x` returns `r` and makes the calls `calls`. -/
def Returns (x : Recording κ ε α) (r : Except ε α) (calls : List κ) : Prop :=
  ∀ before, x.run.run before = (r, before ++ calls)

theorem Returns.outcome {x : Recording κ ε α} {r : Except ε α} {calls : List κ} (h : Returns x r calls) :
    x.outcome = (r, calls) := h []

variable {x : Recording κ ε α} {f : α → Recording κ ε β}

theorem returns_pure (a : α) : Returns (pure a : Recording κ ε α) (.ok a) [] := by
  intro before
  rw [List.append_nil]
  rfl

theorem returns_throw (e : ε) : Returns (throw e : Recording κ ε α) (.error e) [] := by
  intro before
  rw [List.append_nil]
  rfl

theorem returns_silent (r : Except ε α) : Returns (silent r : Recording κ ε α) r [] := by
  intro before
  rw [List.append_nil]
  rfl

theorem returns_record (call : κ) (answer : α) :
    Returns (record call answer : Recording κ ε α) (.ok answer) [call] := fun _ => rfl

theorem Returns.bind {a : α} {r : Except ε β} {calls calls' : List κ} (hx : Returns x (.ok a) calls)
    (hf : Returns (f a) r calls') : Returns (x >>= f) r (calls ++ calls') := by
  intro before
  have hrun : (x >>= f).run.run before = (f a).run.run (before ++ calls) := by
    rw [ExceptT.run_bind, StateT.run_bind, hx before]
    rfl
  rw [hrun, hf, List.append_assoc]

theorem Returns.bind_error {e : ε} {calls : List κ} (hx : Returns x (.error e) calls) :
    Returns (x >>= f) (.error e) calls := by
  intro before
  rw [ExceptT.run_bind, StateT.run_bind, hx before]
  rfl

theorem Returns.mapError {r : Except ε α} {calls : List κ} (hx : Returns x r calls) (g : ε → ε') :
    Returns (x.mapError g) (r.mapError g) calls := by
  intro before
  have hrun : (x.mapError g).run.run before = ((x.run.run before).1.mapError g, (x.run.run before).2) := rfl
  rw [hrun, hx before]

/-- A sequence of a step with calls and a step without. -/
theorem Returns.bind_silent {r : Except ε α} {calls : List κ} {g : α → Except ε β} (hx : Returns x r calls)
    (hf : ∀ a, Returns (f a) (g a) []) : Returns (x >>= f) (r >>= g) calls := by
  cases r with
  | error e => exact hx.bind_error
  | ok a => simpa using hx.bind (hf a)

end Recording
