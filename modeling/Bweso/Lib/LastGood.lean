import Mathlib.Tactic

/-! A holder that is refreshed from a fallible source and keeps its last good
value: a failed evaluation leaves it alone, an equal one is not swapped in. -/

namespace LastGood

variable {ε ρ : Type*}

/-- The value after an evaluation. -/
def keep (current : ρ) : Except ε ρ → ρ
  | .ok next => next
  | .error _ => current

/-- The value after a sequence of evaluations. -/
def last (start : ρ) (results : List (Except ε ρ)) : ρ := results.foldl keep start

/-- One refresh: whether the value changed, or why the evaluation failed, with
the value then held. -/
def refresh [DecidableEq ρ] (current : ρ) : Except ε ρ → Except ε Bool × ρ
  | .error e => (.error e, current)
  | .ok next => if current = next then (.ok false, current) else (.ok true, next)

theorem refresh_snd [DecidableEq ρ] (current : ρ) (result : Except ε ρ) :
    (refresh current result).2 = keep current result := by
  cases result with
  | error e => rfl
  | ok next =>
    by_cases h : current = next
    · simp [refresh, keep, h]
    · simp [refresh, keep, h]

@[simp] theorem last_append (start : ρ) (rs : List (Except ε ρ)) (r : Except ε ρ) :
    last start (rs ++ [r]) = keep (last start rs) r := by
  simp [last]

/-- Among a first input, on which the source succeeded, and those tried after
it, `c` is the newest on which it did. -/
def Newest {γ : Type*} (eval : γ → Except ε ρ) (start : γ) (cycles : List γ) (c : γ) : Prop :=
  (c = start ∧ ∀ x ∈ cycles, ∃ e, eval x = .error e) ∨
    ∃ pre post, cycles = pre ++ c :: post ∧ ∀ x ∈ post, ∃ e, eval x = .error e

/-- The value held is the result of the newest success. -/
theorem last_newest {γ : Type*} (eval : γ → Except ε ρ) {start : γ} {first : ρ}
    (hstart : eval start = .ok first) (cycles : List γ) :
    ∃ c, Newest eval start cycles c ∧ eval c = .ok (last first (cycles.map eval)) := by
  induction cycles using List.reverseRecOn with
  | nil => exact ⟨start, Or.inl ⟨rfl, by simp⟩, hstart⟩
  | append_singleton cycles x ih =>
    rw [List.map_append, List.map_singleton, last_append]
    cases hx : eval x with
    | ok next => exact ⟨x, Or.inr ⟨cycles, [], rfl, by simp⟩, hx⟩
    | error e =>
      have failed : ∀ ys : List γ, (∀ y ∈ ys, ∃ e, eval y = .error e) →
          ∀ y ∈ ys ++ [x], ∃ e, eval y = .error e := by
        intro ys hys y hy
        rcases List.mem_append.mp hy with hy | hy
        · exact hys y hy
        · rw [List.mem_singleton.mp hy]
          exact ⟨e, hx⟩
      obtain ⟨c, hc, hok⟩ := ih
      refine ⟨c, ?_, hok⟩
      rcases hc with ⟨rfl, hall⟩ | ⟨pre, post, rfl, hall⟩
      · exact Or.inl ⟨rfl, failed cycles hall⟩
      · exact Or.inr ⟨pre, post ++ [x], by simp, failed post hall⟩

end LastGood
