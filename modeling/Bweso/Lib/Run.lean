import Mathlib.Tactic

/-! Runs of a partial labelled step function. A run keeps, for every step, the
state it was taken from, so that a statement can speak of what held at an
instant of the run and of what came before it. -/

variable {σ ε : Type*}

/-- `Run step s₀ tr s`: from `s₀` the steps recorded in `tr` lead to `s`. An
entry of `tr` is a step's label with the state before it. -/
inductive Run (step : σ → ε → Option σ) (s₀ : σ) : List (σ × ε) → σ → Prop
  | nil : Run step s₀ [] s₀
  | snoc {tr : List (σ × ε)} {s s' : σ} {e : ε} :
      Run step s₀ tr s → step s e = some s' → Run step s₀ (tr ++ [(s, e)]) s'

namespace Run

variable {step : σ → ε → Option σ} {s₀ s : σ} {tr : List (σ × ε)}

/-- What holds at the start and is kept by every step holds at the end. -/
theorem invariant {P : σ → Prop} (h : Run step s₀ tr s) (h0 : P s₀)
    (hstep : ∀ s e s', P s → step s e = some s' → P s') : P s := by
  induction h with
  | nil => exact h0
  | snoc _ hs ih => exact hstep _ _ _ ih hs

/-- Any entry of the trace splits the run into the part before it, its step,
and the part after. -/
theorem split {tr₁ tr₂ : List (σ × ε)} {p : σ} {e : ε}
    (h : Run step s₀ (tr₁ ++ (p, e) :: tr₂) s) :
    Run step s₀ tr₁ p ∧ ∃ p', step p e = some p' ∧ Run step p' tr₂ s := by
  generalize htr : tr₁ ++ (p, e) :: tr₂ = tr at h
  induction h generalizing tr₂ with
  | nil => simp at htr
  | @snoc tr s s' e' hr hs ih =>
    rcases List.eq_nil_or_concat tr₂ with rfl | ⟨t, x, rfl⟩
    · obtain ⟨rfl, hpe⟩ := List.append_inj' htr rfl
      simp only [List.cons.injEq, Prod.mk.injEq, and_true] at hpe
      obtain ⟨rfl, rfl⟩ := hpe
      exact ⟨hr, s', hs, Run.nil⟩
    · rw [List.concat_eq_append, ← List.cons_append, ← List.append_assoc] at htr
      obtain ⟨hinit, hx⟩ := List.append_inj' htr rfl
      simp only [List.cons.injEq, and_true] at hx
      subst hx
      obtain ⟨h1, p', h2, h3⟩ := ih hinit
      exact ⟨h1, p', h2, by simpa using h3.snoc hs⟩

/-- A run may be cut at any state an entry records. -/
theorem before {p : σ} {e : ε} (h : Run step s₀ tr s) (hm : (p, e) ∈ tr) :
    ∃ tr₁ tr₂, tr = tr₁ ++ (p, e) :: tr₂ ∧ Run step s₀ tr₁ p := by
  obtain ⟨tr₁, tr₂, rfl⟩ := List.mem_iff_append.mp hm
  exact ⟨tr₁, tr₂, rfl, h.split.1⟩

/-- One run after another. -/
theorem append {tr' : List (σ × ε)} {s' : σ} (h : Run step s₀ tr s) (h' : Run step s tr' s') :
    Run step s₀ (tr ++ tr') s' := by
  induction h' with
  | nil =>
    rw [List.append_nil]
    exact h
  | snoc _ hs ih =>
    rw [← List.append_assoc]
    exact ih.snoc hs

/-- A step before a run. -/
theorem cons {e : ε} {s₁ : σ} (hs : step s₀ e = some s₁) (h : Run step s₁ tr s) :
    Run step s₀ ((s₀, e) :: tr) s := by
  induction h with
  | nil => exact Run.nil.snoc hs
  | snoc _ hstep ih => exact ih.snoc hstep

/-- The run of a list of labels: its trace and the state it ends in, or `none`
where a label cannot be taken. -/
def exec (step : σ → ε → Option σ) : σ → List ε → Option (List (σ × ε) × σ)
  | s, [] => some ([], s)
  | s, e :: es => (step s e).bind fun s' => (exec step s' es).map fun (tr, t) => ((s, e) :: tr, t)

@[simp] theorem exec_nil : exec step s [] = some ([], s) := rfl

@[simp] theorem exec_cons (e : ε) (es : List ε) :
    exec step s (e :: es) =
      (step s e).bind fun s' => (exec step s' es).map fun (tr, t) => ((s, e) :: tr, t) := rfl

theorem of_exec (es : List ε) (h : exec step s₀ es = some (tr, s)) : Run step s₀ tr s := by
  induction es generalizing s₀ tr with
  | nil =>
    simp only [exec_nil, Option.some.injEq, Prod.mk.injEq] at h
    obtain ⟨rfl, rfl⟩ := h
    exact Run.nil
  | cons e es ih =>
    simp only [exec_cons, Option.bind_eq_some_iff, Option.map_eq_some_iff, Prod.mk.injEq] at h
    obtain ⟨s₁, hs, ⟨tr', t⟩, hrun, rfl, rfl⟩ := h
    exact (ih hrun).cons hs

/-- The labels after those already taken. -/
theorem exec_append {es : List ε} (h : exec step s₀ es = some (tr, s)) (es' : List ε) :
    exec step s₀ (es ++ es') = (exec step s es').map fun (tr', t) => (tr ++ tr', t) := by
  induction es generalizing s₀ tr with
  | nil =>
    simp only [exec_nil, Option.some.injEq, Prod.mk.injEq] at h
    obtain ⟨rfl, rfl⟩ := h
    simp
  | cons e es ih =>
    simp only [exec_cons, Option.bind_eq_some_iff, Option.map_eq_some_iff, Prod.mk.injEq] at h
    obtain ⟨s₁, hs, ⟨tr', t⟩, hrun, rfl, rfl⟩ := h
    simp only [List.cons_append, exec_cons, hs, Option.bind_some, ih hrun, Option.map_map]
    rfl

/-- What a run of labels ends in, label by label. -/
theorem exec_any_cons {P : σ → Bool} {e : ε} {s' : σ} (h : step s₀ e = some s') (es : List ε) :
    (exec step s₀ (e :: es)).any (fun x => P x.2) = (exec step s' es).any fun x => P x.2 := by
  rw [exec_cons, h, Option.bind_some]
  cases exec step s' es <;> rfl

theorem exec_any_stuck {P : σ → Bool} {e : ε} (h : step s₀ e = none) (es : List ε) :
    (exec step s₀ (e :: es)).any (fun x => P x.2) = false := by
  rw [exec_cons, h, Option.bind_none, Option.any_none]

theorem of_isSome (es : List ε) (h : (exec step s₀ es).isSome = true) :
    Run step s₀ ((exec step s₀ es).get h).1 ((exec step s₀ es).get h).2 :=
  of_exec es (Option.some_get h).symm

theorem exec_labels (es : List ε) (h : exec step s₀ es = some (tr, s)) : tr.map Prod.snd = es := by
  induction es generalizing s₀ tr with
  | nil =>
    simp only [exec_nil, Option.some.injEq, Prod.mk.injEq] at h
    rw [← h.1, List.map_nil]
  | cons e es ih =>
    simp only [exec_cons, Option.bind_eq_some_iff, Option.map_eq_some_iff, Prod.mk.injEq] at h
    obtain ⟨s₁, hs, ⟨tr', t⟩, hrun, rfl, rfl⟩ := h
    rw [List.map_cons, ih hrun]

theorem label_mem (es : List ε) (h : (exec step s₀ es).isSome = true) {x : σ × ε}
    (hx : x ∈ ((exec step s₀ es).get h).1) : x.2 ∈ es := by
  rw [← exec_labels es (Option.some_get h).symm]
  exact List.mem_map_of_mem hx

theorem exists_of_label (es : List ε) (h : (exec step s₀ es).isSome = true) {e : ε} (he : e ∈ es) :
    ∃ p, (p, e) ∈ ((exec step s₀ es).get h).1 := by
  rw [← exec_labels es (Option.some_get h).symm] at he
  obtain ⟨⟨p, e⟩, hmem, rfl⟩ := List.mem_map.mp he
  exact ⟨p, hmem⟩

end Run
