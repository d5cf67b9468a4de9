import Bweso.Sanity.Policy
import Bweso.Spec.Mount

/-! Policy evaluation under ConfigMap updates: which generations the active
rules can come from. -/

namespace Bweso

namespace Mount

variable (m : Mount)

/-- The trace ends in an evaluation that has begun and opened nothing yet. -/
def Started (tr : List (MountState × MountEvent)) : Prop :=
  ∃ before begun waiting, tr = before ++ (begun, .begin) :: waiting ∧
    ∀ x ∈ waiting, x.2 = MountEvent.switch

/-- The trace ends in an evaluation that has read `allowedKeys` while `i` was
current, `n` switches ago. -/
def ReadKeys (tr : List (MountState × MountEvent)) (allowedKeys : List Str) (i n : ℕ) : Prop :=
  (∃ before begun waiting atKeys between,
    tr = before ++ (begun, .begin) :: waiting ++ (atKeys, .openKeys) :: between ∧
    (∀ x ∈ waiting ++ between, x.2 = MountEvent.switch) ∧
    atKeys.generation = i ∧ between.length = n) ∧
  extendFromFile m.sources.inlineKeys "allowed_key".toList m.sources.keysFile (m.generations i).keys =
    .ok allowedKeys

/-- What a trace says about the state it leads to. -/
structure Explains (tr : List (MountState × MountEvent)) (s : MountState) : Prop where
  started : s.phase = .started → Started tr
  keysRead : ∀ ks, s.phase = .keysRead ks →
    ∃ i n, m.ReadKeys tr ks i n ∧ s.generation = i + n
  active : ∀ rules, s.active = some rules →
    ∃ i n, OpenedAt tr i (i + n) n ∧ m.evaluateAt i (i + n) = .ok rules

theorem OpenedAt.snoc {tr : List (MountState × MountEvent)} {i j n : ℕ} (h : OpenedAt tr i j n)
    (x : MountState × MountEvent) : OpenedAt (tr ++ [x]) i j n := by
  obtain ⟨before, begun, waiting, atKeys, between, atPrefixes, after, rfl, hsw, hi, hj, hn⟩ := h
  exact ⟨before, begun, waiting, atKeys, between, atPrefixes, after ++ [x], by simp, hsw, hi, hj, hn⟩

variable {m}

/-- The rules that were active before a step stay explained after it. -/
theorem Explains.active_snoc {tr : List (MountState × MountEvent)} {s : MountState} (h : m.Explains tr s)
    (x : MountState × MountEvent) {rules : PolicyRules} (hr : s.active = some rules) :
    ∃ i n, OpenedAt (tr ++ [x]) i (i + n) n ∧ m.evaluateAt i (i + n) = .ok rules := by
  obtain ⟨i, n, ho, he⟩ := h.active rules hr
  exact ⟨i, n, ho.snoc x, he⟩

/-- The end of an evaluation leaves rules that were active before or that it
has just computed. -/
theorem conclude_active {s : MountState} {result : Except PolicyError PolicyRules} {rules : PolicyRules}
    (h : (s.conclude result).active = some rules) : s.active = some rules ∨ result = .ok rules := by
  cases hs : s.active with
  | none =>
    cases result with
    | error e => simp [MountState.conclude, hs] at h
    | ok next =>
      simp only [MountState.conclude, hs, Option.some.injEq] at h
      exact Or.inr (by rw [h])
  | some current =>
    simp only [MountState.conclude, hs, Option.some.injEq, LastGood.refresh_snd] at h
    cases result with
    | error e => exact Or.inl (by rw [← h]; rfl)
    | ok next => exact Or.inr (by rw [← h]; rfl)

theorem conclude_phase (s : MountState) (result : Except PolicyError PolicyRules) :
    (s.conclude result).phase = .idle ∨ ∃ e, (s.conclude result).phase = .exited e := by
  cases hs : s.active with
  | none => cases result <;> simp [MountState.conclude, hs]
  | some current => simp [MountState.conclude, hs]

/-- An evaluation that has ended is neither started nor half read. -/
theorem Explains.concluded {tr : List (MountState × MountEvent)} {s : MountState}
    {result : Except PolicyError PolicyRules}
    (hactive : ∀ rules, (s.conclude result).active = some rules →
      ∃ i n, OpenedAt tr i (i + n) n ∧ m.evaluateAt i (i + n) = .ok rules) :
    m.Explains tr (s.conclude result) := by
  refine ⟨fun h => ?_, fun ks h => ?_, hactive⟩
  · rcases conclude_phase s result with h' | ⟨e, h'⟩ <;> simp [h'] at h
  · rcases conclude_phase s result with h' | ⟨e, h'⟩ <;> simp [h'] at h

theorem explains_switch {tr : List (MountState × MountEvent)} {s : MountState} (h : m.Explains tr s) :
    m.Explains (tr ++ [(s, .switch)]) { s with generation := s.generation + 1 } := by
  refine ⟨fun hs => ?_, fun ks hs => ?_, fun rules hr => h.active_snoc _ hr⟩
  · obtain ⟨before, begun, waiting, rfl, hsw⟩ := h.started hs
    refine ⟨before, begun, waiting ++ [(s, .switch)], by simp, fun x hx => ?_⟩
    rcases List.mem_append.mp hx with hx | hx
    · exact hsw x hx
    · rw [List.mem_singleton.mp hx]
  · obtain ⟨i, n, ⟨⟨before, begun, waiting, atKeys, between, rfl, hsw, hi, hn⟩, hks⟩, hg⟩ :=
      h.keysRead ks hs
    refine ⟨i, n + 1, ⟨⟨before, begun, waiting, atKeys, between ++ [(s, .switch)], by simp,
      fun x hx => ?_, hi, by simp [hn]⟩, hks⟩, by simp [hg]; omega⟩
    rw [← List.append_assoc] at hx
    rcases List.mem_append.mp hx with hx | hx
    · exact hsw x hx
    · rw [List.mem_singleton.mp hx]

theorem explains_openKeys {tr : List (MountState × MountEvent)} {s s' : MountState} (h : m.Explains tr s)
    (hp : s.phase = .started) (hstep : m.step s .openKeys = some s') :
    m.Explains (tr ++ [(s, .openKeys)]) s' := by
  simp only [step, hp] at hstep
  cases hread : extendFromFile m.sources.inlineKeys "allowed_key".toList m.sources.keysFile
      (m.generations s.generation).keys with
  | error e =>
    simp only [hread, Option.some.injEq] at hstep
    subst hstep
    refine Explains.concluded fun rules hr => ?_
    rcases conclude_active hr with hr | hr
    · exact h.active_snoc _ hr
    · simp at hr
  | ok ks =>
    simp only [hread, Option.some.injEq] at hstep
    subst hstep
    refine ⟨fun hs => by simp at hs, fun ks' hs => ?_, fun rules hr => h.active_snoc _ hr⟩
    simp only [EvaluationPhase.keysRead.injEq] at hs
    subst hs
    obtain ⟨before, begun, waiting, rfl, hsw⟩ := h.started hp
    exact ⟨s.generation, 0, ⟨⟨before, begun, waiting, s, [], by simp, by simpa using hsw, rfl, rfl⟩,
      hread⟩, rfl⟩

theorem explains_openKeyPrefixes {tr : List (MountState × MountEvent)} {s s' : MountState}
    (h : m.Explains tr s) {ks : List Str} (hp : s.phase = .keysRead ks)
    (hstep : m.step s .openKeyPrefixes = some s') : m.Explains (tr ++ [(s, .openKeyPrefixes)]) s' := by
  simp only [step, hp, Option.some.injEq] at hstep
  subst hstep
  refine Explains.concluded fun rules hr => ?_
  rcases conclude_active hr with hr | hr
  · exact h.active_snoc _ hr
  · obtain ⟨i, n, ⟨⟨before, begun, waiting, atKeys, between, rfl, hsw, hi, hn⟩, hks⟩, hg⟩ :=
      h.keysRead ks hp
    refine ⟨i, n, ⟨before, begun, waiting, atKeys, between, s, [], by simp, hsw, hi, hg, hn⟩, ?_⟩
    rw [hg] at hr
    rw [evaluateAt, PolicySources.evaluate, hks]
    exact hr

/-- A run explains the state it ends in. -/
theorem runs_explains {tr : List (MountState × MountEvent)} {s : MountState} (h : m.Runs tr s) :
    m.Explains tr s := by
  induction h with
  | nil => exact ⟨by simp [MountState.init], by simp [MountState.init], by simp [MountState.init]⟩
  | @snoc tr s s' e _ hstep ih =>
    cases e with
    | switch =>
      simp only [step, Option.some.injEq] at hstep
      subst hstep
      exact explains_switch ih
    | begin =>
      cases hp : s.phase with
      | idle =>
        simp only [step, hp, Option.some.injEq] at hstep
        subst hstep
        exact ⟨fun _ => ⟨tr, s, [], rfl, by simp⟩, fun ks hs => by simp at hs,
          fun rules hr => ih.active_snoc _ hr⟩
      | _ => simp [step, hp] at hstep
    | openKeys =>
      cases hp : s.phase with
      | started => exact explains_openKeys ih hp hstep
      | _ => simp [step, hp] at hstep
    | openKeyPrefixes =>
      cases hp : s.phase with
      | keysRead ks => exact explains_openKeyPrefixes ih hp hstep
      | _ => simp [step, hp] at hstep

end Mount

/-- A mount whose second generation replaces both files. -/
def replacedMount : Mount where
  sources := { inlineKeys := [], inlineKeyPrefixes := [], keysFile := some "keys".toList
               keyPrefixesFile := some "prefixes".toList }
  generations
    | 0 => ⟨.contents (asBytes "id:a".toList), .contents (asBytes "name:a-".toList)⟩
    | _ + 1 => ⟨.contents (asBytes "id:b".toList), .contents (asBytes "name:b-".toList)⟩

/-- The startup run of `replacedMount` with the switch between the two opens. -/
theorem replacedMount_run : replacedMount.Runs
    [(⟨0, .idle, none⟩, .begin), (⟨0, .started, none⟩, .openKeys),
      (⟨0, .keysRead ["id:a".toList], none⟩, .switch),
      (⟨1, .keysRead ["id:a".toList], none⟩, .openKeyPrefixes)]
    ⟨1, .idle, some (.allowList ["id:a".toList] ["name:b-".toList])⟩ := by
  exact Run.of_exec [.begin, .openKeys, .switch, .openKeyPrefixes] (by decide)

end Bweso
