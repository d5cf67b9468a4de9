import Bweso.Lib.Run
import Bweso.Proofs.Reload
import Bweso.Spec.Lifecycle

/-! Shutdown is never lost: over every interleaving of markers, callers and
reload tasks, a caller that is past its check when a marker completes has been
woken, and no reload follows a readiness check made after the flag was set. -/

namespace Bweso

variable {prim : Primitives} {fromStr : Str → Option RawAuthPolicy} {w w' : LifecycleWorld}
  {e : LifecycleEvent}

/-! ### What a step can do -/

inductive LifecycleMove (prim : Primitives) (fromStr : Str → Option RawAuthPolicy) (w : LifecycleWorld) :
    LifecycleEvent → LifecycleWorld → Prop
  | stored {m : ℕ} (h : w.marks m = .idle) :
      LifecycleMove prim fromStr w (.store m) (w.store.setMark m .stored)
  | notified {m : ℕ} (h : w.marks m = .stored) :
      LifecycleMove prim fromStr w (.notifyWaiters m)
        ((w.setShutdown w.lifecycle.shutdown.notifyWaiters).setMark m .done)
  | enabled {x : WaiterId} (h : w.waiters x = .idle) :
      LifecycleMove prim fromStr w (.enable x)
        ((w.setWaiter x .enabled).setShutdown (w.lifecycle.shutdown.enable x))
  | parked {x : WaiterId} (h : w.waiters x = .enabled) (hready : w.isReady = true) :
      LifecycleMove prim fromStr w (.check x) (w.setWaiter x .awaiting)
  | seen {x : WaiterId} (h : w.waiters x = .enabled) (hready : w.isReady = false) :
      LifecycleMove prim fromStr w (.check x) (w.leave x .returned)
  | woken {x : WaiterId} (h : w.waiters x = .awaiting) (hwoken : w.lifecycle.shutdown.woken x = true) :
      LifecycleMove prim fromStr w (.wake x) (w.leave x .returned)
  | dropped {n : ℕ} (h : w.waiters (.caller n) = .awaiting) :
      LifecycleMove prim fromStr w (.drop n) (w.leave (.caller n) .dropped)
  | firstTicked {t : ReloadTask} (h : w.tasks t = .spawned) :
      LifecycleMove prim fromStr w (.firstTick t) (w.setTask t .selecting)
  | ticked {t : ReloadTask} (h : w.tasks t = .selecting) :
      LifecycleMove prim fromStr w (.tick t) ((w.leave (.task t) .idle).setTask t .ticked)
  | shutdown {t : ReloadTask} (h : w.tasks t = .selecting) :
      LifecycleMove prim fromStr w (.shutdown t) (w.setTask t .ended)
  | checked {t : ReloadTask} (h : w.tasks t = .ticked) :
      LifecycleMove prim fromStr w (.checkReady t) (w.setTask t (if !w.isReady then .ended else .ready))
  | reloaded {r : Reload} (h : w.tasks r.task = .ready) :
      LifecycleMove prim fromStr w (.reload r) ((w.reload prim fromStr r).setTask r.task .selecting)
  | reaped {t : ReloadTask} (h : w.tasks t = .spawned ∨ w.tasks t = .selecting) :
      LifecycleMove prim fromStr w (.reap t) ((w.leave (.task t) .dropped).setTask t .ended)

theorem lifecycleStep_move (h : lifecycleStep prim fromStr w e = some w') :
    LifecycleMove prim fromStr w e w' := by
  cases e with
  | store m =>
    simp only [lifecycleStep] at h
    split at h
    · obtain rfl := Option.some.inj h
      exact .stored ‹_›
    · exact absurd h (by simp)
  | notifyWaiters m =>
    simp only [lifecycleStep] at h
    split at h
    · obtain rfl := Option.some.inj h
      exact .notified ‹_›
    · exact absurd h (by simp)
  | enable x =>
    simp only [lifecycleStep] at h
    split at h
    · obtain rfl := Option.some.inj h
      exact .enabled ‹_›
    · exact absurd h (by simp)
  | check x =>
    simp only [lifecycleStep] at h
    split at h
    · rename_i hx
      split_ifs at h with hready
      · obtain rfl := Option.some.inj h
        exact .seen hx (by simpa using hready)
      · obtain rfl := Option.some.inj h
        exact .parked hx (by simpa using hready)
    · exact absurd h (by simp)
  | wake x =>
    simp only [lifecycleStep] at h
    split at h
    · obtain rfl := Option.some.inj h
      exact .woken ‹_› ‹_›
    · exact absurd h (by simp)
  | drop n =>
    simp only [lifecycleStep] at h
    split at h
    · obtain rfl := Option.some.inj h
      exact .dropped ‹_›
    · exact absurd h (by simp)
  | firstTick t =>
    simp only [lifecycleStep] at h
    split at h
    · obtain rfl := Option.some.inj h
      exact .firstTicked ‹_›
    · exact absurd h (by simp)
  | tick t =>
    simp only [lifecycleStep] at h
    split at h
    · obtain rfl := Option.some.inj h
      exact .ticked ‹_›
    · obtain rfl := Option.some.inj h
      exact .ticked ‹_›
    · exact absurd h (by simp)
  | shutdown t =>
    simp only [lifecycleStep] at h
    split at h
    · obtain rfl := Option.some.inj h
      exact .shutdown ‹_›
    · exact absurd h (by simp)
  | checkReady t =>
    simp only [lifecycleStep] at h
    split at h
    · obtain rfl := Option.some.inj h
      exact .checked ‹_›
    · exact absurd h (by simp)
  | reload r =>
    simp only [lifecycleStep] at h
    split at h
    · obtain rfl := Option.some.inj h
      exact .reloaded ‹_›
    · exact absurd h (by simp)
  | reap t =>
    simp only [lifecycleStep] at h
    split at h
    · obtain rfl := Option.some.inj h
      exact .reaped (Or.inl ‹_›)
    · obtain rfl := Option.some.inj h
      exact .reaped (Or.inr ‹_›)
    · exact absurd h (by simp)

/-! ### The flag -/

theorem reload_lifecycle (r : Reload) : (w.reload prim fromStr r).lifecycle = w.lifecycle := by
  cases r with
  | policy cycle => rfl
  | auth cycle => rfl

theorem reload_tasks (r : Reload) : (w.reload prim fromStr r).tasks = w.tasks := by
  cases r with
  | policy cycle => rfl
  | auth cycle => rfl

/-- A step leaves the flag, or sets it. -/
theorem isReady_step (h : lifecycleStep prim fromStr w e = some w') :
    w'.isReady = w.isReady ∨ w'.isReady = false := by
  cases lifecycleStep_move h with
  | stored => exact Or.inr rfl
  | reloaded =>
    left
    exact congrArg Lifecycle.isReady (reload_lifecycle _)
  | _ => exact Or.inl rfl

theorem isReady_run {tr : List (LifecycleWorld × LifecycleEvent)}
    (h : Run (lifecycleStep prim fromStr) w tr w') (hw : w.isReady = false) : w'.isReady = false := by
  refine Run.invariant (P := fun s => s.isReady = false) h hw fun s e s' hs hstep => ?_
  rcases isReady_step hstep with hsame | hset
  · rw [hsame, hs]
  · exact hset

/-- While the flag is not set, no marker has stored it. -/
theorem no_store_of_isReady {w₀ : LifecycleWorld} {tr : List (LifecycleWorld × LifecycleEvent)}
    (h : Run (lifecycleStep prim fromStr) w₀ tr w) (hw : w.isReady = true) (m : ℕ) :
    ∀ y ∈ tr, y.2 ≠ .store m := by
  rintro ⟨p, e⟩ hy rfl
  obtain ⟨tr₁, tr₂, rfl⟩ := List.mem_iff_append.mp hy
  obtain ⟨-, p', hp, hrest⟩ := h.split
  have hset : p'.isReady = false := by
    cases lifecycleStep_move hp
    rfl
  rw [isReady_run hrest hset] at hw
  exact absurd hw (by decide)

/-! ### No lost wakeup -/

/-- Who has set the flag, who is registered, and who has been woken. -/
structure LifecycleWorld.Heard (w : LifecycleWorld) : Prop where
  marked : ∀ m, w.marks m ≠ .idle → w.isReady = false
  enabled : ∀ x, w.waiters x = .enabled ∨ w.waiters x = .awaiting → w.lifecycle.shutdown.enabled x = true
  woken : ∀ m x, w.marks m = .done → w.waiters x = .awaiting → w.lifecycle.shutdown.woken x = true

namespace LifecycleWorld.Heard

variable {m : ℕ} {x : WaiterId}

theorem init (cfg : ReloadConfig) : (LifecycleWorld.init cfg).Heard where
  marked := fun m h => absurd rfl h
  enabled := by
    rintro x (h | h)
    · exact absurd h (by simp [LifecycleWorld.init])
    · exact absurd h (by simp [LifecycleWorld.init])
  woken := fun m x h => absurd h (by simp [LifecycleWorld.init])

theorem stored (h : w.Heard) (m : ℕ) : (w.store.setMark m .stored).Heard where
  marked := fun _ _ => rfl
  enabled := h.enabled
  woken := by
    intro m' x hm'
    by_cases hm : m' = m
    · subst hm
      simp [setMark] at hm'
    · exact h.woken m' x (by simpa [setMark, store, hm] using hm')

/-- The broadcast reaches everyone who is registered, parked or not. -/
theorem notified (h : w.Heard) (hm : w.marks m = .stored) :
    ((w.setShutdown w.lifecycle.shutdown.notifyWaiters).setMark m .done).Heard where
  marked := by
    intro m' hm'
    by_cases heq : m' = m
    · exact h.marked m (by simp [hm])
    · exact h.marked m' (by simpa [setMark, setShutdown, heq] using hm')
  enabled := by
    intro x hx
    rw [← h.enabled x hx]
    exact Notify.enabled_notifyWaiters _ x
  woken := by
    intro m' x _ hx
    rw [← h.enabled x (Or.inr hx)]
    exact Notify.woken_notifyWaiters _ x

/-- One call moves on, and its registration is the only one that may change. -/
theorem moved (h : w.Heard) {p : WaiterPhase} {n : Notify WaiterId}
    (hother : ∀ y, y ≠ x → n.enabled y = w.lifecycle.shutdown.enabled y ∧
      n.woken y = w.lifecycle.shutdown.woken y)
    (henabled : p = .enabled ∨ p = .awaiting → n.enabled x = true)
    (hwoken : p = .awaiting → ∀ m, w.marks m = .done → n.woken x = true) :
    ((w.setWaiter x p).setShutdown n).Heard where
  marked := h.marked
  enabled := by
    intro y hy
    by_cases heq : y = x
    · subst heq
      exact henabled (by simpa [setWaiter, setShutdown] using hy)
    · rw [← h.enabled y (by simpa [setWaiter, setShutdown, heq] using hy)]
      exact (hother y heq).1
  woken := by
    intro m y hm hy
    by_cases heq : y = x
    · subst heq
      exact hwoken (by simpa [setWaiter, setShutdown] using hy) m hm
    · rw [← h.woken m y hm (by simpa [setWaiter, setShutdown, heq] using hy)]
      exact (hother y heq).2

theorem enabling (h : w.Heard) (x : WaiterId) :
    ((w.setWaiter x .enabled).setShutdown (w.lifecycle.shutdown.enable x)).Heard := by
  refine h.moved (fun y hy => ⟨?_, ?_⟩) (fun _ => ?_) fun hp => ?_
  · exact Notify.enabled_enable_ne _ hy
  · exact Notify.woken_enable_ne _ hy
  · exact Notify.enabled_enable_self _ x
  · exact absurd hp (by decide)

/-- A caller that parks found the flag unset, so no marker has got as far as its
broadcast. -/
theorem parked (h : w.Heard) (hx : w.waiters x = .enabled) (hready : w.isReady = true) :
    (w.setWaiter x .awaiting).Heard := by
  refine h.moved (fun _ _ => ⟨rfl, rfl⟩) (fun _ => h.enabled x (Or.inl hx)) fun _ m hm => ?_
  have hflag := h.marked m (by simp [hm])
  rw [hready] at hflag
  exact absurd hflag (by decide)

theorem leave (h : w.Heard) (x : WaiterId) {p : WaiterPhase} (hp : p ≠ .enabled ∧ p ≠ .awaiting) :
    (w.leave x p).Heard := by
  refine h.moved (fun y hy => ⟨?_, ?_⟩) (fun hin => ?_) fun hin => absurd hin hp.2
  · exact Notify.enabled_forget_ne _ hy
  · exact Notify.woken_forget_ne _ hy
  · rcases hin with hin | hin
    · exact absurd hin hp.1
    · exact absurd hin hp.2

theorem setTask (h : w.Heard) (t : ReloadTask) (p : ReloadPhase) : (w.setTask t p).Heard :=
  ⟨h.marked, h.enabled, h.woken⟩

theorem reload (h : w.Heard) (r : Reload) : (w.reload prim fromStr r).Heard := by
  cases r with
  | policy cycle => exact ⟨h.marked, h.enabled, h.woken⟩
  | auth cycle => exact ⟨h.marked, h.enabled, h.woken⟩

theorem step (h : w.Heard) (hstep : lifecycleStep prim fromStr w e = some w') : w'.Heard := by
  cases lifecycleStep_move hstep with
  | stored => exact h.stored _
  | notified hm => exact h.notified hm
  | enabled => exact h.enabling _
  | parked hx hready => exact h.parked hx hready
  | seen => exact h.leave _ (by decide)
  | woken => exact h.leave _ (by decide)
  | dropped => exact h.leave _ (by decide)
  | firstTicked => exact h.setTask _ _
  | ticked => exact (h.leave _ (by decide)).setTask _ _
  | shutdown => exact h.setTask _ _
  | checked => exact h.setTask _ _
  | reloaded => exact (h.reload _).setTask _ _
  | reaped => exact (h.leave _ (by decide)).setTask _ _

end LifecycleWorld.Heard

theorem runs_heard {cfg : ReloadConfig} {tr : List (LifecycleWorld × LifecycleEvent)}
    (h : Run (lifecycleStep prim fromStr) (.init cfg) tr w) : w.Heard :=
  h.invariant (.init cfg) fun _ _ _ hs hstep => hs.step hstep

/-- Once a marker has completed, the next step of any call that is under way is
its return. -/
theorem marked_caller_returns {cfg : ReloadConfig} {tr : List (LifecycleWorld × LifecycleEvent)}
    (h : Run (lifecycleStep prim fromStr) (.init cfg) tr w) {m : ℕ} (hm : w.marks m = .done) {x : WaiterId}
    (hx : w.waiters x = .enabled ∨ w.waiters x = .awaiting) :
    ∃ e, lifecycleStep prim fromStr w e = some (w.leave x .returned) := by
  have heard := runs_heard h
  rcases hx with hx | hx
  · have hflag := heard.marked m (by simp [hm])
    exact ⟨.check x, by simp [lifecycleStep, hx, hflag]⟩
  · have hwoken := heard.woken m x hm hx
    exact ⟨.wake x, by simp [lifecycleStep, hx, hwoken]⟩

/-! ### The reload tasks -/

/-- `(p, checkReady t)` is the readiness check the next reload of `t` after `tr`
goes by; `tr₀` is what came before it. -/
def LastCheck (t : ReloadTask) (tr tr₀ : List (LifecycleWorld × LifecycleEvent)) (p : LifecycleWorld) : Prop :=
  ∃ tr₁, tr = tr₀ ++ (p, .checkReady t) :: tr₁ ∧
    ∀ y ∈ tr₁, y.2 ≠ .checkReady t ∧ ∀ r : Reload, r.task = t → y.2 ≠ .reload r

theorem LastCheck.snoc {t : ReloadTask} {tr tr₀ : List (LifecycleWorld × LifecycleEvent)}
    {p : LifecycleWorld} (h : LastCheck t tr tr₀ p) (hcheck : e ≠ .checkReady t)
    (hreload : ∀ r : Reload, r.task = t → e ≠ .reload r) : LastCheck t (tr ++ [(w, e)]) tr₀ p := by
  obtain ⟨tr₁, rfl, htr₁⟩ := h
  refine ⟨tr₁ ++ [(w, e)], by simp, fun y hy => ?_⟩
  rcases List.mem_append.mp hy with hy | hy
  · exact htr₁ y hy
  · rw [List.mem_singleton.mp hy]
    exact ⟨hcheck, hreload⟩

theorem setTask_ready {t t' : ReloadTask} {p : ReloadPhase} (h : (w.setTask t' p).tasks t = .ready) :
    (t = t' ∧ p = .ready) ∨ (t ≠ t' ∧ w.tasks t = .ready) := by
  by_cases heq : t = t'
  · subst heq
    exact Or.inl ⟨rfl, by simpa [LifecycleWorld.setTask] using h⟩
  · exact Or.inr ⟨heq, by simpa [LifecycleWorld.setTask, heq] using h⟩

theorem ready_of_setTask {t t' : ReloadTask} {p : ReloadPhase} (hp : p ≠ .ready)
    (h : (w.setTask t' p).tasks t = .ready) : t ≠ t' ∧ w.tasks t = .ready := by
  rcases setTask_ready h with ⟨-, heq⟩ | hw
  · exact absurd heq hp
  · exact hw

/-- A task that is about to reload has just checked, or was so before the step. -/
theorem ready_step {t : ReloadTask} (h : lifecycleStep prim fromStr w e = some w') (ht : w'.tasks t = .ready) :
    (e = .checkReady t ∧ w.isReady = true) ∨
      (w.tasks t = .ready ∧ e ≠ .checkReady t ∧ ∀ r : Reload, r.task = t → e ≠ .reload r) := by
  cases lifecycleStep_move h with
  | firstTicked => exact Or.inr ⟨(ready_of_setTask (by simp) ht).2, by simp, by simp⟩
  | ticked => exact Or.inr ⟨(ready_of_setTask (by simp) ht).2, by simp, by simp⟩
  | shutdown => exact Or.inr ⟨(ready_of_setTask (by simp) ht).2, by simp, by simp⟩
  | reaped => exact Or.inr ⟨(ready_of_setTask (by simp) ht).2, by simp, by simp⟩
  | checked =>
    rcases setTask_ready ht with ⟨rfl, hp⟩ | ⟨hne, hw⟩
    · refine Or.inl ⟨rfl, ?_⟩
      by_contra hready
      simp [hready] at hp
    · exact Or.inr ⟨hw, by simpa using Ne.symm hne, by simp⟩
  | @reloaded r _ =>
    obtain ⟨hne, hw⟩ := ready_of_setTask (by simp) ht
    rw [reload_tasks] at hw
    refine Or.inr ⟨hw, by simp, fun r' hr' heq => hne ?_⟩
    rw [← hr', LifecycleEvent.reload.inj heq]
  | _ => exact Or.inr ⟨ht, by simp, by simp⟩

theorem init_not_ready (cfg : ReloadConfig) (t : ReloadTask) : (LifecycleWorld.init cfg).tasks t ≠ .ready := by
  cases t with
  | policy => simp only [LifecycleWorld.init, spawnPolicyReload]; split_ifs <;> simp
  | auth =>
    simp only [LifecycleWorld.init, spawnAuthPolicyReload]
    split
    · split_ifs <;> simp
    · simp

theorem runs_lastCheck {cfg : ReloadConfig} {tr : List (LifecycleWorld × LifecycleEvent)} {t : ReloadTask}
    (h : Run (lifecycleStep prim fromStr) (.init cfg) tr w) (ht : w.tasks t = .ready) :
    ∃ tr₀ p, LastCheck t tr tr₀ p ∧ Run (lifecycleStep prim fromStr) (.init cfg) tr₀ p ∧ p.isReady = true := by
  induction h with
  | nil => exact absurd ht (init_not_ready cfg t)
  | snoc hrun hstep ih =>
    rcases ready_step hstep ht with ⟨rfl, hready⟩ | ⟨hbefore, hcheck, hreload⟩
    · exact ⟨_, _, ⟨[], rfl, by simp⟩, hrun, hready⟩
    · obtain ⟨tr₀, p, hlast, hp⟩ := ih hbefore
      exact ⟨tr₀, p, hlast.snoc hcheck hreload, hp⟩

/-- Shutdown is never lost: a caller parked when a marker has completed is
woken, readiness does not come back, and the readiness check of every reload
comes before the first store of the flag. -/
theorem shutdown_never_lost (prim : Primitives) (fromStr : Str → Option RawAuthPolicy) (cfg : ReloadConfig)
    (tr : List (LifecycleWorld × LifecycleEvent)) (w : LifecycleWorld)
    (h : Run (lifecycleStep prim fromStr) (.init cfg) tr w) :
    (¬∃ m x, w.marks m = .done ∧ w.waiters x = .awaiting ∧ w.lifecycle.shutdown.woken x = false) ∧
    (w.isReady = false → ∀ tr' w', Run (lifecycleStep prim fromStr) w tr' w' → w'.isReady = false) ∧
    ∀ tr₁ q r tr₂, tr = tr₁ ++ (q, .reload r) :: tr₂ →
      ∃ tr₀ p, LastCheck r.task tr₁ tr₀ p ∧ p.isReady = true ∧ ∀ y ∈ tr₀, ∀ m, y.2 ≠ .store m := by
  refine ⟨?_, fun hw tr' w' hrun => isReady_run hrun hw, ?_⟩
  · rintro ⟨m, x, hm, hx, hwoken⟩
    have := (runs_heard h).woken m x hm hx
    rw [hwoken] at this
    exact absurd this (by decide)
  · rintro tr₁ q r tr₂ rfl
    obtain ⟨hbefore, q', hq, -⟩ := h.split
    have ht : q.tasks r.task = .ready := by
      cases lifecycleStep_move hq
      assumption
    obtain ⟨tr₀, p, hlast, hrun, hready⟩ := runs_lastCheck hbefore ht
    exact ⟨tr₀, p, hlast, hready, fun y hy m => no_store_of_isReady hrun hready m y hy⟩

/-- A file-backed policy, reloaded every half minute, and no scoped tokens. -/
def fileReloadConfig : ReloadConfig where
  policy := ⟨.allowList ["id:a".toList, "id:b".toList] [], fileArgs.sources⟩
  auth := .disabledInsecure
  policyReloadIntervalSeconds := 30
  authPolicyReloadIntervalSeconds := 30
  policyBaseline := 0
  authBaseline := 0

/-- A caller parks; the flag is set between the readiness check of a reload and
the reload, and the marker completes while the task is back in its `select!`. -/
def markedReloadEvents : List LifecycleEvent :=
  [.enable (.caller 0), .check (.caller 0), .firstTick .policy, .tick .policy, .checkReady .policy, .store 0,
    .reload (.policy (keysCycle "id:c\n".toList)), .enable (.task .policy), .notifyWaiters 0]

theorem markedReload_isSome :
    (Run.exec (lifecycleStep vectors.primitives onePolicyFromStr) (.init fileReloadConfig)
      markedReloadEvents).isSome = true := by
  decide

/-- The run of `markedReloadEvents`. -/
def markedReload : List (LifecycleWorld × LifecycleEvent) × LifecycleWorld :=
  (Run.exec (lifecycleStep vectors.primitives onePolicyFromStr) (.init fileReloadConfig)
    markedReloadEvents).get markedReload_isSome

theorem shutdown_never_lost_marked :
    markedReload.2.marks 0 = .done ∧ markedReload.2.waiters (.caller 0) = .awaiting ∧
    markedReload.2.isReady = false ∧
    (¬∃ m x, markedReload.2.marks m = .done ∧ markedReload.2.waiters x = .awaiting ∧
      markedReload.2.lifecycle.shutdown.woken x = false) ∧
    ∀ tr₁ q r tr₂, markedReload.1 = tr₁ ++ (q, .reload r) :: tr₂ →
      ∃ tr₀ p, LastCheck r.task tr₁ tr₀ p ∧ p.isReady = true ∧ ∀ y ∈ tr₀, ∀ m, y.2 ≠ .store m := by
  have lost := shutdown_never_lost vectors.primitives onePolicyFromStr fileReloadConfig markedReload.1
    markedReload.2 (Run.of_isSome markedReloadEvents markedReload_isSome)
  exact ⟨by decide, by decide, by decide, lost.1, lost.2.2⟩

/-! ### What the tasks serve -/

/-- The cycle of the selector policy the event runs. -/
def LifecycleEvent.policyCycle : LifecycleEvent → Option PolicyCycle
  | .reload (.policy cycle) => some cycle
  | _ => none

/-- The cycle of the auth policy the event runs. -/
def LifecycleEvent.authCycle : LifecycleEvent → Option (FileRead × ℕ)
  | .reload (.auth cycle) => some cycle
  | _ => none

theorem policies_step (h : lifecycleStep prim fromStr w e = some w') :
    w'.policy = e.policyCycle.elim w.policy (policyReloadCycle w.policy) ∧
    w'.auth = e.authCycle.elim w.auth fun cycle => w.auth.map fun s => authReloadCycle prim fromStr s cycle := by
  cases lifecycleStep_move h with
  | @reloaded r _ =>
    cases r with
    | policy cycle => exact ⟨rfl, rfl⟩
    | auth cycle => exact ⟨rfl, rfl⟩
  | _ => exact ⟨rfl, rfl⟩

/-- What the tasks serve along a run is what the reload cycles taken in it make
of the startup policies. -/
theorem runs_policies {cfg : ReloadConfig} {tr : List (LifecycleWorld × LifecycleEvent)}
    (h : Run (lifecycleStep prim fromStr) (.init cfg) tr w) :
    w.policy = policyAfter cfg.policy cfg.policyBaseline (tr.filterMap fun y => y.2.policyCycle) ∧
    w.auth = cfg.auth.scopedPolicy.map fun policy =>
      authAfter prim fromStr policy cfg.authBaseline (tr.filterMap fun y => y.2.authCycle) := by
  induction h with
  | nil => exact ⟨rfl, rfl⟩
  | @snoc tr s s' e _ hstep ih =>
    obtain ⟨hpolicy, hauth⟩ := policies_step hstep
    rw [List.filterMap_append, List.filterMap_append]
    refine ⟨?_, ?_⟩
    · rw [hpolicy, ih.1]
      cases hc : e.policyCycle with
      | none => simp [hc]
      | some cycle => simp [hc, policyAfter_append]
    · rw [hauth, ih.2]
      cases hc : e.authCycle with
      | none => simp [hc]
      | some cycle => simp [hc, authAfter_append, Function.comp_def]

end Bweso
