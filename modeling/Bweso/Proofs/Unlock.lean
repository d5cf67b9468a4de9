import Mathlib.Data.Set.Card
import Bweso.Lib.Run
import Bweso.Sanity.Api
import Bweso.Spec.Unlock

/-! One unlock at a time: where the permit of the unlock semaphore can be, over
every interleaving of callers, tasks and cancellations. -/

namespace Bweso

namespace UnlockWorld

variable (w : UnlockWorld) (c c' : CallerId)

@[simp] theorem setCaller_permits (p : LoginPhase) : (w.setCaller c p).permits = w.permits := rfl
@[simp] theorem setCaller_tasks (p : LoginPhase) : (w.setCaller c p).tasks = w.tasks := rfl
@[simp] theorem setTask_permits (t : TaskPhase) : (w.setTask c t).permits = w.permits := rfl
@[simp] theorem setTask_callers (t : TaskPhase) : (w.setTask c t).callers = w.callers := rfl
@[simp] theorem release_permits : w.release.permits = w.permits + 1 := rfl
@[simp] theorem release_callers : w.release.callers = w.callers := rfl
@[simp] theorem release_tasks : w.release.tasks = w.tasks := rfl

theorem setCaller_callers (p : LoginPhase) :
    (w.setCaller c p).callers c' = if c' = c then p else w.callers c' := by
  simp [setCaller, Function.update_apply]

theorem setTask_tasks (t : TaskPhase) : (w.setTask c t).tasks c' = if c' = c then t else w.tasks c' := by
  simp [setTask, Function.update_apply]

end UnlockWorld

/-! ### What a step can do -/

inductive UnlockMove (cfg : ClientConfig) (w : UnlockWorld) : UnlockEvent → UnlockWorld → Prop
  | called {c : CallerId} {url : Url} (h : w.callers c = .idle)
      (hurl : endpointUrl cfg.endpoints.identityUrl ["connect".toList, "token".toList] = .ok url) :
      UnlockMove cfg w (.call c) (w.setCaller c .requesting)
  | callFailed {c : CallerId} {e : BitwardenApiError} (h : w.callers c = .idle)
      (hurl : endpointUrl cfg.endpoints.identityUrl ["connect".toList, "token".toList] = .error e) :
      UnlockMove cfg w (.call c) (w.setCaller c (.done (.error (.api e))))
  | replied {c : CallerId} {reply : HttpReply} {response : TokenResponse} (h : w.callers c = .requesting)
      (hreply : decodeJson cfg.serde.tokenResponse "token".toList reply = .ok response) :
      UnlockMove cfg w (.reply c reply) (w.setCaller c (.acquiring response))
  | replyFailed {c : CallerId} {reply : HttpReply} {e : BitwardenApiError} (h : w.callers c = .requesting)
      (hreply : decodeJson cfg.serde.tokenResponse "token".toList reply = .error e) :
      UnlockMove cfg w (.reply c reply) (w.setCaller c (.done (.error (.api e))))
  | granted {c : CallerId} {n : ℕ} {response : TokenResponse} (h : w.callers c = .acquiring response)
      (hp : w.permits = n + 1) :
      UnlockMove cfg w (.grant c) { w.setCaller c (.granted response) with permits := n }
  | spawned {c : CallerId} {response : TokenResponse} (h : w.callers c = .granted response) :
      UnlockMove cfg w (.spawn c) ((w.setCaller c .joining).setTask c (.queued response))
  | started {c : CallerId} {response : TokenResponse} (h : w.tasks c = .queued response) :
      UnlockMove cfg w (.start c) (w.setTask c (.running response))
  | finished {c : CallerId} {response : TokenResponse} (returns : Bool) (h : w.tasks c = .running response) :
      UnlockMove cfg w (.finish c returns)
        (w.setTask c (.ended (if returns then
          some (unlockSession cfg.prim response cfg.auth.masterPassword cfg.argon2MemoryLimitMib) else none))).release
  | joined {c : CallerId} {result : Option (Except BitwardenClientError BitwardenSession)}
      (h : w.callers c = .joining) (ht : w.tasks c = .ended result) :
      UnlockMove cfg w (.join c) (w.setCaller c (.done (result.getD (.error (.api .unlockTaskFailed)))))
  | droppedWaiting {c : CallerId}
      (h : w.callers c = .requesting ∨ (∃ response, w.callers c = .acquiring response) ∨ w.callers c = .joining) :
      UnlockMove cfg w (.drop c) (w.setCaller c .dropped)
  | droppedGranted {c : CallerId} {response : TokenResponse} (h : w.callers c = .granted response) :
      UnlockMove cfg w (.drop c) (w.setCaller c .dropped).release

theorem unlockStep_move {cfg : ClientConfig} {w w' : UnlockWorld} {e : UnlockEvent}
    (h : unlockStep cfg w e = some w') : UnlockMove cfg w e w' := by
  cases e with
  | call c =>
    simp only [unlockStep] at h
    split at h
    · rename_i hc
      split at h
      · rename_i hurl
        obtain rfl := Option.some.inj h
        exact .called hc hurl
      · rename_i hurl
        obtain rfl := Option.some.inj h
        exact .callFailed hc hurl
    · exact absurd h (by simp)
  | reply c reply =>
    simp only [unlockStep] at h
    split at h
    · rename_i hc
      split at h
      · rename_i hreply
        obtain rfl := Option.some.inj h
        exact .replied hc hreply
      · rename_i hreply
        obtain rfl := Option.some.inj h
        exact .replyFailed hc hreply
    · exact absurd h (by simp)
  | grant c =>
    simp only [unlockStep] at h
    split at h
    · rename_i hc hp
      obtain rfl := Option.some.inj h
      exact .granted hc hp
    · exact absurd h (by simp)
  | spawn c =>
    simp only [unlockStep] at h
    split at h
    · rename_i hc
      obtain rfl := Option.some.inj h
      exact .spawned hc
    · exact absurd h (by simp)
  | start c =>
    simp only [unlockStep] at h
    split at h
    · rename_i ht
      obtain rfl := Option.some.inj h
      exact .started ht
    · exact absurd h (by simp)
  | finish c returns =>
    simp only [unlockStep] at h
    split at h
    · rename_i ht
      obtain rfl := Option.some.inj h
      exact .finished returns ht
    · exact absurd h (by simp)
  | join c =>
    simp only [unlockStep] at h
    split at h
    · rename_i hc ht
      obtain rfl := Option.some.inj h
      exact .joined hc ht
    · exact absurd h (by simp)
  | drop c =>
    simp only [unlockStep] at h
    split at h
    · rename_i hc
      obtain rfl := Option.some.inj h
      exact .droppedWaiting (Or.inl hc)
    · rename_i response hc
      obtain rfl := Option.some.inj h
      exact .droppedWaiting (Or.inr (Or.inl ⟨response, hc⟩))
    · rename_i hc
      obtain rfl := Option.some.inj h
      exact .droppedWaiting (Or.inr (Or.inr hc))
    · rename_i hc
      obtain rfl := Option.some.inj h
      exact .droppedGranted hc
    · exact absurd h (by simp)

/-! ### Tasks belong to callers past the spawn -/

/-- The phases of a call before it spawns its task. -/
def LoginPhase.beforeSpawn : LoginPhase → Bool
  | .idle | .requesting | .acquiring _ | .granted _ => true
  | .joining | .done _ | .dropped => false

/-- A call that has not spawned has no task. -/
def UnlockWorld.Unspawned (w : UnlockWorld) : Prop :=
  ∀ c, (w.callers c).beforeSpawn = true → w.tasks c = .none

theorem UnlockWorld.Unspawned.setCaller {w : UnlockWorld} (h : w.Unspawned) {c : CallerId} {p : LoginPhase}
    (hp : p.beforeSpawn = true → (w.callers c).beforeSpawn = true) : (w.setCaller c p).Unspawned := by
  intro c' hc'
  rw [UnlockWorld.setCaller_callers] at hc'
  split_ifs at hc' with heq
  · rw [heq]
    exact h c (hp hc')
  · exact h c' hc'

theorem UnlockWorld.Unspawned.setTask {w : UnlockWorld} (h : w.Unspawned) {c : CallerId} {t : TaskPhase}
    (hc : (w.callers c).beforeSpawn = false) : (w.setTask c t).Unspawned := by
  intro c' hc'
  rw [UnlockWorld.setTask_tasks, if_neg]
  · exact h c' hc'
  · rintro rfl
    rw [UnlockWorld.setTask_callers, hc] at hc'
    exact absurd hc' (by simp)

/-- The caller of a task has spawned it. -/
theorem UnlockWorld.Unspawned.spawned {w : UnlockWorld} (h : w.Unspawned) {c : CallerId} (ht : w.tasks c ≠ .none) :
    (w.callers c).beforeSpawn = false := by
  by_contra hc
  exact ht (h c (by simpa using hc))

theorem unspawned_step {cfg : ClientConfig} {w w' : UnlockWorld} {e : UnlockEvent} (h : w.Unspawned)
    (hs : unlockStep cfg w e = some w') : w'.Unspawned := by
  cases unlockStep_move hs with
  | called hc hurl => exact h.setCaller fun _ => by rw [hc]; rfl
  | callFailed hc hurl => exact h.setCaller fun _ => by rw [hc]; rfl
  | replied hc hreply => exact h.setCaller fun _ => by rw [hc]; rfl
  | replyFailed hc hreply => exact h.setCaller fun _ => by rw [hc]; rfl
  | granted hc hp => exact h.setCaller fun _ => by rw [hc]; rfl
  | @spawned c response hc =>
    apply UnlockWorld.Unspawned.setTask
    · exact h.setCaller fun hb => absurd hb (by simp [LoginPhase.beforeSpawn])
    · simp [UnlockWorld.setCaller_callers, LoginPhase.beforeSpawn]
  | started ht => exact h.setTask (h.spawned (by simp [ht]))
  | finished returns ht => exact h.setTask (h.spawned (by simp [ht]))
  | joined hc ht => exact h.setCaller fun hb => absurd hb (by simp [LoginPhase.beforeSpawn])
  | droppedWaiting hc => exact h.setCaller fun hb => absurd hb (by simp [LoginPhase.beforeSpawn])
  | droppedGranted hc => exact h.setCaller fun hb => absurd hb (by simp [LoginPhase.beforeSpawn])

/-! ### The three places of the permit -/

section
variable {α β : Type*} [DecidableEq α] {P : β → Prop} {f : α → β} {a : α} {b : β}

/-- Moving one of them into a phase, seen by those who are in it. -/
theorem setOf_update_pos (hb : P b) : {x | P (Function.update f a b x)} = insert a {x | P (f x)} := by
  ext x
  by_cases hx : x = a
  · subst hx
    simp [hb]
  · simp [hx]

theorem setOf_update_neg (hb : ¬ P b) : {x | P (Function.update f a b x)} = {x | P (f x)} \ {a} := by
  ext x
  by_cases hx : x = a
  · subst hx
    simp [hb]
  · simp [hx]

/-- From outside the phase to outside it. -/
theorem setOf_update_same (hb : ¬ P b) (ha : ¬ P (f a)) :
    {x | P (Function.update f a b x)} = {x | P (f x)} := by
  rw [setOf_update_neg hb]
  exact Set.sdiff_singleton_eq_self ha

end

/-- What a step does to the permit: nothing, or one of the five ways it moves on. -/
inductive UnlockEffect (w : UnlockWorld) (e : UnlockEvent) (w' : UnlockWorld) : Prop
  | kept (hp : w'.permits = w.permits) (hg : w'.granted = w.granted) (hq : w'.queued = w.queued)
      (hr : w'.running = w.running) (hne : ∀ c returns, e ≠ .finish c returns) (hnd : ∀ c ∈ w.granted, e ≠ .drop c)
  | taken {c : CallerId} (he : e = .grant c) (hp : w.permits = w'.permits + 1) (hc : c ∉ w.granted)
      (hg : w'.granted = insert c w.granted) (hq : w'.queued = w.queued) (hr : w'.running = w.running)
  | spawned {c : CallerId} (he : e = .spawn c) (hp : w'.permits = w.permits) (hc : c ∈ w.granted)
      (hc' : c ∉ w.queued) (hg : w'.granted = w.granted \ {c}) (hq : w'.queued = insert c w.queued)
      (hr : w'.running = w.running)
  | started {c : CallerId} (he : e = .start c) (hp : w'.permits = w.permits) (hc : c ∈ w.queued)
      (hc' : c ∉ w.running) (hg : w'.granted = w.granted) (hq : w'.queued = w.queued \ {c})
      (hr : w'.running = insert c w.running)
  | ended {c : CallerId} {returns : Bool} (he : e = .finish c returns) (hp : w'.permits = w.permits + 1)
      (hc : c ∈ w.running) (hg : w'.granted = w.granted) (hq : w'.queued = w.queued)
      (hr : w'.running = w.running \ {c})
  | dropped {c : CallerId} (he : e = .drop c) (hp : w'.permits = w.permits + 1) (hc : c ∈ w.granted)
      (hg : w'.granted = w.granted \ {c}) (hq : w'.queued = w.queued) (hr : w'.running = w.running)

@[simp] theorem isGranted_iff (p : LoginPhase) : p.IsGranted ↔ ∃ response, p = .granted response := Iff.rfl

@[simp] theorem isQueued_iff (t : TaskPhase) : t.IsQueued ↔ ∃ response, t = .queued response := Iff.rfl

@[simp] theorem isRunning_iff (t : TaskPhase) : t.IsRunning ↔ ∃ response, t = .running response := Iff.rfl

theorem unlockEffect {cfg : ClientConfig} {w w' : UnlockWorld} {e : UnlockEvent} (h : w.Unspawned)
    (hs : unlockStep cfg w e = some w') : UnlockEffect w e w' := by
  -- a caller that is not granted before or after leaves all three places alone
  have idle : ∀ {c p}, ¬ LoginPhase.IsGranted p → ¬ (w.callers c).IsGranted →
      (w.setCaller c p).granted = w.granted :=
    fun hp hc => setOf_update_same (P := LoginPhase.IsGranted) hp hc
  cases unlockStep_move hs with
  | called hc hurl => exact .kept rfl (idle (by simp) (by simp [hc])) rfl rfl (by simp) (by simp)
  | callFailed hc hurl => exact .kept rfl (idle (by simp) (by simp [hc])) rfl rfl (by simp) (by simp)
  | replied hc hreply => exact .kept rfl (idle (by simp) (by simp [hc])) rfl rfl (by simp) (by simp)
  | replyFailed hc hreply => exact .kept rfl (idle (by simp) (by simp [hc])) rfl rfl (by simp) (by simp)
  | @granted c n response hc hp =>
    have hnot : c ∉ w.granted := by simp [UnlockWorld.granted, hc]
    exact .taken rfl hp hnot (setOf_update_pos (P := LoginPhase.IsGranted) ⟨response, rfl⟩) rfl rfl
  | @spawned c response hc =>
    have hnone : w.tasks c = .none := h c (by rw [hc]; rfl)
    refine .spawned rfl rfl ⟨response, hc⟩ ?_ (setOf_update_neg (P := LoginPhase.IsGranted) (by simp))
      (setOf_update_pos (P := TaskPhase.IsQueued) ⟨response, rfl⟩) ?_
    · simp [UnlockWorld.queued, hnone]
    · exact setOf_update_same (P := TaskPhase.IsRunning) (by simp) (by simp [hnone])
  | @started c response ht =>
    refine .started rfl rfl ⟨response, ht⟩ ?_ rfl (setOf_update_neg (P := TaskPhase.IsQueued) (by simp))
      (setOf_update_pos (P := TaskPhase.IsRunning) ⟨response, rfl⟩)
    simp [UnlockWorld.running, ht]
  | @finished c response returns ht =>
    refine .ended rfl rfl ⟨response, ht⟩ rfl ?_ (setOf_update_neg (P := TaskPhase.IsRunning) (by simp))
    exact setOf_update_same (P := TaskPhase.IsQueued) (by simp) (by simp [ht])
  | joined hc ht => exact .kept rfl (idle (by simp) (by simp [hc])) rfl rfl (by simp) (by simp)
  | @droppedWaiting c hc =>
    have hng : ¬ (w.callers c).IsGranted := by
      rcases hc with hc | ⟨r, hc⟩ | hc <;> simp [hc]
    refine .kept rfl (idle (by simp) hng) rfl rfl (by simp) ?_
    intro c' hc' heq
    rw [← UnlockEvent.drop.inj heq] at hc'
    exact hng hc'
  | @droppedGranted c response hc =>
    exact .dropped rfl rfl ⟨response, hc⟩ (setOf_update_neg (P := LoginPhase.IsGranted) (by simp)) rfl rfl

/-! ### The account of the permit -/

/-- Available, inside an unlock, or granted and not there yet. -/
noncomputable def UnlockWorld.account (w : UnlockWorld) : ℕ∞ :=
  w.permits + w.running.encard + (w.granted.encard + w.queued.encard)

theorem account_step {w w' : UnlockWorld} {e : UnlockEvent} (h : UnlockEffect w e w') : w'.account = w.account := by
  unfold UnlockWorld.account
  cases h with
  | kept hp hg hq hr => rw [hp, hg, hq, hr]
  | taken he hp hc hg hq hr =>
    rw [hp, hg, hq, hr, Set.encard_insert_of_notMem hc]
    push_cast
    ring
  | spawned he hp hc hc' hg hq hr =>
    rw [hp, hg, hq, hr, Set.encard_insert_of_notMem hc', ← Set.encard_sdiff_singleton_add_one hc]
    ring
  | started he hp hc hc' hg hq hr =>
    rw [hp, hg, hq, hr, Set.encard_insert_of_notMem hc', ← Set.encard_sdiff_singleton_add_one hc]
    ring
  | ended he hp hc hg hq hr =>
    rw [hp, hg, hq, hr, ← Set.encard_sdiff_singleton_add_one hc]
    push_cast
    ring
  | dropped he hp hc hg hq hr =>
    rw [hp, hg, hq, hr, ← Set.encard_sdiff_singleton_add_one hc]
    push_cast
    ring

theorem account_init : UnlockWorld.init.account = 1 := by
  simp [UnlockWorld.account, UnlockWorld.init, UnlockWorld.running, UnlockWorld.granted, UnlockWorld.queued]

theorem unspawned_init : UnlockWorld.init.Unspawned := fun _ _ => rfl

theorem account_run {cfg : ClientConfig} {tr : List (UnlockWorld × UnlockEvent)} {w : UnlockWorld}
    (h : Run (unlockStep cfg) .init tr w) : w.Unspawned ∧ w.account = 1 := by
  apply h.invariant (P := fun w => w.Unspawned ∧ w.account = 1) ⟨unspawned_init, account_init⟩
  intro w e w' ⟨hu, ha⟩ hs
  exact ⟨unspawned_step hu hs, (account_step (unlockEffect hu hs)).trans ha⟩

/-- A permit comes back exactly when a task ends or a caller that has one is
dropped, and one at a time. -/
theorem permits_step {w w' : UnlockWorld} {e : UnlockEvent} (h : UnlockEffect w e w') :
    (w.permits < w'.permits ↔ (∃ c returns, e = .finish c returns) ∨ ∃ c ∈ w.granted, e = .drop c) ∧
      w'.permits ≤ w.permits + 1 := by
  cases h with
  | kept hp hg hq hr hne hnd =>
    refine ⟨⟨fun hlt => by omega, fun he => ?_⟩, by omega⟩
    rcases he with ⟨c, returns, he⟩ | ⟨c, hc, he⟩
    · exact absurd he (hne c returns)
    · exact absurd he (hnd c hc)
  | taken he hp =>
    subst he
    refine ⟨⟨fun hlt => by omega, fun he => ?_⟩, by omega⟩
    simp at he
  | spawned he hp =>
    subst he
    refine ⟨⟨fun hlt => by omega, fun he => ?_⟩, by omega⟩
    simp at he
  | started he hp =>
    subst he
    refine ⟨⟨fun hlt => by omega, fun he => ?_⟩, by omega⟩
    simp at he
  | @ended c returns he hp =>
    refine ⟨⟨fun _ => Or.inl ⟨c, returns, he⟩, fun _ => ?_⟩, ?_⟩
    · omega
    · omega
  | @dropped c he hp hc =>
    refine ⟨⟨fun _ => Or.inr ⟨c, hc, he⟩, fun _ => ?_⟩, ?_⟩
    · omega
    · omega

theorem running_unique {w : UnlockWorld} (h : w.account = 1) {c c' : CallerId} (hc : c ∈ w.running)
    (hc' : c' ∈ w.running) : c = c' := by
  have hle : w.running.encard ≤ 1 := by
    rw [← h]
    unfold UnlockWorld.account
    exact le_trans le_add_self le_self_add
  exact Set.encard_le_one_iff.mp hle c c' hc hc'

/-- In every interleaving of callers, tasks and dropped callers at most one unlock
executes, the permit is available, inside an unlock or granted to one that has
not started, and it comes back when a task ends or a caller is dropped before it
spawned one, and at no other step. -/
theorem one_unlock_at_a_time (cfg : ClientConfig) (tr : List (UnlockWorld × UnlockEvent)) (w : UnlockWorld)
    (h : Run (unlockStep cfg) .init tr w) :
    (∀ c ∈ w.running, ∀ c' ∈ w.running, c = c') ∧
    (w.permits + w.running.encard + (w.granted.encard + w.queued.encard) = 1) ∧
    ∀ p e p', (p, e) ∈ tr → unlockStep cfg p e = some p' →
      ((p.permits < p'.permits ↔ (∃ c returns, e = .finish c returns) ∨ ∃ c ∈ p.granted, e = .drop c) ∧
        p'.permits ≤ p.permits + 1) := by
  refine ⟨fun c hc c' hc' => running_unique (account_run h).2 hc hc', (account_run h).2, fun p e p' hmem hs => ?_⟩
  obtain ⟨tr₁, tr₂, -, hrun⟩ := h.before hmem
  exact permits_step (unlockEffect (account_run hrun).1 hs)

/-- Two callers; the first is dropped inside its unlock, and the second still
waits for the permit the running task holds. -/
def droppedUnlockEvents : List UnlockEvent :=
  [.call 0, .call 1, .reply 0 (.response 200 [asBytes vectorTokenText] true),
    .reply 1 (.response 200 [asBytes vectorTokenText] true), .grant 0, .spawn 0, .start 0, .drop 0]

theorem droppedUnlock_isSome : (Run.exec (unlockStep vectorConfig) .init droppedUnlockEvents).isSome = true := by
  decide +kernel

/-- Where they lead. -/
def droppedUnlock : UnlockWorld :=
  ((Run.exec (unlockStep vectorConfig) .init droppedUnlockEvents).get droppedUnlock_isSome).2

theorem droppedUnlock_run : Run (unlockStep vectorConfig) .init
    ((Run.exec (unlockStep vectorConfig) .init droppedUnlockEvents).get droppedUnlock_isSome).1 droppedUnlock :=
  Run.of_isSome droppedUnlockEvents droppedUnlock_isSome

theorem one_unlock_at_a_time_dropped :
    droppedUnlock.callers 0 = .dropped ∧ droppedUnlock.tasks 0 = .running vectorTokenResponse ∧
    (droppedUnlock.permits + droppedUnlock.running.encard +
      (droppedUnlock.granted.encard + droppedUnlock.queued.encard) = 1) := by
  have phases : droppedUnlock.callers 0 = .dropped ∧ droppedUnlock.tasks 0 = .running vectorTokenResponse := by
    decide +kernel
  exact ⟨phases.1, phases.2, (one_unlock_at_a_time vectorConfig _ droppedUnlock droppedUnlock_run).2.1⟩

/-! ### What the calls return -/

section
variable (cfg : ClientConfig)

/-- A token response the client can have received. -/
def Received (response : TokenResponse) : Prop :=
  ∃ url reply, endpointUrl cfg.endpoints.identityUrl ["connect".toList, "token".toList] = .ok url ∧
    decodeJson cfg.serde.tokenResponse "token".toList reply = .ok response

/-- The phase is one of a sequential login with some upstream. -/
def LoginPhase.Sequential : LoginPhase → Prop
  | .requesting => ∃ url, endpointUrl cfg.endpoints.identityUrl ["connect".toList, "token".toList] = .ok url
  | .acquiring response | .granted response => Received cfg response
  | .done result => ∃ up, loginWithApiKey cfg up = result
  | .idle | .joining | .dropped => True

def TaskPhase.Sequential : TaskPhase → Prop
  | .queued response | .running response => Received cfg response
  | .ended result => ∃ response, Received cfg response ∧ ∀ r, result = some r →
      r = unlockSession cfg.prim response cfg.auth.masterPassword cfg.argon2MemoryLimitMib
  | .none => True

def UnlockWorld.Sequential (w : UnlockWorld) : Prop :=
  ∀ c, (w.callers c).Sequential cfg ∧ (w.tasks c).Sequential cfg

variable {cfg} {w w' : UnlockWorld}

theorem UnlockWorld.Sequential.setCaller (h : w.Sequential cfg) {c : CallerId} {p : LoginPhase}
    (hp : p.Sequential cfg) : (w.setCaller c p).Sequential cfg := by
  intro c'
  rw [UnlockWorld.setCaller_callers]
  split_ifs
  · exact ⟨hp, (h c').2⟩
  · exact h c'

theorem UnlockWorld.Sequential.setTask (h : w.Sequential cfg) {c : CallerId} {t : TaskPhase}
    (ht : t.Sequential cfg) : (w.setTask c t).Sequential cfg := by
  intro c'
  rw [UnlockWorld.setTask_tasks]
  split_ifs
  · exact ⟨(h c').1, ht⟩
  · exact h c'

/-- A login over a network that sends this one reply. -/
theorem loginWithApiKey_reply {url : Url} {reply : HttpReply} (returns : Bool)
    (hurl : endpointUrl cfg.endpoints.identityUrl ["connect".toList, "token".toList] = .ok url) :
    loginWithApiKey cfg ⟨fun _ _ => reply, returns, fun _ _ => .transportError⟩ = (do
      let response ← (decodeJson cfg.serde.tokenResponse "token".toList reply).mapError .api
      if !returns then throw (.api .unlockTaskFailed)
      unlockSession cfg.prim response cfg.auth.masterPassword cfg.argon2MemoryLimitMib) := by
  simp only [loginWithApiKey, hurl, Except.mapError, Except.ok_bind]

theorem sequential_step {e : UnlockEvent} (h : w.Sequential cfg) (hs : unlockStep cfg w e = some w') :
    w'.Sequential cfg := by
  cases unlockStep_move hs with
  | called hc hurl => exact h.setCaller ⟨_, hurl⟩
  | callFailed hc hurl =>
    refine h.setCaller ⟨⟨fun _ _ => .transportError, true, fun _ _ => .transportError⟩, ?_⟩
    simp only [loginWithApiKey, hurl, Except.mapError, Except.error_bind]
  | @replied c reply response hc hreply =>
    obtain ⟨url, hurl⟩ : ∃ url, endpointUrl _ _ = .ok url := by simpa [LoginPhase.Sequential, hc] using (h c).1
    exact h.setCaller ⟨url, reply, hurl, hreply⟩
  | @replyFailed c reply e hc hreply =>
    obtain ⟨url, hurl⟩ : ∃ url, endpointUrl _ _ = .ok url := by simpa [LoginPhase.Sequential, hc] using (h c).1
    refine h.setCaller ⟨_, (@loginWithApiKey_reply cfg url reply true hurl).trans ?_⟩
    simp only [hreply, Except.mapError, Except.error_bind]
  | @granted c n response hc hp =>
    have hr : Received cfg response := by simpa [LoginPhase.Sequential, hc] using (h c).1
    exact h.setCaller (p := .granted response) hr
  | @spawned c response hc =>
    have hr : Received cfg response := by simpa [LoginPhase.Sequential, hc] using (h c).1
    exact UnlockWorld.Sequential.setTask (h.setCaller (p := .joining) trivial) hr
  | @started c response ht =>
    have hr : Received cfg response := by simpa [TaskPhase.Sequential, ht] using (h c).2
    exact h.setTask hr
  | @finished c response returns ht =>
    have hr : Received cfg response := by simpa [TaskPhase.Sequential, ht] using (h c).2
    refine h.setTask ⟨response, hr, fun r heq => ?_⟩
    cases returns with
    | true => exact (Option.some.inj heq).symm
    | false => exact absurd heq (by simp)
  | @joined c result hc ht =>
    obtain ⟨response, ⟨url, reply, hurl, hreply⟩, hresult⟩ :
        (TaskPhase.ended result).Sequential cfg := by rw [← ht]; exact (h c).2
    refine h.setCaller ⟨_, (@loginWithApiKey_reply cfg url reply result.isSome hurl).trans ?_⟩
    simp only [hreply, Except.mapError, Except.ok_bind]
    cases result with
    | none => rfl
    | some r => exact (hresult r rfl).symm
  | droppedWaiting hc => exact h.setCaller trivial
  | droppedGranted hc => exact h.setCaller trivial

/-- Whatever the interleaving, a call that completes returns what a login by
itself returns for some behaviour of the network and of its own task. -/
theorem done_sequential {tr : List (UnlockWorld × UnlockEvent)} (h : Run (unlockStep cfg) .init tr w) {c : CallerId}
    {result : Except BitwardenClientError BitwardenSession} (hdone : w.callers c = .done result) :
    ∃ up, loginWithApiKey cfg up = result := by
  have hseq : w.Sequential cfg := h.invariant (fun _ => ⟨trivial, trivial⟩) fun _ _ _ hw hs => sequential_step hw hs
  simpa [LoginPhase.Sequential, hdone] using (hseq c).1

end

end Bweso
