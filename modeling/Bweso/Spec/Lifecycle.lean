import Bweso.Lib.Notify
import Bweso.Spec.Auth

/-! The process lifecycle: calls of `mark_shutting_down` and of
`shutdown_requested` at their atomic steps, with the two reload tasks that wait
for shutdown beside a ticking timer. -/

namespace Bweso

inductive ReloadTask
  | policy
  | auth
  deriving DecidableEq

/-- A call of `shutdown_requested`: one of its own, or the one in a reload
task's `select!`. -/
inductive WaiterId
  | caller (n : ℕ)
  | task (t : ReloadTask)
  deriving DecidableEq

structure Lifecycle where
  shuttingDown : Bool
  shutdown : Notify WaiterId

/-- `Lifecycle::default` -/
def Lifecycle.init : Lifecycle := { shuttingDown := false, shutdown := .init }

def Lifecycle.isReady (l : Lifecycle) : Bool := !l.shuttingDown

/-- A call of `mark_shutting_down`. -/
inductive MarkPhase
  | idle
  /-- the flag is set, and `notify_waiters` is not called yet -/
  | stored
  | done
  deriving DecidableEq

inductive WaiterPhase
  | idle
  /-- registered, and the flag is not checked yet -/
  | enabled
  /-- past the check, in `notified.await` -/
  | awaiting
  | returned
  | dropped
  deriving DecidableEq

inductive ReloadPhase
  /-- no task was spawned -/
  | none
  /-- waiting for the first tick, which is skipped -/
  | spawned
  /-- in the `select!` -/
  | selecting
  /-- the tick won -/
  | ticked
  /-- the readiness check passed -/
  | ready
  | ended
  deriving DecidableEq

/-- One reload, with what the files give when it reads them. -/
inductive Reload
  | policy (cycle : PolicyCycle)
  | auth (cycle : FileRead × ℕ)

def Reload.task : Reload → ReloadTask
  | .policy _ => .policy
  | .auth _ => .auth

structure LifecycleWorld where
  lifecycle : Lifecycle
  marks : ℕ → MarkPhase
  waiters : WaiterId → WaiterPhase
  tasks : ReloadTask → ReloadPhase
  policy : SelectorPolicy × ReloadMetrics
  auth : Option (ScopedAuthPolicy × ReloadMetrics)

/-- Whether the task is spawned. -/
def spawnPolicyReload (policy : SelectorPolicy) (intervalSeconds : ℕ) : ReloadPhase :=
  if !policy.sources.hasFile then .none else if intervalSeconds = 0 then .none else .spawned

def spawnAuthPolicyReload (intervalSeconds : ℕ) : ReloadPhase :=
  if intervalSeconds = 0 then .none else .spawned

def WebhookAuth.scopedPolicy : WebhookAuth → Option ScopedAuthPolicy
  | .scoped policy => some policy
  | _ => none

/-- What `main` starts the reload tasks with, and the times of the two
baselines. -/
structure ReloadConfig where
  policy : SelectorPolicy
  auth : WebhookAuth
  policyReloadIntervalSeconds : ℕ
  authPolicyReloadIntervalSeconds : ℕ
  policyBaseline : ℕ
  authBaseline : ℕ

namespace LifecycleWorld

/-- `main` once both tasks are spawned. -/
def init (cfg : ReloadConfig) : LifecycleWorld where
  lifecycle := .init
  marks := fun _ => .idle
  waiters := fun _ => .idle
  tasks
    | .policy => spawnPolicyReload cfg.policy cfg.policyReloadIntervalSeconds
    | .auth => match cfg.auth.scopedPolicy with
      | some _ => spawnAuthPolicyReload cfg.authPolicyReloadIntervalSeconds
      | none => .none
  policy := policyStartup cfg.policy cfg.policyBaseline
  auth := cfg.auth.scopedPolicy.map fun policy => authStartup policy cfg.authBaseline

def isReady (w : LifecycleWorld) : Bool := w.lifecycle.isReady

def setMark (w : LifecycleWorld) (m : ℕ) (p : MarkPhase) : LifecycleWorld :=
  { w with marks := Function.update w.marks m p }

def setWaiter (w : LifecycleWorld) (x : WaiterId) (p : WaiterPhase) : LifecycleWorld :=
  { w with waiters := Function.update w.waiters x p }

def setTask (w : LifecycleWorld) (t : ReloadTask) (p : ReloadPhase) : LifecycleWorld :=
  { w with tasks := Function.update w.tasks t p }

/-- `shutting_down.store(true)` -/
def store (w : LifecycleWorld) : LifecycleWorld := { w with lifecycle.shuttingDown := true }

def setShutdown (w : LifecycleWorld) (n : Notify WaiterId) : LifecycleWorld := { w with lifecycle.shutdown := n }

/-- The call of `shutdown_requested` is over, and its `Notified` is dropped. -/
def leave (w : LifecycleWorld) (x : WaiterId) (p : WaiterPhase) : LifecycleWorld :=
  (w.setWaiter x p).setShutdown (w.lifecycle.shutdown.forget x)

/-- A caller may call at any time; a task does so in its `select!`. -/
def calls (w : LifecycleWorld) : WaiterId → Bool
  | .caller _ => true
  | .task t => w.tasks t == .selecting

/-- The loop body after the readiness check. -/
def reload (prim : Primitives) (fromStr : Str → Option RawAuthPolicy) (w : LifecycleWorld) : Reload → LifecycleWorld
  | .policy cycle => { w with policy := policyReloadCycle w.policy cycle }
  | .auth cycle => { w with auth := w.auth.map fun s => authReloadCycle prim fromStr s cycle }

end LifecycleWorld

inductive LifecycleEvent
  | store (m : ℕ)
  | notifyWaiters (m : ℕ)
  | enable (x : WaiterId)
  | check (x : WaiterId)
  /-- the `Notified` a caller awaits is ready -/
  | wake (x : WaiterId)
  /-- the future of a caller is dropped while it waits -/
  | drop (n : ℕ)
  | firstTick (t : ReloadTask)
  /-- the tick wins the `select!` -/
  | tick (t : ReloadTask)
  /-- `shutdown_requested` wins it -/
  | shutdown (t : ReloadTask)
  | checkReady (t : ReloadTask)
  | reload (r : Reload)
  /-- the runtime drops the task where it waits -/
  | reap (t : ReloadTask)

open LifecycleWorld in
def lifecycleStep (prim : Primitives) (fromStr : Str → Option RawAuthPolicy) (w : LifecycleWorld) :
    LifecycleEvent → Option LifecycleWorld
  | .store m =>
    match w.marks m with
    | .idle => some (w.store.setMark m .stored)
    | _ => none
  | .notifyWaiters m =>
    match w.marks m with
    | .stored => some ((w.setShutdown w.lifecycle.shutdown.notifyWaiters).setMark m .done)
    | _ => none
  | .enable x =>
    match w.calls x, w.waiters x with
    | true, .idle => some ((w.setWaiter x .enabled).setShutdown (w.lifecycle.shutdown.enable x))
    | _, _ => none
  | .check x =>
    match w.waiters x with
    | .enabled => if !w.isReady then some (w.leave x .returned) else some (w.setWaiter x .awaiting)
    | _ => none
  | .wake x =>
    match w.waiters x, w.lifecycle.shutdown.woken x with
    | .awaiting, true => some (w.leave x .returned)
    | _, _ => none
  | .drop n =>
    match w.waiters (.caller n) with
    | .awaiting => some (w.leave (.caller n) .dropped)
    | _ => none
  | .firstTick t =>
    match w.tasks t with
    | .spawned => some (w.setTask t .selecting)
    | _ => none
  | .tick t =>
    -- the timer may be ready before the other branch is polled at all
    match w.tasks t, w.waiters (.task t) with
    | .selecting, .idle | .selecting, .awaiting => some ((w.leave (.task t) .idle).setTask t .ticked)
    | _, _ => none
  | .shutdown t =>
    match w.tasks t, w.waiters (.task t) with
    | .selecting, .returned => some (w.setTask t .ended)
    | _, _ => none
  | .checkReady t =>
    match w.tasks t with
    | .ticked => some (w.setTask t (if !w.isReady then .ended else .ready))
    | _ => none
  | .reload r =>
    match w.tasks r.task with
    | .ready => some ((w.reload prim fromStr r).setTask r.task .selecting)
    | _ => none
  | .reap t =>
    match w.tasks t, w.waiters (.task t) with
    | .spawned, _ | .selecting, .awaiting => some ((w.leave (.task t) .dropped).setTask t .ended)
    | _, _ => none

end Bweso
