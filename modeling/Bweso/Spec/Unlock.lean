import Bweso.Spec.Api

/-! Concurrent calls of `login_with_api_key` on clones of one client: the
callers at their await points, the semaphore of one permit, and the blocking
tasks that hold the permit once they are spawned. A caller may be dropped at any
await point; a spawned task runs on without it. -/

namespace Bweso

abbrev CallerId := ℕ

inductive LoginPhase
  | idle
  /-- waiting for the token response -/
  | requesting
  /-- waiting in `acquire_owned` -/
  | acquiring (response : TokenResponse)
  /-- the permit is the caller's, and the task is not spawned yet -/
  | granted (response : TokenResponse)
  /-- waiting for the blocking task -/
  | joining
  | done (result : Except BitwardenClientError BitwardenSession)
  | dropped
  deriving DecidableEq

/-- The task a caller spawned; it owns the permit until it ends. -/
inductive TaskPhase
  | none
  | queued (response : TokenResponse)
  /-- inside `unlock_session` -/
  | running (response : TokenResponse)
  /-- returned, or panicked -/
  | ended (result : Option (Except BitwardenClientError BitwardenSession))
  deriving DecidableEq

structure UnlockWorld where
  permits : ℕ
  callers : CallerId → LoginPhase
  tasks : CallerId → TaskPhase

namespace UnlockWorld

/-- `with_options` makes the semaphore with one permit. -/
def init : UnlockWorld := { permits := 1, callers := fun _ => .idle, tasks := fun _ => .none }

def setCaller (w : UnlockWorld) (c : CallerId) (p : LoginPhase) : UnlockWorld :=
  { w with callers := Function.update w.callers c p }

def setTask (w : UnlockWorld) (c : CallerId) (t : TaskPhase) : UnlockWorld :=
  { w with tasks := Function.update w.tasks c t }

/-- A permit is dropped. -/
def release (w : UnlockWorld) : UnlockWorld := { w with permits := w.permits + 1 }

end UnlockWorld

inductive UnlockEvent
  | call (c : CallerId)
  | reply (c : CallerId) (reply : HttpReply)
  /-- the semaphore hands a permit to a waiting caller -/
  | grant (c : CallerId)
  | spawn (c : CallerId)
  /-- a blocking worker takes the task up -/
  | start (c : CallerId)
  /-- the task returns, or panics -/
  | finish (c : CallerId) (returns : Bool)
  | join (c : CallerId)
  /-- the caller's future is dropped -/
  | drop (c : CallerId)
  deriving DecidableEq

def unlockStep (cfg : ClientConfig) (w : UnlockWorld) : UnlockEvent → Option UnlockWorld
  | .call c =>
    match w.callers c with
    | .idle =>
      match endpointUrl cfg.endpoints.identityUrl ["connect".toList, "token".toList] with
      | .ok _ => some (w.setCaller c .requesting)
      | .error e => some (w.setCaller c (.done (.error (.api e))))
    | _ => none
  | .reply c reply =>
    match w.callers c with
    | .requesting =>
      match decodeJson cfg.serde.tokenResponse "token".toList reply with
      | .ok response => some (w.setCaller c (.acquiring response))
      | .error e => some (w.setCaller c (.done (.error (.api e))))
    | _ => none
  | .grant c =>
    match w.callers c, w.permits with
    | .acquiring response, n + 1 => some { w.setCaller c (.granted response) with permits := n }
    | _, _ => none
  | .spawn c =>
    match w.callers c with
    | .granted response => some ((w.setCaller c .joining).setTask c (.queued response))
    | _ => none
  | .start c =>
    match w.tasks c with
    | .queued response => some (w.setTask c (.running response))
    | _ => none
  | .finish c returns =>
    match w.tasks c with
    | .running response =>
      let result := unlockSession cfg.prim response cfg.auth.masterPassword cfg.argon2MemoryLimitMib
      some (w.setTask c (.ended (if returns then some result else none))).release
    | _ => none
  | .join c =>
    match w.callers c, w.tasks c with
    | .joining, .ended result => some (w.setCaller c (.done (result.getD (.error (.api .unlockTaskFailed)))))
    | _, _ => none
  | .drop c =>
    match w.callers c with
    | .requesting | .acquiring _ | .joining => some (w.setCaller c .dropped)
    | .granted _ => some (w.setCaller c .dropped).release
    | _ => none

/-! ### Where the permit is -/

def LoginPhase.IsGranted (p : LoginPhase) : Prop := ∃ response, p = .granted response

def TaskPhase.IsQueued (t : TaskPhase) : Prop := ∃ response, t = .queued response

def TaskPhase.IsRunning (t : TaskPhase) : Prop := ∃ response, t = .running response

namespace UnlockWorld

/-- Callers with a permit and no task. -/
def granted (w : UnlockWorld) : Set CallerId := {c | (w.callers c).IsGranted}

/-- Tasks that have not started. -/
def queued (w : UnlockWorld) : Set CallerId := {c | (w.tasks c).IsQueued}

/-- Unlocks that execute. -/
def running (w : UnlockWorld) : Set CallerId := {c | (w.tasks c).IsRunning}

end UnlockWorld

end Bweso
