import Bweso.Spec.Cache
import Bweso.Spec.Handler

/-! The running provider: concurrent `resolve` requests over one client, with
the selector policy and the scoped auth policy reloaded under them. A request's
step is one call of the handler between two points where another task can act. -/

namespace Bweso

abbrev RequestId := ℕ

/-- Where a request stands in the handler, with what it has learnt so far. -/
inductive RequestPhase
  | idle
  | arrived (request : HttpRequest)
  | authorized (request : HttpRequest) (scope : AuthorizedScope)
  | decoded (request : HttpRequest) (scope : AuthorizedScope) (body : ResolveRequest)
  /-- from here on the request holds its permit -/
  | admitted (request : HttpRequest) (scope : AuthorizedScope) (body : ResolveRequest)
  | selected (request : HttpRequest) (scope : AuthorizedScope) (body : ResolveRequest)
      (selector : BitwardenSelector)
  | resolving (request : HttpRequest) (scope : AuthorizedScope) (body : ResolveRequest)
      (selector : BitwardenSelector)
  | answered (request : HttpRequest) (exit : Exit)
  | disconnected (request : HttpRequest)

/-- The handler is running: it has neither answered nor been dropped. -/
def RequestPhase.live : RequestPhase → Bool
  | .idle | .answered .. | .disconnected _ => false
  | _ => true

def RequestPhase.holdsPermit : RequestPhase → Bool
  | .admitted .. | .selected .. | .resolving .. => true
  | _ => false

/-- The state every handler shares. -/
structure World where
  selectorPolicy : SelectorPolicy
  auth : WebhookAuth
  /-- the available permits of `resolve_semaphore`, `none` without one -/
  permits : Option ℕ
  client : ClientState
  requests : RequestId → RequestPhase

inductive ServerEvent
  | arrive (r : RequestId) (request : HttpRequest)
  | authorize (r : RequestId)
  | readBody (r : RequestId) (read : BodyRead)
  | acquirePermit (r : RequestId)
  | select (r : RequestId)
  | checkPolicies (r : RequestId)
  | answer (r : RequestId)
  | disconnect (r : RequestId)
  /-- a step inside the client -/
  | client (e : ClientEvent)
  | reloadPolicy (keys keyPrefixes : FileRead)
  | reloadAuth (file : FileRead)

/-- The request an event of the handler belongs to. -/
def ServerEvent.request : ServerEvent → Option RequestId
  | .arrive r _ | .authorize r | .readBody r _ | .acquirePermit r | .select r | .checkPolicies r
  | .answer r | .disconnect r => some r
  | .client _ | .reloadPolicy .. | .reloadAuth _ => none

structure Server where
  deps : HandlerDeps
  client : Client
  /-- `serde_json::from_str` at the auth policy file -/
  authPolicyFromStr : Str → Option RawAuthPolicy

/-- `resolve_semaphore`: a limit of zero is no limit. -/
def resolveSemaphore (limit : ℕ) : Option ℕ := if 0 < limit then some limit else none

namespace World

/-- The provider before its first request. -/
structure Starts (w : World) (limit : ℕ) : Prop where
  permits : w.permits = resolveSemaphore limit
  requests : ∀ r, w.requests r = .idle
  calls : ∀ c, w.client.calls c = .idle

def setRequest (w : World) (r : RequestId) (p : RequestPhase) : World :=
  { w with requests := Function.update w.requests r p }

/-- The owned permit goes back to the semaphore with the end of the handler. -/
def returnPermit (w : World) (p : RequestPhase) : World :=
  if p.holdsPermit then { w with permits := w.permits.map (· + 1) } else w

/-- Answer `request` and leave the handler. -/
def exitRequest (w : World) (r : RequestId) (request : HttpRequest) (exit : Exit) : World :=
  (w.returnPermit (w.requests r)).setRequest r (.answered request exit)

end World

/-- A call starts and is dropped only by its handler. -/
def ClientEvent.ofHandler : ClientEvent → Bool
  | .begin .. | .cancel _ => true
  | _ => false

namespace Server

variable (server : Server)

def stepAuthorize (w : World) (r : RequestId) (request : HttpRequest) : World :=
  match authorizeRequest server.deps.prim w.auth request.headers with
  | .ok scope => w.setRequest r (.authorized request scope)
  | .error exit => w.exitRequest r request exit

def stepReadBody (w : World) (r : RequestId) (request : HttpRequest) (scope : AuthorizedScope)
    (read : BodyRead) : World :=
  match readRequest server.deps.fromSlice request read with
  | .ok body => w.setRequest r (.decoded request scope body)
  | .error exit => w.exitRequest r request exit

def stepAcquirePermit (w : World) (r : RequestId) (request : HttpRequest) (scope : AuthorizedScope)
    (body : ResolveRequest) : World :=
  match acquirePermit w.permits with
  | .ok permits => { w with permits }.setRequest r (.admitted request scope body)
  | .error exit => w.exitRequest r request exit

def stepSelect (w : World) (r : RequestId) (request : HttpRequest) (scope : AuthorizedScope)
    (body : ResolveRequest) : World :=
  match selectRequest body with
  | .ok selector => w.setRequest r (.selected request scope body selector)
  | .error exit => w.exitRequest r request exit

/-- The policy check and, when it passes, the start of `provider.resolve`, which
runs in the client under the request's own number. -/
def stepCheckPolicies (w : World) (r : RequestId) (request : HttpRequest) (scope : AuthorizedScope)
    (body : ResolveRequest) (selector : BitwardenSelector) : Option World :=
  match checkPolicies w.selectorPolicy.rules scope selector with
  | .ok () =>
    (server.client.step w.client (.begin r selector)).map fun client =>
      { w with client }.setRequest r (.resolving request scope body selector)
  | .error exit => some (w.exitRequest r request exit)

/-- A dropped handler: its permit returns and its provider call is dropped. -/
def stepDisconnect (w : World) (r : RequestId) (request : HttpRequest) : World :=
  let phase := w.requests r
  let w := (w.returnPermit phase).setRequest r (.disconnected request)
  match server.client.step w.client (.cancel r) with
  | some client => { w with client }
  | none => w

def step (w : World) : ServerEvent → Option World
  | .arrive r request =>
    match w.requests r with
    | .idle => some (w.setRequest r (.arrived request))
    | _ => none
  | .authorize r =>
    match w.requests r with
    | .arrived request => some (server.stepAuthorize w r request)
    | _ => none
  | .readBody r read =>
    match w.requests r with
    | .authorized request scope => some (server.stepReadBody w r request scope read)
    | _ => none
  | .acquirePermit r =>
    match w.requests r with
    | .decoded request scope body => some (stepAcquirePermit w r request scope body)
    | _ => none
  | .select r =>
    match w.requests r with
    | .admitted request scope body => some (stepSelect w r request scope body)
    | _ => none
  | .checkPolicies r =>
    match w.requests r with
    | .selected request scope body selector =>
      server.stepCheckPolicies w r request scope body selector
    | _ => none
  | .answer r =>
    match w.requests r, w.client.calls r with
    | .resolving request _ _ _, .done result => some (w.exitRequest r request (finish result))
    | _, _ => none
  | .disconnect r =>
    match w.requests r with
    | .authorized request _ => some (server.stepDisconnect w r request)
    | .resolving request _ _ _ => some (server.stepDisconnect w r request)
    | _ => none
  | .client e =>
    if e.ofHandler then none else (server.client.step w.client e).map fun client => { w with client }
  | .reloadPolicy keys keyPrefixes =>
    some { w with selectorPolicy := (w.selectorPolicy.reload keys keyPrefixes).2 }
  | .reloadAuth file =>
    match w.auth with
    | .scoped policy =>
      some { w with auth := .scoped (policy.reload server.deps.prim server.authPolicyFromStr file).2 }
    | _ => some w

/-- The runs of a server from a given world. -/
abbrev Runs (w₀ : World) (tr : List (World × ServerEvent)) (w : World) : Prop :=
  Run server.step w₀ tr w

end Server

end Bweso
