import Bweso.Sanity.Auth
import Bweso.Sanity.Cache
import Bweso.Spec.Server

/-! The history of one request: what a trace says about a request in each phase
of the handler, and that every run keeps this. -/

namespace Bweso

namespace World

variable (w : World) (r : RequestId) (p : RequestPhase)

@[simp] theorem setRequest_requests_self : (w.setRequest r p).requests r = p := by simp [setRequest]

theorem setRequest_requests_ne {r' : RequestId} (h : r' ≠ r) :
    (w.setRequest r p).requests r' = w.requests r' := by
  simp [setRequest, h]

@[simp] theorem setRequest_client : (w.setRequest r p).client = w.client := rfl

@[simp] theorem returnPermit_client : (w.returnPermit p).client = w.client := by
  unfold returnPermit
  split_ifs <;> rfl

@[simp] theorem returnPermit_requests : (w.returnPermit p).requests = w.requests := by
  unfold returnPermit
  split_ifs <;> rfl

@[simp] theorem exitRequest_client {request : HttpRequest} {exit : Exit} :
    (w.exitRequest r request exit).client = w.client := by
  simp [exitRequest]

@[simp] theorem exitRequest_requests_self {request : HttpRequest} {exit : Exit} :
    (w.exitRequest r request exit).requests r = .answered request exit := by
  simp [exitRequest]

theorem exitRequest_requests_ne {request : HttpRequest} {exit : Exit} {r' : RequestId} (h : r' ≠ r) :
    (w.exitRequest r request exit).requests r' = w.requests r' := by
  simp [exitRequest, setRequest_requests_ne _ _ _ h]

end World

namespace Server

variable (server : Server)

/-! ### What the trace of a request shows -/

abbrev Trace := List (World × ServerEvent)

/-- Its headers were accepted under the auth state of some instant. -/
def Authorized (tr : Trace) (r : RequestId) (request : HttpRequest) (scope : AuthorizedScope) : Prop :=
  ∃ p, (p, .authorize r) ∈ tr ∧ p.requests r = .arrived request ∧
    p.auth.authorize server.deps.prim request.headers = some scope

/-- Its body was read and decoded. -/
def Decoded (tr : Trace) (r : RequestId) (request : HttpRequest) (body : ResolveRequest) : Prop :=
  ∃ p read, (p, .readBody r read) ∈ tr ∧ (p.requests r).live = true ∧
    decodeResolveRequest server.deps.fromSlice request read = some (.ok body)

/-- It obtained a permit, or there is no limit. -/
def Permitted (tr : Trace) (r : RequestId) : Prop :=
  ∃ p permits, (p, .acquirePermit r) ∈ tr ∧ (p.requests r).live = true ∧
    acquirePermit p.permits = .ok permits

/-- The rules of some instant, and its own scope, allowed its key. -/
def Allowed (tr : Trace) (r : RequestId) (scope : AuthorizedScope) (selector : BitwardenSelector) : Prop :=
  ∃ p, (p, .checkPolicies r) ∈ tr ∧ (p.requests r).live = true ∧
    p.selectorPolicy.rules.allows selector.key = true ∧ scope.allows selector.key = true

/-- It went through every check before the provider. -/
structure Passed (tr : Trace) (r : RequestId) (request : HttpRequest) (scope : AuthorizedScope)
    (body : ResolveRequest) (selector : BitwardenSelector) : Prop where
  authorized : server.Authorized tr r request scope
  decoded : server.Decoded tr r request body
  permitted : Permitted tr r
  selected : BitwardenSelector.tryFrom body.remoteRef = .ok selector
  allowed : Allowed tr r scope selector

/-- Its cache step succeeded and it then read the cached vault `v`. -/
def ReadsVault (tr : Trace) (r : RequestId) (request : HttpRequest) (scope : AuthorizedScope)
    (body : ResolveRequest) (selector : BitwardenSelector) (cache : Option CachedVault) : Prop :=
  ∃ p, (p, .client (.readCache r)) ∈ tr ∧ p.requests r = .resolving request scope body selector ∧
    p.client.calls r = .reading selector ∧ p.client.cache = cache

/-- What resolving on a cache gives. -/
def readResult (cache : Option CachedVault) (selector : BitwardenSelector) :
    Except BitwardenClientError SecretDocument :=
  match cache with
  | none => .error (.api .missingCachedSync)
  | some v => resolveFromSync server.client.config.prim v.sync v.session.userKey selector

/-- A result a request can get from reading the cache. -/
def ReadGives (tr : Trace) (r : RequestId) (request : HttpRequest) (scope : AuthorizedScope)
    (body : ResolveRequest) (selector : BitwardenSelector)
    (result : Except BitwardenClientError SecretDocument) : Prop :=
  ∃ cache, ReadsVault tr r request scope body selector cache ∧ result = server.readResult cache selector

/-- The handler's answers before the provider is called. -/
inductive EarlyExit : Exit → Prop
  | unauthenticated : EarlyExit (reject 401 .auth)
  | malformed {status : ℕ} (h : status = 400 ∨ status = 413 ∨ status = 415) :
      EarlyExit (reject status .validation)
  | timedOut : EarlyExit (reject 408 .requestTimeout)
  | overloaded : EarlyExit (reject 503 .overloaded)
  | invalidSelector {r : RemoteRef} {e : BitwardenClientError} (h : BitwardenSelector.tryFrom r = .error e) :
      EarlyExit (rejectProvider e)
  | denied : EarlyExit (reject 403 .policyDenied)

/-- It was turned away before the provider: a check failed with `exit`, the ones
before it having passed. -/
inductive Rejected (tr : Trace) (r : RequestId) (request : HttpRequest) (exit : Exit) : Prop
  | auth {p : World} (h : (p, .authorize r) ∈ tr)
      (he : authorizeRequest server.deps.prim p.auth request.headers = .error exit)
  | body {p : World} {read : BodyRead} {scope : AuthorizedScope}
      (ha : server.Authorized tr r request scope) (h : (p, .readBody r read) ∈ tr)
      (he : readRequest server.deps.fromSlice request read = .error exit)
  | permit {p : World} {scope : AuthorizedScope} {body : ResolveRequest}
      (ha : server.Authorized tr r request scope) (hd : server.Decoded tr r request body)
      (h : (p, .acquirePermit r) ∈ tr) (he : acquirePermit p.permits = .error exit)
  | selector {scope : AuthorizedScope} {body : ResolveRequest}
      (ha : server.Authorized tr r request scope) (hd : server.Decoded tr r request body)
      (hp : Permitted tr r) (he : selectRequest body = .error exit)
  | policy {p : World} {scope : AuthorizedScope} {body : ResolveRequest} {selector : BitwardenSelector}
      (ha : server.Authorized tr r request scope) (hd : server.Decoded tr r request body)
      (hp : Permitted tr r) (hs : BitwardenSelector.tryFrom body.remoteRef = .ok selector)
      (h : (p, .checkPolicies r) ∈ tr)
      (he : checkPolicies p.selectorPolicy.rules scope selector = .error exit)

/-- What the trace says of a request in each phase, with the phase of its call. -/
def Standing (tr : Trace) (r : RequestId) (call : Phase) : RequestPhase → Prop
  | .idle | .arrived _ => call = .idle
  | .authorized request scope => call = .idle ∧ server.Authorized tr r request scope
  | .decoded request scope body =>
    call = .idle ∧ server.Authorized tr r request scope ∧ server.Decoded tr r request body
  | .admitted request scope body =>
    call = .idle ∧ server.Authorized tr r request scope ∧ server.Decoded tr r request body ∧
      Permitted tr r
  | .selected request scope body selector =>
    call = .idle ∧ server.Authorized tr r request scope ∧ server.Decoded tr r request body ∧
      Permitted tr r ∧ BitwardenSelector.tryFrom body.remoteRef = .ok selector
  | .resolving request scope body selector =>
    server.Passed tr r request scope body selector ∧
      server.client.CallAt selector (server.ReadGives tr r request scope body selector) call
  | .answered request exit =>
    (call = .idle ∧ server.Rejected tr r request exit) ∨ ∃ scope body selector result,
      server.Passed tr r request scope body selector ∧ exit = finish result ∧ call = .done result ∧
      (server.ReadGives tr r request scope body selector result ∨
        ∃ e, result = .error e ∧ server.client.CacheStepError e)
  | .disconnected _ => True

variable {server} {tr tr' : Trace} {r : RequestId}

theorem Authorized.mono (hsub : tr ⊆ tr') {request : HttpRequest} {scope : AuthorizedScope}
    (h : server.Authorized tr r request scope) : server.Authorized tr' r request scope := by
  obtain ⟨p, hp, ha⟩ := h
  exact ⟨p, hsub hp, ha⟩

theorem Decoded.mono (hsub : tr ⊆ tr') {request : HttpRequest} {body : ResolveRequest}
    (h : server.Decoded tr r request body) : server.Decoded tr' r request body := by
  obtain ⟨p, read, hp, hd⟩ := h
  exact ⟨p, read, hsub hp, hd⟩

theorem Permitted.mono (hsub : tr ⊆ tr') (h : Permitted tr r) : Permitted tr' r := by
  obtain ⟨p, permits, hp, hn⟩ := h
  exact ⟨p, permits, hsub hp, hn⟩

theorem Passed.mono (hsub : tr ⊆ tr') {request : HttpRequest} {scope : AuthorizedScope}
    {body : ResolveRequest} {selector : BitwardenSelector}
    (h : server.Passed tr r request scope body selector) :
    server.Passed tr' r request scope body selector := by
  obtain ⟨p, hp, hall⟩ := h.allowed
  exact ⟨h.authorized.mono hsub, h.decoded.mono hsub, h.permitted.mono hsub, h.selected,
    ⟨p, hsub hp, hall⟩⟩

theorem Rejected.mono (hsub : tr ⊆ tr') {request : HttpRequest} {exit : Exit}
    (h : server.Rejected tr r request exit) : server.Rejected tr' r request exit := by
  cases h with
  | auth h he => exact .auth (hsub h) he
  | body ha h he => exact .body (ha.mono hsub) (hsub h) he
  | permit ha hd h he => exact .permit (ha.mono hsub) (hd.mono hsub) (hsub h) he
  | selector ha hd hp he => exact .selector (ha.mono hsub) (hd.mono hsub) (hp.mono hsub) he
  | policy ha hd hp hs h he =>
    exact .policy (ha.mono hsub) (hd.mono hsub) (hp.mono hsub) hs (hsub h) he

theorem ReadGives.mono (hsub : tr ⊆ tr') {request : HttpRequest} {scope : AuthorizedScope}
    {body : ResolveRequest} {selector : BitwardenSelector}
    {result : Except BitwardenClientError SecretDocument}
    (h : server.ReadGives tr r request scope body selector result) :
    server.ReadGives tr' r request scope body selector result := by
  obtain ⟨cache, ⟨p, hp, hrest⟩, hres⟩ := h
  exact ⟨cache, ⟨p, hsub hp, hrest⟩, hres⟩

theorem Standing.mono (hsub : tr ⊆ tr') {call : Phase} {phase : RequestPhase}
    (h : server.Standing tr r call phase) : server.Standing tr' r call phase := by
  cases phase with
  | idle => exact h
  | arrived request => exact h
  | authorized request scope => exact ⟨h.1, h.2.mono hsub⟩
  | decoded request scope body => exact ⟨h.1, h.2.1.mono hsub, h.2.2.mono hsub⟩
  | admitted request scope body =>
    exact ⟨h.1, h.2.1.mono hsub, h.2.2.1.mono hsub, h.2.2.2.mono hsub⟩
  | selected request scope body selector =>
    exact ⟨h.1, h.2.1.mono hsub, h.2.2.1.mono hsub, h.2.2.2.1.mono hsub, h.2.2.2.2⟩
  | resolving request scope body selector =>
    exact ⟨h.1.mono hsub, h.2.mono fun _ hr => hr.mono hsub⟩
  | answered request exit =>
    rcases h with ⟨hcall, hrej⟩ | ⟨scope, body, selector, result, hp, hexit, hcall, hres⟩
    · exact Or.inl ⟨hcall, hrej.mono hsub⟩
    · refine Or.inr ⟨scope, body, selector, result, hp.mono hsub, hexit, hcall, ?_⟩
      rcases hres with hres | hres
      · exact Or.inl (hres.mono hsub)
      · exact Or.inr hres
  | disconnected request => trivial

/-! ### Steps -/

variable (server) in
/-- The transitions of the server, each with the phase it starts from and the
outcome of its check. -/
inductive Step (w : World) : ServerEvent → World → Prop
  | arrive {r : RequestId} {request : HttpRequest} (hp : w.requests r = .idle) :
      Step w (.arrive r request) (w.setRequest r (.arrived request))
  | authorized {r : RequestId} {request : HttpRequest} {scope : AuthorizedScope}
      (hp : w.requests r = .arrived request)
      (h : authorizeRequest server.deps.prim w.auth request.headers = .ok scope) :
      Step w (.authorize r) (w.setRequest r (.authorized request scope))
  | unauthorized {r : RequestId} {request : HttpRequest} {exit : Exit} (hp : w.requests r = .arrived request)
      (h : authorizeRequest server.deps.prim w.auth request.headers = .error exit) :
      Step w (.authorize r) (w.exitRequest r request exit)
  | decoded {r : RequestId} {read : BodyRead} {request : HttpRequest} {scope : AuthorizedScope}
      {body : ResolveRequest} (hp : w.requests r = .authorized request scope)
      (h : readRequest server.deps.fromSlice request read = .ok body) :
      Step w (.readBody r read) (w.setRequest r (.decoded request scope body))
  | malformed {r : RequestId} {read : BodyRead} {request : HttpRequest} {scope : AuthorizedScope} {exit : Exit}
      (hp : w.requests r = .authorized request scope)
      (h : readRequest server.deps.fromSlice request read = .error exit) :
      Step w (.readBody r read) (w.exitRequest r request exit)
  | permitted {r : RequestId} {request : HttpRequest} {scope : AuthorizedScope} {body : ResolveRequest}
      {permits : Option ℕ} (hp : w.requests r = .decoded request scope body)
      (h : acquirePermit w.permits = .ok permits) :
      Step w (.acquirePermit r) ({ w with permits }.setRequest r (.admitted request scope body))
  | overloaded {r : RequestId} {request : HttpRequest} {scope : AuthorizedScope} {body : ResolveRequest}
      {exit : Exit} (hp : w.requests r = .decoded request scope body)
      (h : acquirePermit w.permits = .error exit) : Step w (.acquirePermit r) (w.exitRequest r request exit)
  | selected {r : RequestId} {request : HttpRequest} {scope : AuthorizedScope} {body : ResolveRequest}
      {selector : BitwardenSelector} (hp : w.requests r = .admitted request scope body)
      (h : selectRequest body = .ok selector) :
      Step w (.select r) (w.setRequest r (.selected request scope body selector))
  | unselected {r : RequestId} {request : HttpRequest} {scope : AuthorizedScope} {body : ResolveRequest}
      {exit : Exit} (hp : w.requests r = .admitted request scope body)
      (h : selectRequest body = .error exit) : Step w (.select r) (w.exitRequest r request exit)
  | allowed {r : RequestId} {request : HttpRequest} {scope : AuthorizedScope} {body : ResolveRequest}
      {selector : BitwardenSelector} (hp : w.requests r = .selected request scope body selector)
      (h : checkPolicies w.selectorPolicy.rules scope selector = .ok ()) (hidle : w.client.calls r = .idle) :
      Step w (.checkPolicies r) ({ w with client := w.client.setPhase r (.ensure selector) }.setRequest r
        (.resolving request scope body selector))
  | denied {r : RequestId} {request : HttpRequest} {scope : AuthorizedScope} {body : ResolveRequest}
      {selector : BitwardenSelector} {exit : Exit} (hp : w.requests r = .selected request scope body selector)
      (h : checkPolicies w.selectorPolicy.rules scope selector = .error exit) :
      Step w (.checkPolicies r) (w.exitRequest r request exit)
  | answered {r : RequestId} {request : HttpRequest} {scope : AuthorizedScope} {body : ResolveRequest}
      {selector : BitwardenSelector} {result : Except BitwardenClientError SecretDocument}
      (hp : w.requests r = .resolving request scope body selector) (hc : w.client.calls r = .done result) :
      Step w (.answer r) (w.exitRequest r request (finish result))
  | dropped {r : RequestId} {request : HttpRequest} {client : ClientState} (hp : (w.requests r).live = true)
      (hc : client = w.client ∨ (w.client.calls r).awaits = true ∧ client = w.client.dropCall r) :
      Step w (.disconnect r)
        { (w.returnPermit (w.requests r)).setRequest r (.disconnected request) with client }
  | client {ce : ClientEvent} {client : ClientState} (hce : ce.ofHandler = false)
      (hc : server.client.Step w.client ce client) : Step w (.client ce) { w with client }
  | reloadPolicy {keys keyPrefixes : FileRead} :
      Step w (.reloadPolicy keys keyPrefixes)
        { w with selectorPolicy := (w.selectorPolicy.reload keys keyPrefixes).2 }
  | reloadAuth {file : FileRead} {policy : ScopedAuthPolicy} (ha : w.auth = .scoped policy) :
      Step w (.reloadAuth file)
        { w with auth := .scoped (policy.reload server.deps.prim server.authPolicyFromStr file).2 }
  | keepAuth {file : FileRead} : Step w (.reloadAuth file) w

theorem stepDisconnect_cases {w : World} {request : HttpRequest} (hp : (w.requests r).live = true) :
    server.Step w (.disconnect r) (server.stepDisconnect w r request) := by
  unfold stepDisconnect
  simp only [World.setRequest_client, World.returnPermit_client]
  split
  · rename_i client hc
    cases Client.step_cases hc with
    | cancel ha => exact .dropped hp (Or.inr ⟨ha, rfl⟩)
  · exact .dropped hp (Or.inl (by simp))

/-- The step function takes only these transitions. -/
theorem step_cases {w w' : World} {e : ServerEvent} (h : server.step w e = some w') : server.Step w e w' := by
  cases e with
  | arrive r request =>
    cases hp : w.requests r <;> simp only [step, hp, reduceCtorEq, Option.some.injEq] at h
    exact h ▸ .arrive hp
  | authorize r =>
    cases hp : w.requests r <;> simp only [step, hp, reduceCtorEq, Option.some.injEq, stepAuthorize] at h
    subst h
    split
    · exact .authorized hp ‹_›
    · exact .unauthorized hp ‹_›
  | readBody r read =>
    cases hp : w.requests r <;> simp only [step, hp, reduceCtorEq, Option.some.injEq, stepReadBody] at h
    subst h
    split
    · exact .decoded hp ‹_›
    · exact .malformed hp ‹_›
  | acquirePermit r =>
    cases hp : w.requests r <;> simp only [step, hp, reduceCtorEq, Option.some.injEq, stepAcquirePermit] at h
    subst h
    split
    · exact .permitted hp ‹_›
    · exact .overloaded hp ‹_›
  | select r =>
    cases hp : w.requests r <;> simp only [step, hp, reduceCtorEq, Option.some.injEq, stepSelect] at h
    subst h
    split
    · exact .selected hp ‹_›
    · exact .unselected hp ‹_›
  | checkPolicies r =>
    cases hp : w.requests r <;> simp only [step, hp, reduceCtorEq, stepCheckPolicies] at h
    split at h
    · obtain ⟨client, hc, rfl⟩ := Option.map_eq_some_iff.mp h
      cases Client.step_cases hc with
      | begin hidle => exact .allowed hp ‹_› hidle
    · exact Option.some.inj h ▸ .denied hp ‹_›
  | answer r =>
    cases hp : w.requests r <;> simp only [step, hp, reduceCtorEq] at h
    cases hc : w.client.calls r <;> simp only [hc, reduceCtorEq, Option.some.injEq] at h
    exact h ▸ .answered hp hc
  | disconnect r =>
    cases hp : w.requests r <;> simp only [step, hp, reduceCtorEq, Option.some.injEq] at h <;>
      exact h ▸ stepDisconnect_cases (by rw [hp]; rfl)
  | client ce =>
    simp only [step] at h
    split_ifs at h with hce
    obtain ⟨client, hc, rfl⟩ := Option.map_eq_some_iff.mp h
    exact .client (Bool.eq_false_of_not_eq_true hce) (Client.step_cases hc)
  | reloadPolicy keys keyPrefixes => exact Option.some.inj h ▸ .reloadPolicy
  | reloadAuth file =>
    cases ha : w.auth <;> simp only [step, ha, Option.some.injEq] at h
    · exact h ▸ .keepAuth
    · exact h ▸ .reloadAuth ha
    · exact h ▸ .keepAuth

/-- Every step leaves the client alone or takes one of its transitions. -/
theorem step_client {w w' : World} {e : ServerEvent} (h : server.Step w e w') :
    w'.client = w.client ∨ ∃ ce, server.client.Step w.client ce w'.client := by
  cases h with
  | allowed _ _ hidle => exact Or.inr ⟨_, .begin hidle⟩
  | dropped _ hc =>
    rcases hc with rfl | ⟨ha, rfl⟩
    · exact Or.inl rfl
    · exact Or.inr ⟨_, .cancel ha⟩
  | client _ hc => exact Or.inr ⟨_, hc⟩
  | _ => exact Or.inl (by simp)

/-- Steps of other requests and of the reload tasks leave a request and its call
alone; steps inside the client may move its call. -/
theorem step_other {w w' : World} {e : ServerEvent} (h : server.Step w e w') (hr : e.request ≠ some r) :
    w'.requests r = w.requests r ∧
      (w'.client.calls r = w.client.calls r ∨
        ∃ ce, e = .client ce ∧ ce.ofHandler = false ∧ server.client.Step w.client ce w'.client) := by
  have hne : ∀ {r' : RequestId}, some r' ≠ some r → r ≠ r' := fun h heq => h (by rw [heq])
  cases h with
  | allowed _ _ _ =>
    exact ⟨World.setRequest_requests_ne _ _ _ (hne hr), Or.inl (ClientState.setPhase_calls_ne _ _ _ (hne hr))⟩
  | dropped _ hc =>
    refine ⟨by simp [World.setRequest_requests_ne _ _ _ (hne hr)], Or.inl ?_⟩
    rcases hc with rfl | ⟨-, rfl⟩
    · rfl
    · rw [ClientState.dropCall_calls, ClientState.setPhase_calls_ne _ _ _ (hne hr)]
  | client hce hc => exact ⟨rfl, Or.inr ⟨_, rfl, hce, hc⟩⟩
  | reloadPolicy => exact ⟨rfl, Or.inl rfl⟩
  | reloadAuth _ => exact ⟨rfl, Or.inl rfl⟩
  | keepAuth => exact ⟨rfl, Or.inl rfl⟩
  | _ =>
    first
    | exact ⟨World.setRequest_requests_ne _ _ _ (hne hr), Or.inl rfl⟩
    | exact ⟨World.exitRequest_requests_ne _ _ (hne hr), Or.inl (by simp)⟩

/-! ### Early returns -/

theorem authorizeRequest_ok {prim : Primitives} {auth : WebhookAuth} {headers : HeaderMap}
    {scope : AuthorizedScope} :
    authorizeRequest prim auth headers = .ok scope ↔ auth.authorize prim headers = some scope := by
  unfold authorizeRequest
  cases auth.authorize prim headers <;> simp

theorem authorizeRequest_early {prim : Primitives} {auth : WebhookAuth} {headers : HeaderMap} {exit : Exit}
    (h : authorizeRequest prim auth headers = .error exit) : EarlyExit exit := by
  unfold authorizeRequest at h
  cases ha : auth.authorize prim headers with
  | none =>
    simp only [ha, Except.error.injEq] at h
    exact h ▸ .unauthenticated
  | some s => simp [ha] at h

theorem readRequest_ok {fromSlice : Bytes → Option ResolveRequest} {request : HttpRequest} {read : BodyRead}
    {body : ResolveRequest} : readRequest fromSlice request read = .ok body ↔
      decodeResolveRequest fromSlice request read = some (.ok body) := by
  unfold readRequest
  match decodeResolveRequest fromSlice request read with
  | none => simp
  | some (.error status) => simp
  | some (.ok r) => simp

theorem decodeResolveRequest_status {fromSlice : Bytes → Option ResolveRequest} {request : HttpRequest}
    {read : BodyRead} {status : ℕ}
    (h : decodeResolveRequest fromSlice request read = some (.error status)) :
    status = 400 ∨ status = 413 ∨ status = 415 := by
  unfold decodeResolveRequest at h
  split at h
  · simp only [Option.some.injEq, Except.error.injEq] at h
    omega
  · split at h
    · simp at h
    · simp only [Option.some.injEq, Except.error.injEq] at h
      omega
    · split at h
      · simp only [Option.some.injEq, Except.error.injEq] at h
        omega
      · split at h
        · simp at h
        · simp only [Option.some.injEq, Except.error.injEq] at h
          omega

theorem readRequest_early {fromSlice : Bytes → Option ResolveRequest} {request : HttpRequest}
    {read : BodyRead} {exit : Exit} (h : readRequest fromSlice request read = .error exit) :
    EarlyExit exit := by
  unfold readRequest at h
  split at h
  · simp at h
  · rename_i hd
    obtain rfl := Except.error.inj h
    exact .malformed (decodeResolveRequest_status hd)
  · exact Except.error.inj h ▸ .timedOut

theorem acquirePermit_early {permits : Option ℕ} {exit : Exit} (h : acquirePermit permits = .error exit) :
    EarlyExit exit := by
  unfold acquirePermit at h
  split at h
  · simp at h
  · exact Except.error.inj h ▸ .overloaded
  · simp at h

theorem selectRequest_ok {body : ResolveRequest} {selector : BitwardenSelector} :
    selectRequest body = .ok selector ↔ BitwardenSelector.tryFrom body.remoteRef = .ok selector := by
  unfold selectRequest
  cases BitwardenSelector.tryFrom body.remoteRef <;> simp

theorem selectRequest_early {body : ResolveRequest} {exit : Exit} (h : selectRequest body = .error exit) :
    EarlyExit exit := by
  unfold selectRequest at h
  split at h
  · simp at h
  · rename_i hs
    exact Except.error.inj h ▸ .invalidSelector hs

theorem checkPolicies_ok {rules : PolicyRules} {scope : AuthorizedScope} {selector : BitwardenSelector}
    {u : Unit} : checkPolicies rules scope selector = .ok u ↔
      rules.allows selector.key = true ∧ scope.allows selector.key = true := by
  unfold checkPolicies
  simp only [Except.guard_eq_ok, Bool.or_eq_true, Bool.not_eq_true', not_or, Bool.not_eq_false,
    and_true]

theorem checkPolicies_early {rules : PolicyRules} {scope : AuthorizedScope} {selector : BitwardenSelector}
    {exit : Exit} (h : checkPolicies rules scope selector = .error exit) : EarlyExit exit := by
  unfold checkPolicies at h
  split_ifs at h
  exact Except.error.inj h ▸ .denied

theorem Rejected.early {request : HttpRequest} {exit : Exit} (h : server.Rejected tr r request exit) :
    EarlyExit exit := by
  cases h with
  | auth _ he => exact authorizeRequest_early he
  | body _ _ he => exact readRequest_early he
  | permit _ _ _ he => exact acquirePermit_early he
  | selector _ _ _ he => exact selectRequest_early he
  | policy _ _ _ _ _ he => exact checkPolicies_early he

/-! ### The history is kept -/

/-- A request's own step. -/
theorem standing_own {w w' : World} {e : ServerEvent} (h : server.Step w e w') (hr : e.request = some r)
    (hs : server.Standing tr r (w.client.calls r) (w.requests r)) :
    server.Standing (tr ++ [(w, e)]) r (w'.client.calls r) (w'.requests r) := by
  have hlast : (w, e) ∈ tr ++ [(w, e)] := List.mem_append_right _ List.mem_cons_self
  replace hs := hs.mono (List.subset_append_left tr [(w, e)])
  cases h
  case client => simp [ServerEvent.request] at hr
  case reloadPolicy => simp [ServerEvent.request] at hr
  case reloadAuth => simp [ServerEvent.request] at hr
  case keepAuth => simp [ServerEvent.request] at hr
  all_goals
    obtain rfl := Option.some.inj hr
    simp only [World.setRequest_requests_self, World.setRequest_client, World.exitRequest_requests_self,
      World.exitRequest_client]
  case dropped => trivial
  case arrive hp =>
    rw [hp] at hs
    exact hs
  case authorized hp ha =>
    rw [hp] at hs
    exact ⟨hs, w, hlast, hp, authorizeRequest_ok.mp ha⟩
  case unauthorized hp ha =>
    rw [hp] at hs
    exact Or.inl ⟨hs, .auth hlast ha⟩
  case decoded hp hb =>
    rw [hp] at hs
    exact ⟨hs.1, hs.2, w, _, hlast, by simp [hp, RequestPhase.live], readRequest_ok.mp hb⟩
  case malformed hp hb =>
    rw [hp] at hs
    exact Or.inl ⟨hs.1, .body hs.2 hlast hb⟩
  case permitted hp hpm =>
    rw [hp] at hs
    exact ⟨hs.1, hs.2.1, hs.2.2, w, _, hlast, by simp [hp, RequestPhase.live], hpm⟩
  case overloaded hp hpm =>
    rw [hp] at hs
    exact Or.inl ⟨hs.1, .permit hs.2.1 hs.2.2 hlast hpm⟩
  case selected hp hsel =>
    rw [hp] at hs
    exact ⟨hs.1, hs.2.1, hs.2.2.1, hs.2.2.2, selectRequest_ok.mp hsel⟩
  case unselected hp hsel =>
    rw [hp] at hs
    exact Or.inl ⟨hs.1, .selector hs.2.1 hs.2.2.1 hs.2.2.2 hsel⟩
  case allowed hp hpol _ =>
    rw [hp] at hs
    refine ⟨⟨hs.2.1, hs.2.2.1, hs.2.2.2.1, hs.2.2.2.2, w, hlast, by simp [hp, RequestPhase.live],
      checkPolicies_ok.mp hpol⟩, ?_⟩
    simp [Client.CallAt]
  case denied hp hpol =>
    rw [hp] at hs
    exact Or.inl ⟨hs.1, .policy hs.2.1 hs.2.2.1 hs.2.2.2.1 hs.2.2.2.2 hlast hpol⟩
  case answered hp hc =>
    rw [hp, hc] at hs
    rw [hc]
    exact Or.inr ⟨_, _, _, _, hs.1, rfl, rfl, hs.2⟩

theorem readCached_eq (s : ClientState) (selector : BitwardenSelector) :
    server.client.readCached s selector = server.readResult s.cache selector := rfl

/-- A step inside the client. -/
theorem standing_client {w w' : World} {ce : ClientEvent} (hreq : w'.requests r = w.requests r)
    (hce : ce.ofHandler = false) (hstep : server.client.Step w.client ce w'.client)
    (hs : server.Standing tr r (w.client.calls r) (w.requests r)) :
    server.Standing (tr ++ [(w, .client ce)]) r (w'.client.calls r) (w'.requests r) := by
  have hidle : w.client.calls r = .idle → w'.client.calls r = .idle := by
    refine Client.idle_step hstep fun selector heq => ?_
    rw [heq] at hce
    simp [ClientEvent.ofHandler] at hce
  rw [hreq]
  have hs := hs.mono (List.subset_append_left tr [(w, .client ce)])
  cases hp : w.requests r with
  | idle => rw [hp] at hs; exact hidle hs
  | arrived request => rw [hp] at hs; exact hidle hs
  | authorized request scope => rw [hp] at hs; exact ⟨hidle hs.1, hs.2⟩
  | decoded request scope body => rw [hp] at hs; exact ⟨hidle hs.1, hs.2⟩
  | admitted request scope body => rw [hp] at hs; exact ⟨hidle hs.1, hs.2⟩
  | selected request scope body selector => rw [hp] at hs; exact ⟨hidle hs.1, hs.2⟩
  | resolving request scope body selector =>
    rw [hp] at hs
    refine ⟨hs.1, Client.CallAt.step hstep ?_ (fun hce' hreading => ?_) hs.2⟩
    · rintro rfl
      simp [ClientEvent.ofHandler] at hce
    · subst hce'
      exact ⟨w.client.cache, ⟨w, List.mem_append_right _ List.mem_cons_self, hp, hreading, rfl⟩, rfl⟩
  | answered request exit =>
    rw [hp] at hs
    rcases hs with ⟨hi, hrej⟩ | ⟨scope, body, selector, result, hpass, hexit, hdone, hres⟩
    · exact Or.inl ⟨hidle hi, hrej⟩
    · exact Or.inr ⟨scope, body, selector, result, hpass, hexit, Client.done_step hstep hdone, hres⟩
  | disconnected request => trivial

/-- Every run keeps the history of a request that is fresh when it starts. -/
theorem runs_standing {w₀ w : World} (h : server.Runs w₀ tr w) (hreq : w₀.requests r = .idle)
    (hcall : w₀.client.calls r = .idle) :
    server.Standing tr r (w.client.calls r) (w.requests r) := by
  induction h with
  | nil =>
    rw [hreq]
    exact hcall
  | @snoc tr w w' e _ hstep ih =>
    by_cases hr : e.request = some r
    · exact standing_own (step_cases hstep) hr ih
    · obtain ⟨hreq', hcalls | ⟨ce, rfl, hce, hc⟩⟩ := step_other (step_cases hstep) hr
      · rw [hreq', hcalls]
        exact ih.mono (List.subset_append_left _ _)
      · exact standing_client hreq' hce hc ih

/-- Once the cache has been read for a call, the call is over with what the
read gave. -/
theorem runs_read {w₀ w : World} (h : server.Runs w₀ tr w) {p : World}
    (hp : (p, .client (.readCache r)) ∈ tr) :
    ∃ selector, p.client.calls r = .reading selector ∧
      w.client.calls r = .done (server.readResult p.client.cache selector) := by
  induction h with
  | nil => simp at hp
  | @snoc tr w w' e _ hstep ih =>
    rcases List.mem_append.mp hp with hp | hp
    · obtain ⟨selector, hreading, hdone⟩ := ih hp
      refine ⟨selector, hreading, ?_⟩
      rcases step_client (step_cases hstep) with hsame | ⟨ce, hc⟩
      · rw [hsame]
        exact hdone
      · exact Client.done_step hc hdone
    · obtain ⟨rfl, rfl⟩ := Prod.mk.inj (List.mem_singleton.mp hp)
      cases step_cases hstep with
      | client _ hc =>
        cases hc with
        | read hreading =>
          refine ⟨_, hreading, ?_⟩
          rw [ClientState.setPhase_calls_self, readCached_eq]

end Server

/-! ### A vault with one note

A caller with the token of the one capability asks for the notes of `item-a`,
over a vault fetched just before. -/

def noteBody : Str := "\x7b\"remoteRef\":\x7b\"key\":\"id:item-a\",\"property\":\"notes\"\x7d\x7d".toList

def noteServer : Server where
  deps :=
    { prim := vectors.primitives
      fromSlice := fun body =>
        if body = asBytes noteBody then some ⟨⟨"id:item-a".toList, some "notes".toList, none⟩⟩ else none }
  client := ⟨vectorConfig, ⟨Duration.fromSecs 60, 0, Duration.fromSecs 10⟩⟩
  authPolicyFromStr := onePolicyFromStr

def noteRequest : HttpRequest where
  headers := [("authorization".toList, asBytes ("Bearer ".toList ++ List.replicate 32 'a')),
    ("content-type".toList, asBytes "application/json".toList)]
  body := asBytes noteBody

def noteSelector : BitwardenSelector := ⟨"id:item-a".toList, some "notes".toList⟩

def noteVault (ciphers : List EncryptedCipher) : CachedVault :=
  CachedVault.new vectorSession ⟨ciphers⟩ 0

def noteWorld (ciphers : List EncryptedCipher) : World where
  selectorPolicy := ⟨.allowList ["id:item-a".toList] [], ⟨["id:item-a".toList], [], none, none⟩⟩
  auth := .scoped ⟨⟨[oneCapability.load vectors.primitives]⟩⟩
  permits := some 4
  client := { ClientState.init with cache := some (noteVault ciphers) }
  requests := fun _ => .idle

def noteEvents : List ServerEvent :=
  [.arrive 0 noteRequest, .authorize 0, .readBody 0 .completed, .acquirePermit 0, .select 0, .checkPolicies 0,
    .client (.checkCache 0), .client (.readCache 0), .answer 0]

def noteRun (ciphers : List EncryptedCipher) : Option (Server.Trace × World) :=
  Run.exec noteServer.step (noteWorld ciphers) noteEvents

theorem noteRun_isSome (ciphers : List EncryptedCipher) : (noteRun ciphers).isSome = true := by
  rfl

def noteTrace (ciphers : List EncryptedCipher) : Server.Trace :=
  ((noteRun ciphers).get (noteRun_isSome ciphers)).1

def noteFinal (ciphers : List EncryptedCipher) : World :=
  ((noteRun ciphers).get (noteRun_isSome ciphers)).2

theorem noteRun_runs (ciphers : List EncryptedCipher) :
    noteServer.Runs (noteWorld ciphers) (noteTrace ciphers) (noteFinal ciphers) :=
  Run.of_isSome noteEvents (noteRun_isSome ciphers)

/-- The answer over a given list of ciphers. -/
def noteExit (ciphers : List EncryptedCipher) : Exit :=
  finish (noteServer.readResult (some (noteVault ciphers)) noteSelector)

theorem noteFinal_answered (ciphers : List EncryptedCipher) :
    (noteFinal ciphers).requests 0 = .answered noteRequest (noteExit ciphers) := by
  rfl

end Bweso
