import Bweso.Sanity.Auth
import Bweso.Sanity.Server

/-! `/v1/resolve` from the header to the document: what a 200 proves about the
caller, the policies and the cached item, and what exactly a 404 means. -/

namespace Bweso

namespace Server

/-! ### Authentication by mode -/

/-- The headers authenticate under `auth`, with the scope they are given: a
matching legacy digest, a capability with the digest of the token, or the
insecure mode. -/
def AuthenticatedBy (prim : Primitives) (auth : WebhookAuth) (headers : HeaderMap)
    (scope : AuthorizedScope) : Prop :=
  match auth with
  | .disabledInsecure => scope = .global
  | .legacy expected =>
    ∃ token, bearerToken headers = some token ∧ TokenDigest.new prim token = expected ∧ scope = .global
  | .scoped policy =>
    ∃ token, bearerToken headers = some token ∧ ∃ c ∈ policy.rules.capabilities,
      TokenDigest.new prim token ∈ c.tokens ∧ scope = .scoped c.selectorRules

theorem authenticatedBy_of_authorize {prim : Primitives} {auth : WebhookAuth} {headers : HeaderMap}
    {scope : AuthorizedScope} (h : auth.authorize prim headers = some scope) :
    AuthenticatedBy prim auth headers scope := by
  cases auth with
  | disabledInsecure => exact (Option.some.inj h).symm
  | legacy expected =>
    simp only [WebhookAuth.authorize, Option.bind_eq_bind, Option.bind_eq_some_iff] at h
    obtain ⟨token, htoken, h⟩ := h
    split_ifs at h with hd
    exact ⟨token, htoken, hd.symm, (Option.some.inj h).symm⟩
  | «scoped» policy =>
    simp only [WebhookAuth.authorize, Option.bind_eq_bind, Option.bind_eq_some_iff] at h
    obtain ⟨token, htoken, h⟩ := h
    simp only [ScopedAuthPolicy.authorize] at h
    split_ifs at h
    obtain ⟨c, hc, rfl⟩ := Option.map_eq_some_iff.mp h
    obtain ⟨hmem, hdigest⟩ := matchCapability_some hc
    exact ⟨token, htoken, c, hmem, hdigest, rfl⟩

/-- An instant of the request: a state of the run in which its handler runs. -/
def During (tr : Trace) (r : RequestId) (p : World) : Prop :=
  ∃ e, (p, e) ∈ tr ∧ (p.requests r).live = true

/-! ### Documents -/

theorem finish_document {result : Except BitwardenClientError SecretDocument} {d : SecretDocument}
    (h : (finish result).response = .document d) : result = .ok d := by
  cases result with
  | ok d' =>
    simp only [finish, Response.document.injEq] at h
    rw [h]
  | error e => simp [finish, rejectProvider, reject] at h

theorem EarlyExit.not_document {exit : Exit} (h : EarlyExit exit) (d : SecretDocument) :
    exit.response ≠ .document d := by
  cases h <;> simp [reject, rejectProvider]

theorem tryFrom_property {r : RemoteRef} {selector : BitwardenSelector}
    (h : BitwardenSelector.tryFrom r = .ok selector) : selector.property = r.property.map trim := by
  unfold BitwardenSelector.tryFrom at h
  simp only [Except.throw_bind, Except.bind_eq_ok, Except.guard_eq_ok, Except.pure_eq_ok,
    Except.ok.injEq] at h
  obtain ⟨_, -, -, property, hp, _, -, rfl⟩ := h
  cases hr : r.property with
  | none =>
    simp only [hr, selectorProperty, Except.ok.injEq] at hp
    exact hp.symm
  | some p =>
    simp only [hr, selectorProperty, Except.bind_eq_ok, Except.pure_eq_ok, Except.ok.injEq] at hp
    obtain ⟨_, -, hp⟩ := hp
    exact hp.symm

end Server

/-- The only provider error with status 404 is a missing item. -/
theorem providerStatus_notFound (e : BitwardenClientError) :
    (providerStatusAndKind e).1 = 404 ↔ e = .api .cipherNotFound := by
  cases e with
  | cipher e => cases e <;> simp [providerStatusAndKind]
  | api e => cases e <;> simp [providerStatusAndKind]
  | _ => simp [providerStatusAndKind]

theorem finish_notFound {result : Except BitwardenClientError SecretDocument} :
    (finish result).response.status = 404 ↔ result = .error (.api .cipherNotFound) := by
  cases result with
  | ok d => simp [finish, Response.status]
  | error e => simpa [finish, rejectProvider, reject, Response.status] using providerStatus_notFound e

theorem Server.EarlyExit.not_found {exit : Exit} (h : Server.EarlyExit exit) :
    exit.response.status ≠ 404 := by
  cases h with
  | malformed h => rcases h with rfl | rfl | rfl <;> simp [reject, Response.status]
  | invalidSelector h =>
    intro h404
    have := (providerStatus_notFound _).mp h404
    rcases selectorTryFrom_error h with ⟨v, rfl⟩ | rfl | rfl <;> simp at this
  | _ => simp [reject, Response.status]

open Server in
/-- The answer is 404 exactly when the request passed every check, its cache
step succeeded, and the vault it read has no item for its key. -/
theorem answered_notFound_iff (server : Server) (w₀ w : World) (tr : Trace) (r : RequestId)
    (request : HttpRequest) (exit : Exit) (h : server.Runs w₀ tr w) (hreq : w₀.requests r = .idle)
    (hcall : w₀.client.calls r = .idle) (hans : w.requests r = .answered request exit) :
    exit.response.status = 404 ↔
      ∃ scope body selector v, server.Passed tr r request scope body selector ∧
        ReadsVault tr r request scope body selector (some v) ∧
        KeyAbsent server.client.config.prim v.session.userKey v.sync.ciphers selector.key := by
  have hs := runs_standing h hreq hcall
  rw [hans] at hs
  refine ⟨fun h404 => ?_, fun ⟨scope, body, selector, v, hpass, ⟨p, hp, hresolving, hreading, hcache⟩, habs⟩ => ?_⟩
  · rcases hs with ⟨-, hrej⟩ | ⟨scope, body, selector, result, hpass, rfl, -, hres⟩
    · exact absurd h404 hrej.early.not_found
    · obtain rfl := finish_notFound.mp h404
      rcases hres with ⟨cache, hread, hgives⟩ | ⟨e, he, hstep⟩
      · cases cache with
        | none => simp [readResult] at hgives
        | some v =>
          exact ⟨scope, body, selector, v, hpass, hread, resolveFromSync_notFound.mp hgives.symm⟩
      · obtain rfl := Except.error.inj he
        exact absurd rfl hstep.ne_notFound
  · obtain ⟨selector', hreading', hdone⟩ := runs_read h hp
    obtain rfl : selector = selector' := Phase.reading.inj (hreading.symm.trans hreading')
    rcases hs with ⟨hidle, -⟩ | ⟨_, _, _, result, -, rfl, hcalled, -⟩
    · simp [hdone] at hidle
    · rw [hdone] at hcalled
      rw [← Phase.done.inj hcalled, finish_notFound, hcache]
      exact resolveFromSync_notFound.mpr habs

open Server in
/-- Without the note the same caller gets the deletion signal. -/
theorem answered_notFound_iff_empty : ∃ scope body selector v,
    noteServer.Passed (noteTrace []) 0 noteRequest scope body selector ∧
      ReadsVault (noteTrace []) 0 noteRequest scope body selector (some v) ∧
      KeyAbsent vectors.primitives v.session.userKey v.sync.ciphers selector.key :=
  (answered_notFound_iff noteServer _ _ _ 0 noteRequest _ (noteRun_runs []) rfl rfl (noteFinal_answered _)).mp
    (by decide)

end Bweso
