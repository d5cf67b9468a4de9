import Mathlib.Data.Set.Card
import Bweso.Sanity.Server
import Bweso.Spec.Metrics

/-! How many label sets the registry can hold: the routes, the statuses and the
error kinds are folded to a fixed vocabulary, the method is not. -/

namespace Bweso

variable {deps : HandlerDeps}

/-! ### The keys after a sequence of requests -/

theorem mem_observe {κ : Type} [DecidableEq κ] {series : Finmap fun _ : κ => ℕ} {key k : κ} :
    k ∈ (observe series key).keys ↔ k = key ∨ k ∈ series.keys := by
  rw [Finmap.mem_keys, Finmap.mem_keys, observe, Finmap.mem_insert]

theorem recordHttpMetrics_http {inner : MetricsInner} {q : RouterRequest} {k : HttpMetricKey} :
    k ∈ (recordHttpMetrics deps inner q).httpRequests.keys ↔
      k = httpKey deps q ∨ k ∈ inner.httpRequests.keys := by
  unfold recordHttpMetrics MetricsInner.recordHttpRequest
  rw [mem_observe]
  cases (dispatch deps q).2 <;> rfl

theorem recordHttpMetrics_resolve {inner : MetricsInner} {q : RouterRequest} {k : ResolveMetricKey} :
    k ∈ (recordHttpMetrics deps inner q).resolveRequests.keys ↔
      (dispatch deps q).2 = some k ∨ k ∈ inner.resolveRequests.keys := by
  unfold recordHttpMetrics MetricsInner.recordHttpRequest
  cases (dispatch deps q).2 with
  | none => simp
  | some key =>
    have h : k ∈ (observe inner.resolveRequests key).keys ↔ k = key ∨ k ∈ inner.resolveRequests.keys := mem_observe
    rw [Option.some.injEq, eq_comm]
    exact h

theorem serveAll_snoc (qs : List RouterRequest) (q : RouterRequest) :
    serveAll deps (qs ++ [q]) = recordHttpMetrics deps (serveAll deps qs) q := by
  rw [serveAll, List.foldl_append]
  rfl

theorem serveAll_http {qs : List RouterRequest} {k : HttpMetricKey} :
    k ∈ (serveAll deps qs).httpRequests.keys ↔ ∃ q ∈ qs, k = httpKey deps q := by
  induction qs using List.reverseRecOn with
  | nil => simp [serveAll, MetricsInner.default]
  | append_singleton qs q ih =>
    rw [serveAll_snoc, recordHttpMetrics_http, ih]
    simp only [List.mem_append, List.mem_singleton, or_and_right, exists_or, exists_eq_left]
    exact or_comm

theorem serveAll_resolve {qs : List RouterRequest} {k : ResolveMetricKey} :
    k ∈ (serveAll deps qs).resolveRequests.keys ↔ ∃ q ∈ qs, (dispatch deps q).2 = some k := by
  induction qs using List.reverseRecOn with
  | nil => simp [serveAll, MetricsInner.default]
  | append_singleton qs q ih =>
    rw [serveAll_snoc, recordHttpMetrics_resolve, ih]
    simp only [List.mem_append, List.mem_singleton, or_and_right, exists_or, exists_eq_left]
    exact or_comm

/-! ### The fixed vocabulary -/

/-- Every status the router answers with. -/
def statuses : Finset ℕ := {200, 204, 400, 401, 403, 404, 405, 408, 409, 413, 415, 422, 500, 502, 503}

/-- Every route label. -/
def routeLabels : List Str := "unmatched".toList :: [Route.livez, .readyz, .metrics, .resolve].map Route.path

/-- Every error kind. -/
def errorKinds : List ErrorKind :=
  [.none, .auth, .validation, .unsupportedVersion, .policyDenied, .itemNotFound, .propertyNotFound,
    .ambiguousDocument, .ambiguousSelector, .unsupportedAttachment, .unsupportedSharedItem, .upstreamHttp,
    .upstreamStatus, .upstreamBackoff, .upstreamPayload, .crypto, .keyDerivation, .kdfParameters, .syncPayload,
    .endpoint, .overloaded, .requestTimeout]

theorem mem_errorKinds (kind : ErrorKind) : kind ∈ errorKinds := by
  cases kind <;> decide

theorem providerStatus_mem (e : BitwardenClientError) : (providerStatusAndKind e).1 ∈ statuses := by
  unfold providerStatusAndKind
  split <;> decide

/-- The status of an exit, as answered and as recorded. -/
def Exit.Within (exit : Exit) : Prop := exit.response.status ∈ statuses ∧ exit.recorded.status ∈ statuses

theorem reject_within {status : ℕ} (kind : ErrorKind) (h : status ∈ statuses) : (reject status kind).Within := ⟨h, h⟩

theorem EarlyExit.within {exit : Exit} (h : Server.EarlyExit exit) : exit.Within := by
  cases h with
  | unauthenticated => exact reject_within _ (by decide)
  | malformed h =>
    apply reject_within
    rcases h with rfl | rfl | rfl
    · decide
    · decide
    · decide
  | timedOut => exact reject_within _ (by decide)
  | overloaded => exact reject_within _ (by decide)
  | @invalidSelector r e _ => exact reject_within _ (providerStatus_mem e)
  | denied => exact reject_within _ (by decide)

theorem resolveAdmission_early {m : Encounter} {exit : Exit} (h : resolveAdmission deps m = .error exit) :
    Server.EarlyExit exit := by
  unfold resolveAdmission at h
  rcases Except.bind_eq_error.mp h with h | ⟨scope, -, h⟩
  · exact Server.authorizeRequest_early h
  rcases Except.bind_eq_error.mp h with h | ⟨body, -, h⟩
  · exact Server.readRequest_early h
  rcases Except.bind_eq_error.mp h with h | ⟨permits, -, h⟩
  · exact Server.acquirePermit_early h
  rcases Except.bind_eq_error.mp h with h | ⟨selector, -, h⟩
  · exact Server.selectRequest_early h
  rcases Except.bind_eq_error.mp h with h | ⟨_, -, h⟩
  · exact Server.checkPolicies_early h
  · cases h

theorem resolve_within (m : Encounter) (provider : Unit → BitwardenSelector →
    Except BitwardenClientError SecretDocument × Unit) : (resolve deps m provider ()).1.Within := by
  unfold resolve
  cases h : resolveAdmission deps m with
  | error exit => exact EarlyExit.within (resolveAdmission_early h)
  | ok selector =>
    simp only
    cases (provider () selector).1 with
    | ok d =>
      have h200 : 200 ∈ statuses := by decide
      exact ⟨h200, h200⟩
    | error e => exact reject_within _ (providerStatus_mem e)

theorem dispatch_within (q : RouterRequest) :
    (dispatch deps q).1 ∈ statuses ∧ ∀ k ∈ (dispatch deps q).2, k.status ∈ statuses := by
  unfold dispatch
  split
  · exact ⟨by decide, by simp⟩
  · split_ifs <;> exact ⟨by decide, by simp⟩
  · split_ifs <;> exact ⟨by decide, by simp⟩
  · split_ifs <;> exact ⟨by decide, by simp⟩
  · split_ifs
    · obtain ⟨h1, h2⟩ := @resolve_within deps q.encounter fun state selector => (q.provider selector, state)
      refine ⟨h1, fun k hk => ?_⟩
      obtain rfl := Option.some.inj (Option.mem_def.mp hk)
      exact h2
    · exact ⟨by decide, by simp⟩

theorem httpKey_route (q : RouterRequest) : (httpKey deps q).route ∈ routeLabels := by
  unfold httpKey routeLabels
  cases Route.ofPath q.path with
  | none => exact List.mem_cons_self
  | some r =>
    apply List.mem_cons_of_mem
    apply List.mem_map_of_mem
    cases r <;> decide

/-! ### Bounded and unbounded -/

/-- The label sets requests with these methods can leave behind. -/
def httpKeys (methods : Set Method) : Set HttpMetricKey :=
  {k | (∃ m ∈ methods, k.method = m.token) ∧ k.route ∈ routeLabels ∧ k.status ∈ statuses}

def resolveKeys : Set ResolveMetricKey := {k | k.status ∈ statuses}

theorem httpKeys_finite {methods : Set Method} (h : methods.Finite) : (httpKeys methods).Finite := by
  have hproduct := ((h.image Method.token).prod (routeLabels.finite_toSet.prod statuses.finite_toSet)).image
    fun t => (⟨t.1, t.2.1, t.2.2⟩ : HttpMetricKey)
  apply hproduct.subset
  rintro ⟨method, route, status⟩ ⟨⟨m, hm, rfl⟩, hroute, hstatus⟩
  exact ⟨(m.token, route, status), ⟨⟨m, hm, rfl⟩, hroute, hstatus⟩, rfl⟩

theorem resolveKeys_finite : resolveKeys.Finite := by
  have hproduct := (([Outcome.success, .error].finite_toSet).prod
    (errorKinds.finite_toSet.prod statuses.finite_toSet)).image fun t => (⟨t.1, t.2.1, t.2.2⟩ : ResolveMetricKey)
  apply hproduct.subset
  rintro ⟨outcome, kind, status⟩ hstatus
  exact ⟨(outcome, kind, status), ⟨by cases outcome <;> simp, mem_errorKinds kind, hstatus⟩, rfl⟩

theorem labelSets_le {methods : Set Method} (h : methods.Finite) {qs : List RouterRequest}
    (hqs : ∀ q ∈ qs, q.method ∈ methods) :
    (serveAll deps qs).labelSets ≤ (httpKeys methods).ncard + resolveKeys.ncard := by
  have hhttp : ((serveAll deps qs).httpRequests.keys : Set HttpMetricKey) ⊆ httpKeys methods := by
    intro k hk
    obtain ⟨q, hq, rfl⟩ := serveAll_http.mp hk
    exact ⟨⟨q.method, hqs q hq, rfl⟩, httpKey_route q, (dispatch_within q).1⟩
  have hresolve : ((serveAll deps qs).resolveRequests.keys : Set ResolveMetricKey) ⊆ resolveKeys := by
    intro k hk
    obtain ⟨q, hq, hk⟩ := serveAll_resolve.mp hk
    exact (dispatch_within q).2 k hk
  have h1 := Set.ncard_le_ncard hhttp (httpKeys_finite h)
  have h2 := Set.ncard_le_ncard hresolve resolveKeys_finite
  rw [Set.ncard_coe_finset] at h1 h2
  exact Nat.add_le_add h1 h2

/-- A request that no route matches. -/
def unmatchedRequest (m : Method) : RouterRequest where
  method := m
  path := "/".toList
  ready := true
  encounter :=
    { request := ⟨[], []⟩, auth := .disabledInsecure, read := .completed, permits := none, rules := .allowAll }
  provider := fun _ => .error (.api .cipherNotFound)

/-- Each method token leaves a label set of its own. -/
theorem labelSets_unmatched {ms : List Method} (h : (ms.map Method.token).Nodup) :
    ms.length ≤ (serveAll deps (ms.map unmatchedRequest)).labelSets := by
  have hsub : (ms.map fun m => httpKey deps (unmatchedRequest m)).toFinset ⊆
      (serveAll deps (ms.map unmatchedRequest)).httpRequests.keys := by
    intro k hk
    rw [List.mem_toFinset, List.mem_map] at hk
    obtain ⟨m, hm, rfl⟩ := hk
    exact serveAll_http.mpr ⟨unmatchedRequest m, List.mem_map_of_mem hm, rfl⟩
  have hnodup : (ms.map fun m => httpKey deps (unmatchedRequest m)).Nodup := by
    apply List.Nodup.of_map HttpMetricKey.method
    rw [List.map_map]
    exact h
  have hcard := Finset.card_le_card hsub
  rw [List.toFinset_card_of_nodup hnodup, List.length_map] at hcard
  exact hcard.trans (Nat.le_add_right _ _)

theorem Method.token_injective : Function.Injective Method.token := by
  intro m m' h
  cases m
  cases m'
  cases h
  rfl

/-- The registry stays bounded exactly when the method tokens it meets are
finitely many: the label takes them as they come. -/
theorem metrics_bounded_iff (deps : HandlerDeps) (methods : Set Method) :
    (∃ bound, ∀ qs : List RouterRequest, (∀ q ∈ qs, q.method ∈ methods) → (serveAll deps qs).labelSets ≤ bound) ↔
      methods.Finite := by
  refine ⟨fun h => ?_, fun h => ⟨_, fun qs => labelSets_le h⟩⟩
  obtain ⟨bound, hbound⟩ := h
  by_contra hinfinite
  -- one request more than the bound, each under a method of its own
  obtain ⟨ms, hms, hcard⟩ := Set.Infinite.exists_subset_card_eq hinfinite (bound + 1)
  have hnodup : (ms.toList.map Method.token).Nodup := ms.nodup_toList.map Method.token_injective
  have hlow := @labelSets_unmatched deps ms.toList hnodup
  rw [Finset.length_toList, hcard] at hlow
  have hhigh := hbound (ms.toList.map unmatchedRequest) (by
    intro q hq
    obtain ⟨m, hm, rfl⟩ := List.mem_map.mp hq
    exact hms (Finset.mem_toList.mp hm))
  omega

/-- The extension method of `n + 1` letters. -/
def extensionMethod (n : ℕ) : Method where
  token := List.replicate (n + 1) 'A'
  ne_nil := by simp
  chars := by
    rw [List.all_eq_true]
    intro c hc
    obtain rfl := List.eq_of_mem_replicate hc
    decide

theorem extensionMethod_injective : Function.Injective extensionMethod := by
  intro n m h
  have hlength := congrArg (fun m => m.token.length) h
  simpa [extensionMethod] using hlength

/-- No bound holds for every sequence of requests. -/
theorem metrics_unbounded :
    ¬ ∃ bound, ∀ qs : List RouterRequest, (serveAll noteServer.deps qs).labelSets ≤ bound := by
  intro h
  obtain ⟨bound, hbound⟩ := h
  have hnodup : (((List.range (bound + 1)).map extensionMethod).map Method.token).Nodup := by
    rw [List.map_map]
    exact List.nodup_range.map (Method.token_injective.comp extensionMethod_injective)
  have hlow := @labelSets_unmatched noteServer.deps _ hnodup
  rw [List.length_map, List.length_range] at hlow
  exact absurd (hlow.trans (hbound _)) (by omega)

end Bweso
