import Bweso.Proofs.Cardinality
import Bweso.Proofs.Permits
import Bweso.Spec.Accounting

/-! The registry's two views of the resolve requests agree: what the handler
records at its exits and what the middleware counts around it. -/

namespace Bweso

/-! ### Series as tallies -/

section Tally

variable {κ : Type} [DecidableEq κ] {series : Finmap fun _ : κ => ℕ}

theorem seriesCount_observe (key k : κ) :
    seriesCount (observe series key) k = seriesCount series k + if k = key then 1 else 0 := by
  unfold seriesCount observe
  split_ifs with h
  · rw [h, Finmap.lookup_insert, Option.getD_some]
  · rw [Finmap.lookup_insert_of_ne _ h, Nat.add_zero]

theorem seriesCount_of_notMem {k : κ} (h : k ∉ series.keys) : seriesCount series k = 0 := by
  rw [Finmap.mem_keys] at h
  rw [seriesCount, Finmap.lookup_eq_none.mpr h, Option.getD_none]

/-- The total may be taken over any larger set of keys. -/
theorem seriesTotal_eq {p : κ → Bool} {keys : Finset κ} (h : series.keys ⊆ keys) :
    seriesTotal p series = ∑ key ∈ keys.filter (p · = true), seriesCount series key := by
  apply Finset.sum_subset (Finset.filter_subset_filter _ h)
  intro k hk hnot
  apply seriesCount_of_notMem
  intro hmem
  exact hnot (Finset.mem_filter.mpr ⟨hmem, (Finset.mem_filter.mp hk).2⟩)

theorem seriesTotal_observe (p : κ → Bool) (key : κ) :
    seriesTotal p (observe series key) = seriesTotal p series + if p key then 1 else 0 := by
  have hkeys : (observe series key).keys = insert key series.keys := by
    ext k
    rw [mem_observe, Finset.mem_insert]
  rw [seriesTotal_eq hkeys.subset, seriesTotal_eq (Finset.subset_insert key series.keys)]
  simp only [seriesCount_observe, Finset.sum_add_distrib, Finset.sum_ite_eq', Finset.mem_filter,
    Finset.mem_insert_self, true_and]

/-- The series after these observations. -/
def observeAll (keys : List κ) : Finmap fun _ : κ => ℕ := keys.foldl observe ∅

theorem observeAll_snoc (keys : List κ) (key : κ) : observeAll (keys ++ [key]) = observe (observeAll keys) key := by
  rw [observeAll, List.foldl_append]
  rfl

theorem seriesCount_observeAll (keys : List κ) (k : κ) : seriesCount (observeAll keys) k = keys.count k := by
  induction keys using List.reverseRecOn with
  | nil => rfl
  | append_singleton keys key ih =>
    rw [observeAll_snoc, seriesCount_observe, ih, List.count_append, List.count_singleton]
    simp only [beq_iff_eq, @eq_comm κ key k]

theorem seriesTotal_observeAll (p : κ → Bool) (keys : List κ) : seriesTotal p (observeAll keys) = keys.countP p := by
  induction keys using List.reverseRecOn with
  | nil => rfl
  | append_singleton keys key ih =>
    rw [observeAll_snoc, seriesTotal_observe, ih, List.countP_append, List.countP_singleton]

end Tally

/-! ### What an exit records of its answer -/

/-- The recorded series says what was answered. -/
structure Exit.Accounted (exit : Exit) : Prop where
  status : exit.recorded.status = exit.response.status
  outcome : exit.recorded.outcome = .success ↔ exit.response.status = 200
  body : ∀ status message, exit.response = .error status message →
    message = publicErrorMessage exit.recorded.errorKind

theorem reject_accounted {status : ℕ} (kind : ErrorKind) (h : status ≠ 200) : (reject status kind).Accounted where
  status := rfl
  outcome := by simp [reject, Response.status, h]
  body := by
    intro status message heq
    exact (Response.error.inj heq).2.symm

theorem providerStatus_ne_ok (e : BitwardenClientError) : (providerStatusAndKind e).1 ≠ 200 := by
  unfold providerStatusAndKind
  split <;> decide

theorem EarlyExit.accounted {exit : Exit} (h : Server.EarlyExit exit) : exit.Accounted := by
  cases h with
  | unauthenticated => exact reject_accounted _ (by decide)
  | malformed h => exact reject_accounted _ (by omega)
  | timedOut => exact reject_accounted _ (by decide)
  | overloaded => exact reject_accounted _ (by decide)
  | @invalidSelector r e _ => exact reject_accounted _ (providerStatus_ne_ok e)
  | denied => exact reject_accounted _ (by decide)

theorem finish_accounted (result : Except BitwardenClientError SecretDocument) : (finish result).Accounted := by
  cases result with
  | ok d => exact ⟨rfl, by simp [finish, Response.status], by simp [finish]⟩
  | error e => exact reject_accounted _ (providerStatus_ne_ok e)

/-- The exit a request has taken. -/
def RequestPhase.exit : RequestPhase → Option Exit
  | .answered _ exit => some exit
  | _ => none

namespace Server

variable {server : Server} {w w' : World} {e : ServerEvent} {r : RequestId} {exit : Exit}

theorem exit_eq_some : e.exit w' = some (r, exit) ↔ e.request = some r ∧ (w'.requests r).exit = some exit := by
  unfold ServerEvent.exit
  cases e.request with
  | none => simp
  | some r' =>
    rw [Option.bind_some, Option.some.injEq]
    cases hw : w'.requests r' <;> simp only [reduceCtorEq, false_iff, not_and, Option.some.injEq, Prod.mk.injEq] <;>
      first
      | (rintro rfl; simp [hw, RequestPhase.exit])
      | (refine ⟨?_, ?_⟩ <;> rintro ⟨rfl, h⟩ <;> simpa [hw, RequestPhase.exit] using h)

theorem exit_eq_none : e.exit w' = none ↔ ∀ r, e.request = some r → (w'.requests r).exit = none := by
  rw [Option.eq_none_iff_forall_ne_some]
  refine ⟨fun h r hr => ?_, fun h x hx => ?_⟩
  · rw [Option.eq_none_iff_forall_ne_some]
    intro exit hexit
    exact h (r, exit) (exit_eq_some.mpr ⟨hr, hexit⟩)
  · obtain ⟨hr, hexit⟩ := exit_eq_some.mp hx
    rw [h _ hr] at hexit
    cases hexit

/-- A request has taken no exit before its own step. -/
theorem own_exit (h : server.Step w e w') (he : e.request = some r) : (w.requests r).exit = none := by
  rcases own_live h he with hp | hp
  · rw [hp]
    rfl
  · cases hw : w.requests r <;> simp_all [RequestPhase.exit, RequestPhase.live]

theorem exit_other (h : server.Step w e w') (hr : e.request ≠ some r) :
    (w'.requests r).exit = (w.requests r).exit := by
  rw [(step_other h hr).1]

/-- Every way out of the handler records what it answers. -/
theorem exit_accounted (h : server.Step w e w') (he : e.request = some r)
    (hexit : (w'.requests r).exit = some exit) : exit.Accounted := by
  cases h
  case client => simp [ServerEvent.request] at he
  case reloadPolicy => simp [ServerEvent.request] at he
  case reloadAuth => simp [ServerEvent.request] at he
  case keepAuth => simp [ServerEvent.request] at he
  all_goals
    obtain rfl := Option.some.inj he
    simp only [World.setRequest_requests_self, World.exitRequest_requests_self, RequestPhase.exit, reduceCtorEq,
      Option.some.injEq] at hexit
  case unauthorized h => exact EarlyExit.accounted (hexit ▸ authorizeRequest_early h)
  case malformed h => exact EarlyExit.accounted (hexit ▸ readRequest_early h)
  case overloaded h => exact EarlyExit.accounted (hexit ▸ acquirePermit_early h)
  case unselected h => exact EarlyExit.accounted (hexit ▸ selectRequest_early h)
  case denied h => exact EarlyExit.accounted (hexit ▸ checkPolicies_early h)
  case answered => exact hexit ▸ finish_accounted _

end Server

/-! ### The records of a trace -/

namespace Server

variable (server : Server)

/-- The series the handler of a request records at a step. -/
def resolveRecord (x : MeteredWorld × MeteredEvent) : Option (RequestId × ResolveMetricKey) :=
  match x.2 with
  | .server e => ((server.step x.1.world e).bind e.exit).map fun (r, exit) => (r, exit.recorded)
  | _ => none

/-- The series the middleware counts at a step, with the resolve request if it is around one. -/
def httpRecord (x : MeteredWorld × MeteredEvent) : Option (Option RequestId × HttpMetricKey) :=
  match x.2 with
  | .server _ => none
  | .recordHttp r => (x.1.responses.lookup r).map fun response => (some r, resolveHttpKey response.status)
  | .serve q => some (none, httpKey server.deps q)

def resolveRecords (tr : List (MeteredWorld × MeteredEvent)) : List (RequestId × ResolveMetricKey) :=
  tr.filterMap server.resolveRecord

def httpRecords (tr : List (MeteredWorld × MeteredEvent)) : List (Option RequestId × HttpMetricKey) :=
  tr.filterMap server.httpRecord

/-- What the request `r` added to the resolve series. -/
def resolveRecordsOf (tr : List (MeteredWorld × MeteredEvent)) (r : RequestId) : List ResolveMetricKey :=
  ((server.resolveRecords tr).filter (·.1 = r)).map Prod.snd

/-- What the middleware around the request `r` added to the HTTP series. -/
def httpRecordsOf (tr : List (MeteredWorld × MeteredEvent)) (r : RequestId) : List HttpMetricKey :=
  ((server.httpRecords tr).filter (·.1 = some r)).map Prod.snd

/-! ### Steps -/

/-- The transitions of the metered provider. -/
inductive MeteredStep (m : MeteredWorld) : MeteredEvent → MeteredWorld → Prop
  | quiet {e : ServerEvent} {world : World} (h : server.step m.world e = some world)
      (hexit : e.exit world = none) : MeteredStep m (.server e) { m with world }
  | exited {e : ServerEvent} {world : World} {r : RequestId} {exit : Exit} (h : server.step m.world e = some world)
      (hexit : e.exit world = some (r, exit)) :
      MeteredStep m (.server e)
        { world
          metrics := m.metrics.recordResolveRequest exit.recorded
          responses := m.responses ++ [(r, exit.response)] }
  | counted {r : RequestId} {response : Response} (h : m.responses.lookup r = some response) :
      MeteredStep m (.recordHttp r)
        { m with
          metrics := m.metrics.recordHttpRequest (resolveHttpKey response.status)
          responses := m.responses.eraseP fun x => x.1 = r }
  | served {q : RouterRequest} (h : (dispatch server.deps q).2 = none) :
      MeteredStep m (.serve q) { m with metrics := m.metrics.recordHttpRequest (httpKey server.deps q) }

variable {server} {m m' : MeteredWorld} {tr : List (MeteredWorld × MeteredEvent)} {r : RequestId}

theorem meteredStep_cases {e : MeteredEvent} (h : server.meteredStep m e = some m') : server.MeteredStep m e m' := by
  cases e with
  | server e =>
    obtain ⟨world, hstep, rfl⟩ := Option.map_eq_some_iff.mp h
    cases hexit : e.exit world with
    | none => exact .quiet hstep hexit
    | some x => exact .exited hstep hexit
  | recordHttp r =>
    obtain ⟨response, hlookup, rfl⟩ := Option.map_eq_some_iff.mp h
    exact .counted hlookup
  | serve q =>
    simp only [meteredStep] at h
    cases hq : (dispatch server.deps q).2 with
    | some key => simp [hq] at h
    | none =>
      simp only [hq, Option.some.injEq] at h
      rw [← h, recordHttpMetrics, hq]
      exact .served hq

/-- A request that does not reach the handler is not counted as a resolve request. -/
theorem httpKey_ne_resolve {deps : HandlerDeps} {q : RouterRequest} (h : (dispatch deps q).2 = none) (status : ℕ) :
    httpKey deps q ≠ resolveHttpKey status := by
  intro heq
  obtain ⟨hmethod, hroute, -⟩ := HttpMetricKey.mk.inj heq
  cases hr : Route.ofPath q.path with
  | none =>
    rw [hr] at hroute
    exact absurd hroute (by decide)
  | some route =>
    rw [hr] at hroute
    cases route with
    | resolve => simp [dispatch, hr, hmethod] at h
    | livez => exact absurd hroute (by decide)
    | readyz => exact absurd hroute (by decide)
    | metrics => exact absurd hroute (by decide)

/-! ### The accounts are kept -/

/-- The books of a trace against the state it leads to. -/
structure Accounts (tr : List (MeteredWorld × MeteredEvent)) (m : MeteredWorld) : Prop where
  /-- the resolve series hold the records of the handlers -/
  resolve : m.metrics.resolveRequests = observeAll ((server.resolveRecords tr).map Prod.snd)
  /-- the HTTP series hold the records of the middleware -/
  http : m.metrics.httpRequests = observeAll ((server.httpRecords tr).map Prod.snd)
  /-- a request has recorded its exit, if it took one -/
  exits : ∀ r, server.resolveRecordsOf tr r = ((m.world.requests r).exit.map Exit.recorded).toList
  /-- its response is counted, or waits to be -/
  responses : ∀ r, server.httpRecordsOf tr r ++
    ((m.responses.filter (·.1 = r)).map fun x => resolveHttpKey x.2.status) =
      ((m.world.requests r).exit.map fun exit => resolveHttpKey exit.response.status).toList
  accounted : ∀ r, ∀ exit ∈ (m.world.requests r).exit, exit.Accounted
  /-- status by status, what is recorded is counted or waits -/
  statuses : ∀ status, ((server.resolveRecords tr).map Prod.snd).countP (·.status = status) =
    ((server.httpRecords tr).map Prod.snd).count (resolveHttpKey status) +
      m.responses.countP (·.2.status = status)

theorem resolveRecords_snoc (x : MeteredWorld × MeteredEvent) :
    server.resolveRecords (tr ++ [x]) = server.resolveRecords tr ++ (server.resolveRecord x).toList := by
  rw [resolveRecords, List.filterMap_append, List.filterMap_cons]
  cases server.resolveRecord x <;> rfl

theorem httpRecords_snoc (x : MeteredWorld × MeteredEvent) :
    server.httpRecords (tr ++ [x]) = server.httpRecords tr ++ (server.httpRecord x).toList := by
  rw [httpRecords, List.filterMap_append, List.filterMap_cons]
  cases server.httpRecord x <;> rfl

theorem resolveRecordsOf_snoc (x : MeteredWorld × MeteredEvent) (r : RequestId) :
    server.resolveRecordsOf (tr ++ [x]) r = server.resolveRecordsOf tr r ++
      ((server.resolveRecord x).toList.filter (·.1 = r)).map Prod.snd := by
  rw [resolveRecordsOf, resolveRecords_snoc, List.filter_append, List.map_append]
  rfl

theorem httpRecordsOf_snoc (x : MeteredWorld × MeteredEvent) (r : RequestId) :
    server.httpRecordsOf (tr ++ [x]) r = server.httpRecordsOf tr r ++
      ((server.httpRecord x).toList.filter (·.1 = some r)).map Prod.snd := by
  rw [httpRecordsOf, httpRecords_snoc, List.filter_append, List.map_append]
  rfl

theorem accounts_init {limit : ℕ} (h : m.Starts limit) : server.Accounts [] m where
  resolve := by
    rw [h.metrics]
    rfl
  http := by
    rw [h.metrics]
    rfl
  exits := by
    intro r
    rw [h.world.requests r]
    rfl
  responses := by
    intro r
    rw [h.world.requests r, h.responses]
    rfl
  accounted := by
    intro r exit hexit
    rw [h.world.requests r] at hexit
    cases hexit
  statuses := by
    intro status
    rw [h.responses]
    rfl

/-- A step on which no request leaves the handler. -/
theorem Accounts.quiet {e : ServerEvent} {world : World} (ha : server.Accounts tr m)
    (h : server.step m.world e = some world) (hexit : e.exit world = none) :
    server.Accounts (tr ++ [(m, .server e)]) { m with world } := by
  have hresolve : server.resolveRecord (m, .server e) = none := by simp [resolveRecord, h, hexit]
  have hhttp : server.httpRecord (m, .server e) = none := rfl
  have hsame : ∀ r, (world.requests r).exit = (m.world.requests r).exit := by
    intro r
    by_cases hr : e.request = some r
    · rw [exit_eq_none.mp hexit r hr, own_exit (step_cases h) hr]
    · exact exit_other (step_cases h) hr
  refine ⟨?_, ?_, fun r => ?_, fun r => ?_, fun r => ?_, fun status => ?_⟩
  · simpa [resolveRecords_snoc, hresolve] using ha.resolve
  · simpa [httpRecords_snoc, hhttp] using ha.http
  · simpa [resolveRecordsOf_snoc, hresolve, hsame] using ha.exits r
  · simpa [httpRecordsOf_snoc, hhttp, hsame] using ha.responses r
  · simpa [hsame] using ha.accounted r
  · simpa [resolveRecords_snoc, httpRecords_snoc, hresolve, hhttp] using ha.statuses status

/-- A request leaves the handler. -/
theorem Accounts.exited {e : ServerEvent} {world : World} {exit : Exit} (ha : server.Accounts tr m)
    (h : server.step m.world e = some world) (hexit : e.exit world = some (r, exit)) :
    server.Accounts (tr ++ [(m, .server e)])
      { world
        metrics := m.metrics.recordResolveRequest exit.recorded
        responses := m.responses ++ [(r, exit.response)] } := by
  have hresolve : server.resolveRecord (m, .server e) = some (r, exit.recorded) := by simp [resolveRecord, h, hexit]
  have hhttp : server.httpRecord (m, .server e) = none := rfl
  obtain ⟨hr, hnow⟩ := exit_eq_some.mp hexit
  have hbefore : (m.world.requests r).exit = none := own_exit (step_cases h) hr
  have hother : ∀ r', r' ≠ r → (world.requests r').exit = (m.world.requests r').exit := by
    intro r' hne
    apply exit_other (step_cases h)
    rw [hr, Ne, Option.some.injEq]
    exact fun heq => hne heq.symm
  have hexits := exit_accounted (step_cases h) hr hnow
  refine ⟨?_, ?_, fun r' => ?_, fun r' => ?_, fun r' exit' => ?_, fun status => ?_⟩
  · rw [resolveRecords_snoc, hresolve, Option.toList_some, List.map_append, List.map_singleton, observeAll_snoc,
      ← ha.resolve]
    rfl
  · simpa [httpRecords_snoc, hhttp, MetricsInner.recordResolveRequest] using ha.http
  · rw [resolveRecordsOf_snoc, hresolve, ha.exits r', Option.toList_some]
    by_cases hne : r' = r
    · subst hne
      simp [hbefore, hnow]
    · simp [hother r' hne, Ne.symm hne]
  · rw [httpRecordsOf_snoc, hhttp, Option.toList_none, List.filter_nil, List.map_nil, List.append_nil,
      List.filter_append, List.map_append, ← List.append_assoc, ha.responses r']
    by_cases hne : r' = r
    · subst hne
      simp [hbefore, hnow]
    · simp [hother r' hne, Ne.symm hne]
  · by_cases hne : r' = r
    · subst hne
      rw [hnow, Option.mem_some_iff]
      intro heq
      exact heq ▸ hexits
    · rw [hother r' hne]
      exact ha.accounted r' exit'
  · rw [resolveRecords_snoc, httpRecords_snoc, hresolve, hhttp, Option.toList_some, Option.toList_none,
      List.append_nil, List.map_append, List.countP_append, ha.statuses status, List.countP_append]
    simp [List.countP_singleton, hexits.status, Nat.add_assoc]

/-- The first entry under a key comes out of the list, the rest stay. -/
theorem eraseP_of_lookup {β : Type} {l : List (RequestId × β)} {v : β} (h : l.lookup r = some v) :
    ∃ l₁ l₂, l = l₁ ++ (r, v) :: l₂ ∧ l.eraseP (fun x => x.1 = r) = l₁ ++ l₂ ∧ ∀ x ∈ l₁, x.1 ≠ r := by
  obtain ⟨l₁, l₂, rfl, hl₁⟩ := List.lookup_eq_some_iff.mp h
  have hne : ∀ x ∈ l₁, x.1 ≠ r := by
    intro x hx heq
    simpa [heq] using hl₁ x hx
  refine ⟨l₁, l₂, rfl, ?_, hne⟩
  rw [List.eraseP_append_right]
  · simp
  · intro x hx
    simpa using hne x hx

/-- The middleware counts the response of `r`. -/
theorem Accounts.counted {response : Response} (ha : server.Accounts tr m)
    (h : m.responses.lookup r = some response) :
    server.Accounts (tr ++ [(m, .recordHttp r)])
      { m with
        metrics := m.metrics.recordHttpRequest (resolveHttpKey response.status)
        responses := m.responses.eraseP fun x => x.1 = r } := by
  have hresolve : server.resolveRecord (m, .recordHttp r) = none := rfl
  have hhttp : server.httpRecord (m, .recordHttp r) = some (some r, resolveHttpKey response.status) := by
    simp [httpRecord, h]
  obtain ⟨l₁, l₂, hsplit, herase, hl₁⟩ := eraseP_of_lookup h
  refine ⟨?_, ?_, fun r' => ?_, fun r' => ?_, ha.accounted, fun status => ?_⟩
  · simpa [resolveRecords_snoc, hresolve, MetricsInner.recordHttpRequest] using ha.resolve
  · rw [httpRecords_snoc, hhttp, Option.toList_some, List.map_append, List.map_singleton, observeAll_snoc, ← ha.http]
    rfl
  · simpa [resolveRecordsOf_snoc, hresolve] using ha.exits r'
  · have hnone : l₁.filter (·.1 = r) = [] := by
      rw [List.filter_eq_nil_iff]
      simpa using hl₁
    rw [← ha.responses r', httpRecordsOf_snoc, hhttp, herase, hsplit]
    by_cases hne : r' = r
    · subst hne
      simp [List.filter_append, hnone]
    · simp [List.filter_append, Ne.symm hne]
  · have hstatuses := ha.statuses status
    rw [hsplit, List.countP_append, List.countP_cons] at hstatuses
    have hkey : resolveHttpKey response.status = resolveHttpKey status ↔ response.status = status := by
      simp [resolveHttpKey]
    rw [resolveRecords_snoc, httpRecords_snoc, hresolve, hhttp, Option.toList_some, Option.toList_none,
      List.append_nil, List.map_append, List.count_append, herase, List.countP_append, hstatuses]
    simp only [List.map_singleton, List.count_singleton, beq_iff_eq, hkey, decide_eq_true_eq]
    omega

/-- A request that does not reach the handler. -/
theorem Accounts.served {q : RouterRequest} (ha : server.Accounts tr m) (h : (dispatch server.deps q).2 = none) :
    server.Accounts (tr ++ [(m, .serve q)])
      { m with metrics := m.metrics.recordHttpRequest (httpKey server.deps q) } := by
  have hresolve : server.resolveRecord (m, .serve q) = none := rfl
  have hhttp : server.httpRecord (m, .serve q) = some (none, httpKey server.deps q) := rfl
  refine ⟨?_, ?_, fun r => ?_, fun r => ?_, ha.accounted, fun status => ?_⟩
  · simpa [resolveRecords_snoc, hresolve, MetricsInner.recordHttpRequest] using ha.resolve
  · rw [httpRecords_snoc, hhttp, Option.toList_some, List.map_append, List.map_singleton, observeAll_snoc, ← ha.http]
    rfl
  · simpa [resolveRecordsOf_snoc, hresolve] using ha.exits r
  · simpa [httpRecordsOf_snoc, hhttp] using ha.responses r
  · rw [resolveRecords_snoc, httpRecords_snoc, hresolve, hhttp, Option.toList_some, Option.toList_none,
      List.append_nil, List.map_append, List.count_append, ha.statuses status, List.map_singleton,
      List.count_singleton, if_neg (by simpa using httpKey_ne_resolve h status), Nat.add_zero]

theorem runs_accounts {limit : ℕ} {m₀ : MeteredWorld} (h0 : m₀.Starts limit) (h : server.MeteredRuns m₀ tr m) :
    server.Accounts tr m := by
  induction h with
  | nil => exact accounts_init h0
  | snoc _ hstep ih =>
    cases meteredStep_cases hstep with
    | quiet h hexit => exact ih.quiet h hexit
    | exited h hexit => exact ih.exited h hexit
    | counted h => exact ih.counted h
    | served h => exact ih.served h

end Server

/-! ### The accounts agree -/

open Server

/-- In every run of the provider, with other traffic between and handlers dropped
where they wait: the resolve series of a status add up to the HTTP series of
`POST /v1/resolve` with it, once the middleware has counted what came out; a
request that answered recorded one series, which says what it answered; one that
did not is in neither. The two maps hold these records and no others. -/
theorem resolve_accounting {server : Server} {limit : ℕ} {m₀ m : MeteredWorld}
    {tr : List (MeteredWorld × MeteredEvent)} (h0 : m₀.Starts limit) (h : server.MeteredRuns m₀ tr m) :
    (m.responses = [] → ∀ status, seriesTotal (·.status = status) m.metrics.resolveRequests =
      seriesCount m.metrics.httpRequests (resolveHttpKey status)) ∧
    (∀ r request exit, m.world.requests r = .answered request exit →
      server.resolveRecordsOf tr r = [exit.recorded] ∧ exit.Accounted ∧
        (r ∉ m.responses.map Prod.fst → server.httpRecordsOf tr r = [resolveHttpKey exit.response.status])) ∧
    (∀ r, (∀ request exit, m.world.requests r ≠ .answered request exit) →
      server.resolveRecordsOf tr r = [] ∧ server.httpRecordsOf tr r = []) ∧
    (∀ key, seriesCount m.metrics.resolveRequests key = ((server.resolveRecords tr).map Prod.snd).count key) ∧
    (∀ key, seriesCount m.metrics.httpRequests key = ((server.httpRecords tr).map Prod.snd).count key) := by
  have ha := runs_accounts h0 h
  refine ⟨fun hsettled status => ?_, fun r request exit hans => ?_, fun r hnone => ?_, fun key => ?_, fun key => ?_⟩
  · have hstatuses := ha.statuses status
    rw [hsettled, List.countP_nil, Nat.add_zero] at hstatuses
    rw [ha.resolve, ha.http, seriesTotal_observeAll, seriesCount_observeAll]
    exact hstatuses
  · have hexit : (m.world.requests r).exit = some exit := by rw [hans]; rfl
    refine ⟨?_, ha.accounted r exit hexit, fun hr => ?_⟩
    · rw [ha.exits r, hexit]
      rfl
    · have hempty : m.responses.filter (·.1 = r) = [] := by
        rw [List.filter_eq_nil_iff]
        intro x hx heq
        exact hr (List.mem_map.mpr ⟨x, hx, by simpa using heq⟩)
      have hresponses := ha.responses r
      rw [hempty, List.map_nil, List.append_nil, hexit] at hresponses
      exact hresponses
  · have hexit : (m.world.requests r).exit = none := by
      cases hw : m.world.requests r with
      | answered request exit => exact absurd hw (hnone request exit)
      | _ => rfl
    have hresponses := ha.responses r
    rw [hexit, Option.map_none, Option.toList_none, List.append_eq_nil_iff] at hresponses
    refine ⟨?_, hresponses.1⟩
    rw [ha.exits r, hexit]
    rfl
  · rw [ha.resolve, seriesCount_observeAll]
  · rw [ha.http, seriesCount_observeAll]

/-! One request answers, another is dropped as its body is awaited, and a third
misses every route. -/

def accountedWorld : MeteredWorld := ⟨noteWorld [], .default, []⟩

def accountedEvents : List MeteredEvent :=
  [.server (.arrive 1 noteRequest), .server (.authorize 1)] ++ noteEvents.map .server ++
    [.serve (unmatchedRequest (extensionMethod 0)), .server (.disconnect 1), .recordHttp 0]

theorem accountedRun_isSome : (Run.exec noteServer.meteredStep accountedWorld accountedEvents).isSome = true := by
  rfl

def accountedRun : List (MeteredWorld × MeteredEvent) × MeteredWorld :=
  (Run.exec noteServer.meteredStep accountedWorld accountedEvents).get accountedRun_isSome

theorem accountedWorld_starts : accountedWorld.Starts 4 := ⟨⟨rfl, fun _ => rfl, fun _ => rfl⟩, rfl, rfl⟩

theorem resolve_accounting_sample :
    (∀ status, seriesTotal (·.status = status) accountedRun.2.metrics.resolveRequests =
      seriesCount accountedRun.2.metrics.httpRequests (resolveHttpKey status)) ∧
    noteServer.resolveRecordsOf accountedRun.1 0 = [(noteExit []).recorded] ∧
    noteServer.httpRecordsOf accountedRun.1 1 = [] := by
  obtain ⟨hsettled, hanswered, hdropped, -, -⟩ :=
    resolve_accounting accountedWorld_starts (Run.of_isSome accountedEvents accountedRun_isSome)
  refine ⟨hsettled rfl, (hanswered 0 noteRequest _ rfl).1, (hdropped 1 ?_).2⟩
  intro request exit h
  cases (show RequestPhase.disconnected noteRequest = .answered request exit from h)

end Bweso
