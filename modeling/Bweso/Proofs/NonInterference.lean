import Bweso.Sanity.Server

/-! Two runs of the handler: what a caller's answer can depend on. A request
meets an encounter when each of its steps finds the auth state, body, permits
and rules the encounter names; everything else in the run is left open. -/

namespace Bweso

namespace Server

variable {server : Server} {tr : Trace} {r : RequestId} {m : Encounter}

/-- Whenever the request takes a step, it finds what `m` says. -/
structure Meets (tr : Trace) (r : RequestId) (m : Encounter) : Prop where
  auth : ∀ p, (p, .authorize r) ∈ tr → p.auth = m.auth
  read : ∀ p read, (p, .readBody r read) ∈ tr → read = m.read
  permits : ∀ p, (p, .acquirePermit r) ∈ tr → p.permits = m.permits
  rules : ∀ p, (p, .checkPolicies r) ∈ tr → p.selectorPolicy.rules = m.rules

theorem Meets.authorize (h : Meets tr r m) {scope : AuthorizedScope}
    (ha : server.Authorized tr r m.request scope) :
    authorizeRequest server.deps.prim m.auth m.request.headers = .ok scope := by
  obtain ⟨p, hp, -, hauth⟩ := ha
  rw [← h.auth p hp]
  exact authorizeRequest_ok.mpr hauth

theorem Meets.decode (h : Meets tr r m) {body : ResolveRequest} (hd : server.Decoded tr r m.request body) :
    readRequest server.deps.fromSlice m.request m.read = .ok body := by
  obtain ⟨p, read, hp, -, hdec⟩ := hd
  rw [← h.read p read hp]
  exact readRequest_ok.mpr hdec

theorem Meets.permit (h : Meets tr r m) (hp : Permitted tr r) : ∃ n, acquirePermit m.permits = .ok n := by
  obtain ⟨p, n, hmem, -, hn⟩ := hp
  exact ⟨n, by rw [← h.permits p hmem, hn]⟩

/-- A request that passes the checks passes those of its encounter. -/
theorem Meets.admits (h : Meets tr r m) {scope : AuthorizedScope} {body : ResolveRequest}
    {selector : BitwardenSelector} (hpass : server.Passed tr r m.request scope body selector) :
    resolveAdmission server.deps m = .ok selector := by
  obtain ⟨n, hn⟩ := h.permit hpass.permitted
  obtain ⟨p, hp, -, hallowed⟩ := hpass.allowed
  have hpol : checkPolicies m.rules scope selector = .ok () := by
    rw [← h.rules p hp]
    exact checkPolicies_ok.mpr hallowed
  simp only [resolveAdmission, h.authorize hpass.authorized, h.decode hpass.decoded, hn,
    selectRequest_ok.mpr hpass.selected, hpol, Except.ok_bind, Except.pure_eq_ok]

/-- A request turned away by a check is turned away by its encounter. -/
theorem Meets.rejects (h : Meets tr r m) {exit : Exit} (hrej : server.Rejected tr r m.request exit) :
    resolveAdmission server.deps m = .error exit := by
  unfold resolveAdmission
  cases hrej with
  | auth hmem he => rw [← h.auth _ hmem, he, Except.error_bind]
  | body ha hmem he => rw [h.authorize ha, Except.ok_bind, ← h.read _ _ hmem, he, Except.error_bind]
  | permit ha hd hmem he =>
    rw [h.authorize ha, Except.ok_bind, h.decode hd, Except.ok_bind, ← h.permits _ hmem, he,
      Except.error_bind]
  | selector ha hd hp he =>
    obtain ⟨n, hn⟩ := h.permit hp
    rw [h.authorize ha, Except.ok_bind, h.decode hd, Except.ok_bind, hn, Except.ok_bind, he,
      Except.error_bind]
  | policy ha hd hp hs hmem he =>
    obtain ⟨n, hn⟩ := h.permit hp
    rw [h.authorize ha, Except.ok_bind, h.decode hd, Except.ok_bind, hn, Except.ok_bind,
      selectRequest_ok.mpr hs, Except.ok_bind, ← h.rules _ hmem, he, Except.error_bind]

/-- An answer is the sequential handler's on the encounter: an early return with
the call never begun, or the end of the call. -/
theorem answered_cases {w₀ w : World} (hrun : server.Runs w₀ tr w) (hreq : w₀.requests r = .idle)
    (hcall : w₀.client.calls r = .idle) {exit : Exit} (hans : w.requests r = .answered m.request exit)
    (h : Meets tr r m) :
    (resolveAdmission server.deps m = .error exit ∧ w.client.calls r = .idle) ∨
      ∃ selector result, resolveAdmission server.deps m = .ok selector ∧ exit = finish result ∧
        w.client.calls r = .done result := by
  have hs := runs_standing hrun hreq hcall
  rw [hans] at hs
  rcases hs with ⟨hidle, hrej⟩ | ⟨scope, body, selector, result, hpass, rfl, hdone, hres⟩
  · exact Or.inl ⟨h.rejects hrej, hidle⟩
  · exact Or.inr ⟨selector, result, h.admits hpass, rfl, hdone⟩

/-- The handler of the running server computes the sequential handler. -/
theorem answered_resolve {w₀ w : World} (hrun : server.Runs w₀ tr w) (hreq : w₀.requests r = .idle)
    (hcall : w₀.client.calls r = .idle) {exit : Exit} (hans : w.requests r = .answered m.request exit)
    (h : Meets tr r m) :
    ∃ result, exit = (resolve server.deps m (fun _ _ => (result, ())) ()).1 := by
  rcases answered_cases hrun hreq hcall hans h with ⟨hrej, -⟩ | ⟨selector, result, hadm, rfl, -⟩
  · exact ⟨.error (.api .http), by simp [resolve, hrej]⟩
  · exact ⟨result, by simp [resolve, hadm]⟩

/-! ### The provider is left alone -/

/-- Neither the request's own steps nor a call of it touch the client. -/
def Untouched (server : Server) (tr : Trace) (r : RequestId) : Prop :=
  (∀ p e p', (p, e) ∈ tr → e.request = some r → server.step p e = some p' → p'.client = p.client) ∧
    ∀ p ce, (p, .client ce) ∈ tr → ce.call ≠ some r

/-- What a request's own step can do to the client. -/
theorem own_client {w w' : World} {e : ServerEvent} (h : server.Step w e w') (hr : e.request = some r) :
    w'.client = w.client ∨ (∃ selector, w'.client.calls r = .ensure selector) ∨
      ∃ request, w'.requests r = .disconnected request := by
  cases h with
  | allowed _ _ _ =>
    obtain rfl := Option.some.inj hr
    exact Or.inr (Or.inl ⟨_, ClientState.setPhase_calls_self _ _ _⟩)
  | dropped _ _ =>
    obtain rfl := Option.some.inj hr
    exact Or.inr (Or.inr ⟨_, World.setRequest_requests_self _ _ _⟩)
  | client _ _ => simp [ServerEvent.request] at hr
  | _ => exact Or.inl (by simp)

/-- A dropped handler takes no further step. -/
theorem disconnected_step {w w' : World} {e : ServerEvent} (h : server.Step w e w') {request : HttpRequest}
    (hd : w.requests r = .disconnected request) : w'.requests r = .disconnected request := by
  by_cases hr : e.request = some r
  · cases h with
    | client _ _ => exact hd
    | reloadPolicy => exact hd
    | reloadAuth _ => exact hd
    | keepAuth => exact hd
    | _ hp =>
      obtain rfl := Option.some.inj hr
      simp [hd, RequestPhase.live] at hp
  · rw [(step_other h hr).1]
    exact hd

theorem runs_untouched {w₀ w : World} (hrun : server.Runs w₀ tr w) (hcall : w.client.calls r = .idle)
    (hlive : ∀ request, w.requests r ≠ .disconnected request) : server.Untouched tr r := by
  induction hrun with
  | nil => exact ⟨by simp, by simp⟩
  | @snoc tr w w' e _ hstep ih =>
    have hidle : w.client.calls r = .idle := by
      rcases step_client (step_cases hstep) with hsame | ⟨ce, hc⟩
      · rw [← hsame]
        exact hcall
      · exact Client.idle_of_step hc hcall
    have hbefore := ih hidle fun request hd => hlive request (disconnected_step (step_cases hstep) hd)
    refine ⟨fun p e' p' hmem hr hp' => ?_, fun p ce hmem => ?_⟩
    · rcases List.mem_append.mp hmem with hmem | hmem
      · exact hbefore.1 p e' p' hmem hr hp'
      · obtain ⟨rfl, rfl⟩ := Prod.mk.inj (List.mem_singleton.mp hmem)
        obtain rfl := Option.some.inj (hp'.symm.trans hstep)
        rcases own_client (step_cases hp') hr with h | ⟨selector, h⟩ | ⟨request, h⟩
        · exact h
        · simp [hcall] at h
        · exact absurd h (hlive request)
    · rcases List.mem_append.mp hmem with hmem | hmem
      · exact hbefore.2 p ce hmem
      · obtain ⟨rfl, rfl⟩ := Prod.mk.inj (List.mem_singleton.mp hmem)
        intro hce
        cases step_cases hstep with
        | client hof hc =>
          cases hc with
          | tick => simp [ClientEvent.call] at hce
          | begin _ => simp [ClientEvent.ofHandler] at hof
          | cancel _ => simp [ClientEvent.ofHandler] at hof
          | _ hp =>
            obtain rfl := Option.some.inj hce
            simp [hidle] at hp

/-! ### Answers to one encounter -/

/-- A run that answers a fresh request whose encounter is `m`. -/
structure Answer (server : Server) (m : Encounter) where
  start : World
  final : World
  trace : Trace
  request : RequestId
  exit : Exit
  run : server.Runs start trace final
  fresh : start.requests request = .idle
  notCalled : start.client.calls request = .idle
  answered : final.requests request = .answered m.request exit
  meets : Meets trace request m

namespace Answer

variable (a b : server.Answer m)

/-- How the cache step of the request ended: with the vault it then read, or
with an error. -/
inductive CacheStep : Except BitwardenClientError CachedVault → Prop
  | ok {scope : AuthorizedScope} {body : ResolveRequest} {selector : BitwardenSelector} {v : CachedVault}
      (h : ReadsVault a.trace a.request m.request scope body selector (some v)) : CacheStep (.ok v)
  | error {e : BitwardenClientError} (h : a.final.client.calls a.request = .done (.error e))
      (hnot : ∀ p, (p, .client (.readCache a.request)) ∉ a.trace) : CacheStep (.error e)

/-- The two cache steps failed alike, or gave vaults that `R` relates. -/
def SameCacheStep (R : CachedVault → CachedVault → Prop) : Prop :=
  (∃ e, a.CacheStep (.error e) ∧ b.CacheStep (.error e)) ∨
    ∃ v v', a.CacheStep (.ok v) ∧ b.CacheStep (.ok v') ∧ R v v'

variable {a b}

/-- An admitted request is answered with what its cache step leads to. -/
theorem exit_of_cacheStep {outcome : Except BitwardenClientError CachedVault} (h : a.CacheStep outcome) :
    ∃ selector, resolveAdmission server.deps m = .ok selector ∧
      a.exit = finish (outcome >>= fun v => server.readResult (some v) selector) := by
  have hcases := answered_cases a.run a.fresh a.notCalled a.answered a.meets
  cases h with
  | @ok scope body selector v hread =>
    obtain ⟨p, hp, hresolving, hreading, hcache⟩ := hread
    obtain ⟨before, after, htr, hprefix⟩ := a.run.before hp
    have hstanding := runs_standing hprefix a.fresh a.notCalled
    rw [hresolving] at hstanding
    have hpass := hstanding.1.mono (htr ▸ List.subset_append_left before _)
    obtain ⟨selector', hreading', hdone⟩ := runs_read a.run hp
    obtain rfl : selector = selector' := Phase.reading.inj (hreading.symm.trans hreading')
    refine ⟨selector, a.meets.admits hpass, ?_⟩
    rcases hcases with ⟨-, hidle⟩ | ⟨_, result, -, hexit, hres⟩
    · simp [hdone] at hidle
    · rw [hdone] at hres
      rw [hexit, ← Phase.done.inj hres, hcache, Except.ok_bind]
  | error herr _ =>
    rcases hcases with ⟨-, hidle⟩ | ⟨selector, result, hadm, hexit, hres⟩
    · simp [herr] at hidle
    · rw [herr] at hres
      exact ⟨selector, hadm, by rw [hexit, ← Phase.done.inj hres, Except.error_bind]⟩

/-- A rejected encounter has one answer, and the provider is not involved. -/
theorem rejected {exit : Exit} (h : resolveAdmission server.deps m = .error exit) :
    a.exit = exit ∧ server.Untouched a.trace a.request := by
  rcases answered_cases a.run a.fresh a.notCalled a.answered a.meets with ⟨hrej, hidle⟩ | ⟨_, _, hadm, -⟩
  · refine ⟨Except.error.inj (hrej.symm.trans h), runs_untouched a.run hidle fun request hd => ?_⟩
    simp [a.answered] at hd
  · simp [h] at hadm

end Answer

end Server

/-- Two vaults look the same to a caller that asks for the id `x`: one user key,
and the same first undeleted cipher with that id, or none in both. -/
def SameItem (x : Str) (v v' : CachedVault) : Prop :=
  v.session.userKey = v'.session.userKey ∧
    (v.sync.ciphers.find? fun c => c.id == x && c.deletedDate.isNone) =
      v'.sync.ciphers.find? fun c => c.id == x && c.deletedDate.isNone

/-- A lookup by id reads nothing else of the vault. -/
theorem readResult_sameItem (server : Server) {selector : BitwardenSelector} {x : Str} {v v' : CachedVault}
    (hkey : selector.key = "id:".toList ++ x) (h : SameItem x v v') :
    server.readResult (some v) selector = server.readResult (some v') selector := by
  have hfind : findCipherById v.sync x = findCipherById v'.sync x := by
    unfold findCipherById
    rw [h.2]
  have hresolve : ∀ s : SyncResponse, ∀ k, resolveSyncedCipher server.client.config.prim s k selector.key =
      resolveSyncedCipherById server.client.config.prim s k x := by
    intro s k
    unfold resolveSyncedCipher
    rw [fromKey_id.mpr hkey, Except.ok_bind]
  simp only [Server.readResult, resolveFromSync, hresolve, resolveSyncedCipherById, hfind, h.1]

/-- The keys a scope allows are all ids. -/
def IdsOnly (rules : PolicyRules) : Prop := ∀ key, rules.allows key = true → "id:".toList <+: key

theorem Answer.exit_eq_of_id {server : Server} {m : Encounter} {a b : server.Answer m}
    {selector : BitwardenSelector} {x : Str} (hadm : resolveAdmission server.deps m = .ok selector)
    (hkey : selector.key = "id:".toList ++ x) (h : a.SameCacheStep b (SameItem x)) : a.exit = b.exit := by
  rcases h with ⟨e, ha, hb⟩ | ⟨v, v', ha, hb, hsame⟩
  · obtain ⟨_, -, ha⟩ := Server.Answer.exit_of_cacheStep ha
    obtain ⟨_, -, hb⟩ := Server.Answer.exit_of_cacheStep hb
    rw [ha, hb]
    rfl
  · obtain ⟨s, hs, ha⟩ := Server.Answer.exit_of_cacheStep ha
    obtain ⟨s', hs', hb⟩ := Server.Answer.exit_of_cacheStep hb
    obtain rfl : s = selector := Except.ok.inj (hs.symm.trans hadm)
    obtain rfl : s' = s := Except.ok.inj (hs'.symm.trans hadm)
    rw [ha, hb, Except.ok_bind, Except.ok_bind, readResult_sameItem server hkey hsame]

/-- Two runs of one encounter. Turned away, it gets one answer over any two
vaults and the provider is left alone; asking for an id, it gets one answer over
any two vaults with the same item there; and a capability for ids alone gets one
answer over any two vaults with the same items at the ids it allows. -/
theorem answers_noninterference (server : Server) (m : Encounter) (a b : server.Answer m) :
    (∀ exit, resolveAdmission server.deps m = .error exit →
      a.exit = exit ∧ b.exit = exit ∧ server.Untouched a.trace a.request ∧
        server.Untouched b.trace b.request) ∧
    (∀ selector x, resolveAdmission server.deps m = .ok selector → selector.key = "id:".toList ++ x →
      a.SameCacheStep b (SameItem x) → a.exit = b.exit) ∧
    ∀ rules, m.auth.authorize server.deps.prim m.request.headers = some (.scoped rules) → IdsOnly rules →
      ((∃ exit, resolveAdmission server.deps m = .error exit) ∨
        a.SameCacheStep b fun v v' => ∀ x, rules.allows ("id:".toList ++ x) = true → SameItem x v v') →
      a.exit = b.exit := by
  refine ⟨fun exit h => ?_, fun selector x hadm hkey h => Answer.exit_eq_of_id hadm hkey h,
    fun rules hauth hids h => ?_⟩
  · exact ⟨(Server.Answer.rejected h).1, (Server.Answer.rejected h).1, (Server.Answer.rejected h).2,
      (Server.Answer.rejected h).2⟩
  · cases hadm : resolveAdmission server.deps m with
    | error exit => rw [(Server.Answer.rejected hadm).1, (Server.Answer.rejected hadm).1]
    | ok selector =>
      have hscope : rules.allows selector.key = true := by
        simp only [resolveAdmission, Server.authorizeRequest_ok.mpr hauth, Except.ok_bind, Except.bind_eq_ok,
          Except.pure_eq_ok, Except.ok.injEq] at hadm
        obtain ⟨_, -, _, -, _, -, _, hpol, rfl⟩ := hadm
        exact (Server.checkPolicies_ok.mp hpol).2
      obtain ⟨x, hx⟩ := hids _ hscope
      refine Answer.exit_eq_of_id hadm hx.symm ?_
      rcases h with ⟨exit, hrej⟩ | ⟨e, hfail⟩ | ⟨v, v', ha, hb, hsame⟩
      · simp [hadm] at hrej
      · exact Or.inl ⟨e, hfail⟩
      · exact Or.inr ⟨v, v', ha, hb, hsame x (by rw [hx]; exact hscope)⟩

/-! ### Two vaults with one note -/

def noteEncounter : Encounter where
  request := noteRequest
  auth := .scoped ⟨⟨[oneCapability.load vectors.primitives]⟩⟩
  read := .completed
  permits := some 4
  rules := .allowList ["id:item-a".toList] []

theorem noteTrace_events (ciphers : List EncryptedCipher) : (noteTrace ciphers).map Prod.snd = noteEvents := by
  rfl

theorem noteTrace_meets (ciphers : List EncryptedCipher) :
    Server.Meets (noteTrace ciphers) 0 noteEncounter := by
  have hworld : ∀ x ∈ noteTrace ciphers, x.1.auth = noteEncounter.auth ∧
      x.1.selectorPolicy.rules = noteEncounter.rules ∧
      (x.2 = .acquirePermit 0 → x.1.permits = noteEncounter.permits) := by
    refine List.forall_iff_forall_mem.mp ⟨?_, ?_, ?_, ?_, ?_, ?_, ?_, ?_, ?_⟩
    all_goals exact ⟨rfl, rfl, fun _ => by first | rfl | contradiction⟩
  refine ⟨fun p hp => (hworld _ hp).1, fun p read hp => ?_, fun p hp => (hworld _ hp).2.2 rfl,
    fun p hp => (hworld _ hp).2.1⟩
  have hmem := List.mem_map_of_mem (f := Prod.snd) hp
  rw [noteTrace_events] at hmem
  simpa [noteEvents, noteEncounter] using hmem

def noteAnswer (ciphers : List EncryptedCipher) : noteServer.Answer noteEncounter where
  start := noteWorld ciphers
  final := noteFinal ciphers
  trace := noteTrace ciphers
  request := 0
  exit := noteExit ciphers
  run := noteRun_runs ciphers
  fresh := rfl
  notCalled := rfl
  answered := noteFinal_answered ciphers
  meets := noteTrace_meets ciphers

theorem noteAnswer_cacheStep (ciphers : List EncryptedCipher) :
    (noteAnswer ciphers).CacheStep (.ok (noteVault ciphers)) := by
  have hlast : 7 < (noteTrace ciphers).length := by
    rw [← List.length_map (f := Prod.snd), noteTrace_events]
    decide
  exact .ok ⟨_, List.getElem_mem hlast, rfl, rfl, rfl⟩

/-- An undecryptable item beside the note changes nothing for its caller. -/
theorem answers_noninterference_note :
    (noteAnswer [vectorCipher]).exit =
      (noteAnswer [{ vectorCipher with id := "item-b".toList, notes := some "broken".toList },
        vectorCipher]).exit :=
  (answers_noninterference noteServer noteEncounter _ _).2.1 noteSelector "item-a".toList rfl rfl
    (Or.inr ⟨_, _, noteAnswer_cacheStep _, noteAnswer_cacheStep _, rfl, by decide⟩)

end Bweso
