import Bweso.Proofs.Staleness

/-! A refresh is counted when its fetch returns and stored one await later. What
the two have to do with each other: a call dropped in between is counted and
not stored, and nothing else sets them apart. -/

namespace Bweso

/-- The vault a call has fetched and not yet stored. -/
def Phase.fetchedVault : Phase → Option CachedVault
  | .storeWait _ v => some v
  | _ => none

/-- The vault on its way into the cache. -/
def ClientState.pending (s : ClientState) : Option CachedVault :=
  s.refreshLock.bind fun c => (s.calls c).fetchedVault

namespace Client

variable (client : Client)

/-- A refresh that succeeded: the vault, and the timestamp recorded for it. -/
def success : ClientState × ClientEvent → Option (CachedVault × ℕ)
  | (s, .fetchReturns _ up unixNow) =>
    match fetchVault client.config up with
    | .ok (session, sync) => some (CachedVault.new session sync s.now, unixNow)
    | .error _ => none
  | _ => none

/-- The refresh that succeeded last. -/
def lastSuccess (tr : Trace) : Option (CachedVault × ℕ) := tr.reverse.findSome? client.success

def isStore : ClientState × ClientEvent → Bool
  | (_, .storeVault _) => true
  | _ => false

/-- A call dropped while it awaits the cache to store its vault. -/
def isLoss : ClientState × ClientEvent → Bool
  | (s, .cancel c) => (s.calls c).fetchedVault.isSome
  | _ => false

/-- The vaults ever stored. -/
def stores (tr : Trace) : ℕ := tr.countP isStore

def losses (tr : Trace) : ℕ := tr.countP isLoss

/-- The cached vault is `v`, whatever its refresh deadline. -/
def Served (s : ClientState) (v : CachedVault) : Prop := ∃ w, s.cache = some w ∧ w.Same v

/-- The metrics are about the cache: as many successes as stores, the last
timestamp is that of the vault being served, and every vault counted was
stored. -/
structure Recorded (tr : Trace) (s : ClientState) : Prop where
  counted : s.metrics.refreshSuccesses = stores tr
  timestamp : match client.lastSuccess tr with
    | none => s.cache = none ∧ s.metrics.lastSuccessUnixSeconds = 0
    | some (v, unixNow) => s.metrics.lastSuccessUnixSeconds = unixNow ∧ Served s v
  kept : ∀ p c up unixNow session sync, (p, .fetchReturns c up unixNow) ∈ tr →
    fetchVault client.config up = .ok (session, sync) → ∃ q selector, (q, .storeVault c) ∈ tr ∧
      q.calls c = .storeWait selector (CachedVault.new session sync p.now)

variable {client} {tr : Trace} {s s' : ClientState} {e : ClientEvent} {c : CallId}

/-! ### The pending vault -/

theorem pending_eq (hs : Held s) (hc : (s.calls c).holdsLock = true) : s.pending = (s.calls c).fetchedVault := by
  rw [ClientState.pending, (hs c).mp hc, Option.bind_some]

theorem pending_free (h : s.refreshLock = none) : s.pending = none := by
  rw [ClientState.pending, h, Option.bind_none]

/-- A step outside the lock. -/
theorem pending_frame (hs : Held s) (h : client.Step s e s') (he : e.call = some c)
    (hout : (s.calls c).holdsLock = false) (hlock : s'.refreshLock = s.refreshLock) : s'.pending = s.pending := by
  unfold ClientState.pending
  rw [hlock]
  cases hl : s.refreshLock with
  | none => rfl
  | some d =>
    have hd := (hs d).mpr hl
    rw [Option.bind_some, Option.bind_some, step_frame h]
    intro hed
    obtain rfl := Option.some.inj (he.symm.trans hed)
    rw [hout] at hd
    cases hd

/-! ### What a step does to the books -/

variable (client) in
inductive Account (s : ClientState) (e : ClientEvent) (s' : ClientState) : Prop
  | quiet (hpending : s'.pending = s.pending) (hcount : s'.metrics.refreshSuccesses = s.metrics.refreshSuccesses)
      (hunix : s'.metrics.lastSuccessUnixSeconds = s.metrics.lastSuccessUnixSeconds)
      (hnone : s.cache = none → s'.cache = none) (hserved : ∀ v, Served s v → Served s' v)
      (hsuccess : client.success (s, e) = none) (hstore : isStore (s, e) = false) (hloss : isLoss (s, e) = false)
  | fetched {v : CachedVault} {unixNow : ℕ} (hsuccess : client.success (s, e) = some (v, unixNow))
      (hpending : s.pending = none) (hpending' : s'.pending = some v)
      (hcount : s'.metrics.refreshSuccesses = s.metrics.refreshSuccesses + 1)
      (hunix : s'.metrics.lastSuccessUnixSeconds = unixNow) (hstore : isStore (s, e) = false)
      (hloss : isLoss (s, e) = false)
  | stored {v : CachedVault} (hpending : s.pending = some v) (hpending' : s'.pending = none)
      (hcache : s'.cache = some v) (hmetrics : s'.metrics = s.metrics) (hsuccess : client.success (s, e) = none)
      (hstore : isStore (s, e) = true) (hloss : isLoss (s, e) = false)
  | lost {v : CachedVault} (hpending : s.pending = some v) (hpending' : s'.pending = none)
      (hmetrics : s'.metrics = s.metrics) (hstore : isStore (s, e) = false) (hloss : isLoss (s, e) = true)

/-- A step that writes neither the books nor the cache. -/
theorem Account.idle (hpending : s'.pending = s.pending)
    (hcount : s'.metrics.refreshSuccesses = s.metrics.refreshSuccesses)
    (hunix : s'.metrics.lastSuccessUnixSeconds = s.metrics.lastSuccessUnixSeconds) (hcache : s'.cache = s.cache)
    (hsuccess : client.success (s, e) = none) (hstore : isStore (s, e) = false) (hloss : isLoss (s, e) = false) :
    client.Account s e s' := by
  refine .quiet hpending hcount hunix (fun h => hcache.trans h) (fun v hv => ?_) hsuccess hstore hloss
  obtain ⟨w, hw, hsame⟩ := hv
  exact ⟨w, hcache.trans hw, hsame⟩

theorem countReuse_successes (m : CacheMetricState) (r : Reuse) :
    (m.countReuse r).refreshSuccesses = m.refreshSuccesses ∧
      (m.countReuse r).lastSuccessUnixSeconds = m.lastSuccessUnixSeconds := by
  cases r <;> exact ⟨rfl, rfl⟩

theorem step_account (hs : Held s) (h : client.Step s e s') : client.Account s e s' := by
  have hs' := hs.step h
  have inside : ∀ {c p}, s.calls c = p → p.holdsLock = true → s.pending = p.fetchedVault := by
    intro c p hc hp
    rw [← hc] at hp ⊢
    exact pending_eq hs hp
  have inside' : ∀ {c p}, s'.calls c = p → p.holdsLock = true → s'.pending = p.fetchedVault := by
    intro c p hc hp
    rw [← hc] at hp ⊢
    exact pending_eq hs' hp
  -- a call moves outside the lock, inside it, or out of it, without a vault in hand
  have outside : ∀ {c p}, e.call = some c → s.calls c = p → p.holdsLock = false →
      s'.refreshLock = s.refreshLock → s'.pending = s.pending := by
    intro c p he hc hp hlock
    rw [← hc] at hp
    exact pending_frame hs h he hp hlock
  have stays : ∀ {c p p'}, s.calls c = p → p.holdsLock = true → p.fetchedVault = none → s'.calls c = p' →
      p'.holdsLock = true → p'.fetchedVault = none → s'.pending = s.pending := by
    intro c p p' hc hp hv hc' hp' hv'
    rw [inside hc hp, hv, inside' hc' hp', hv']
  have leaves : ∀ {c p}, s.calls c = p → p.holdsLock = true → p.fetchedVault = none → s'.refreshLock = none →
      s'.pending = s.pending := by
    intro c p hc hp hv hfree
    rw [inside hc hp, hv, pending_free hfree]
  cases h
  case tick => exact .idle rfl rfl rfl rfl rfl rfl rfl
  case begin hc | read hc | miss hc _ => exact .idle (outside rfl hc rfl rfl) rfl rfl rfl rfl rfl rfl
  case hit r hc _ =>
    obtain ⟨hcount, hunix⟩ := countReuse_successes s.metrics r
    exact .idle (outside rfl hc rfl rfl) hcount hunix rfl rfl rfl rfl
  case acquire hc hfree =>
    refine .idle ?_ rfl rfl rfl rfl rfl rfl
    rw [pending_free hfree]
    exact inside' (ClientState.setPhase_calls_self _ _ _) rfl
  case rehit r hc _ =>
    obtain ⟨hcount, hunix⟩ := countReuse_successes s.metrics r
    exact .idle (leaves hc rfl rfl rfl) hcount hunix rfl rfl rfl rfl
  case throttled hc _ | giveUp hc _ | expired hc _ =>
    exact .idle (leaves hc rfl rfl rfl) rfl rfl rfl rfl rfl rfl
  case remiss hc _ | startFetch hc _ | sample hc _ =>
    exact .idle (stays hc rfl rfl (ClientState.setPhase_calls_self _ _ _) rfl rfl) rfl rfl rfl rfl rfl rfl
  case fetchFailed hc hf =>
    exact .idle (stays hc rfl rfl (ClientState.setPhase_calls_self _ _ _) rfl rfl) rfl rfl rfl
      (by simp only [success, hf]) rfl rfl
  case fetched hc hf =>
    refine .fetched (by simp only [success, hf]; rfl) (inside hc rfl) ?_ rfl rfl rfl rfl
    exact inside' (ClientState.setPhase_calls_self _ _ _) rfl
  case stale hc hstale =>
    obtain ⟨v, hv, -, rfl⟩ := (serveStaleAfterError_eq_some client).mp hstale
    refine .quiet (leaves hc rfl rfl rfl) rfl rfl (fun h => ?_) (fun w hw => ?_) rfl rfl rfl
    · rw [hv] at h
      cases h
    · obtain ⟨w', hw', hsame⟩ := hw
      obtain rfl := Option.some.inj (hv.symm.trans hw')
      exact ⟨_, rfl, hsame.deferRefreshUntil _⟩
  case store hc => exact .stored (inside hc rfl) (pending_free rfl) rfl rfl rfl rfl rfl
  case cancel c ha =>
    have hmetrics := s.dropCall_metrics c
    by_cases hlock : (s.calls c).holdsLock = true
    · have hfree : (s.dropCall c).refreshLock = none := by
        rw [ClientState.dropCall_refreshLock, if_pos ((hs c).mp hlock)]
      cases hv : (s.calls c).fetchedVault with
      | none =>
        exact .idle (leaves rfl hlock hv hfree) (by rw [hmetrics]) (by rw [hmetrics]) (s.dropCall_cache c) rfl rfl
          (by simp [isLoss, hv])
      | some v =>
        exact .lost (by rw [inside rfl hlock, hv]) (pending_free hfree) hmetrics rfl (by simp [isLoss, hv])
    · have hv : (s.calls c).fetchedVault = none := by
        cases hp : s.calls c with
        | storeWait _ _ => exact absurd (by rw [hp]; rfl) hlock
        | _ => rfl
      refine .idle (outside rfl rfl (Bool.eq_false_of_not_eq_true hlock) ?_) (by rw [hmetrics]) (by rw [hmetrics])
        (s.dropCall_cache c) rfl rfl (by simp [isLoss, hv])
      rw [ClientState.dropCall_refreshLock, if_neg fun h => hlock ((hs c).mpr h)]

/-! ### The books over a run -/

theorem stores_snoc (tr : Trace) (x : ClientState × ClientEvent) :
    stores (tr ++ [x]) = stores tr + if isStore x then 1 else 0 := by
  rw [stores, List.countP_append, List.countP_singleton]
  rfl

theorem losses_snoc (tr : Trace) (x : ClientState × ClientEvent) :
    losses (tr ++ [x]) = losses tr + if isLoss x then 1 else 0 := by
  rw [losses, List.countP_append, List.countP_singleton]
  rfl

theorem lastSuccess_snoc (tr : Trace) (x : ClientState × ClientEvent) :
    client.lastSuccess (tr ++ [x]) = (client.success x).or (client.lastSuccess tr) := by
  unfold lastSuccess
  rw [List.reverse_append, List.findSome?_append, List.reverse_singleton, List.findSome?_singleton]

/-- Every success was stored, was lost, or is on its way. -/
def Balanced (tr : Trace) (s : ClientState) : Prop :=
  s.metrics.refreshSuccesses = stores tr + losses tr + s.pending.elim 0 fun _ => 1

theorem Account.balanced (h : client.Account s e s') (hb : Balanced tr s) : Balanced (tr ++ [(s, e)]) s' := by
  unfold Balanced at hb ⊢
  rw [stores_snoc, losses_snoc]
  cases h with
  | quiet hpending hcount _ _ _ _ hstore hloss =>
    rw [hpending, hcount, hstore, hloss, hb]
    simp
  | fetched _ hpending hpending' hcount _ hstore hloss =>
    rw [hpending', hcount, hstore, hloss, hb, hpending]
    simp
  | stored hpending hpending' _ hmetrics _ hstore hloss =>
    rw [hpending', hmetrics, hstore, hloss, hb, hpending]
    simp
    omega
  | lost hpending hpending' hmetrics hstore hloss =>
    rw [hpending', hmetrics, hstore, hloss, hb, hpending]
    simp
    omega

variable (client) in
/-- The last success is the vault on its way, or the one being served. -/
def Latest (tr : Trace) (s : ClientState) : Prop :=
  match client.lastSuccess tr with
  | none => s.cache = none ∧ s.metrics.lastSuccessUnixSeconds = 0 ∧ s.pending = none
  | some (v, unixNow) =>
    s.metrics.lastSuccessUnixSeconds = unixNow ∧ (s.pending = some v ∨ s.pending = none ∧ Served s v)

theorem Account.latest (h : client.Account s e s') (hloss : isLoss (s, e) = false) (hl : client.Latest tr s) :
    client.Latest (tr ++ [(s, e)]) s' := by
  unfold Latest at hl ⊢
  rw [lastSuccess_snoc]
  cases h with
  | quiet hpending _ hunix hnone hserved hsuccess =>
    rw [hsuccess, Option.none_or, hunix, hpending]
    cases hlast : client.lastSuccess tr with
    | none =>
      rw [hlast] at hl
      exact ⟨hnone hl.1, hl.2⟩
    | some x =>
      rw [hlast] at hl
      exact ⟨hl.1, hl.2.imp_right fun h => ⟨h.1, hserved _ h.2⟩⟩
  | fetched hsuccess _ hpending' _ hunix =>
    rw [hsuccess]
    exact ⟨hunix, Or.inl hpending'⟩
  | @stored v hpending hpending' hcache hmetrics hsuccess =>
    rw [hsuccess, Option.none_or, hmetrics]
    cases hlast : client.lastSuccess tr with
    | none =>
      rw [hlast, hpending] at hl
      cases hl.2.2
    | some x =>
      rw [hlast, hpending] at hl
      obtain ⟨hunix, hv | ⟨hv, -⟩⟩ := hl
      · exact ⟨hunix, Or.inr ⟨hpending', v, hcache, by rw [Option.some.inj hv]; exact .refl _⟩⟩
      · cases hv
  | lost _ _ _ _ hlost =>
    rw [hloss] at hlost
    cases hlost

theorem fetchedVault_eq_some {p : Phase} {v : CachedVault} :
    p.fetchedVault = some v ↔ ∃ selector, p = .storeWait selector v := by
  cases p <;> simp [Phase.fetchedVault]

/-- A call with a vault in hand keeps it until it stores it or is dropped. -/
theorem fetchedVault_step {v : CachedVault} (h : client.Step s e s') (hv : (s.calls c).fetchedVault = some v) :
    (s'.calls c).fetchedVault = some v ∨ e = .storeVault c ∨ isLoss (s, e) = true := by
  obtain ⟨selector, hc⟩ := fetchedVault_eq_some.mp hv
  by_cases he : e.call = some c
  · cases h
    case tick => simp [ClientEvent.call] at he
    all_goals obtain rfl := Option.some.inj he
    case store => exact Or.inr (Or.inl rfl)
    case cancel => exact Or.inr (Or.inr (by simp [isLoss, hv]))
    all_goals simp_all
  · rw [step_frame h he]
    exact Or.inl hv

variable (client) in
/-- What the call `c` fetched, it stored. -/
def StoredBy (tr : Trace) (c : CallId) (v : CachedVault) : Prop :=
  ∃ q selector, (q, .storeVault c) ∈ tr ∧ q.calls c = .storeWait selector v

theorem losses_eq_zero : losses tr = 0 ↔
    ∀ p c, (p, .cancel c) ∈ tr → ∀ selector v, p.calls c ≠ .storeWait selector v := by
  rw [losses, List.countP_eq_zero]
  refine ⟨fun h p c hm selector v hc => h _ hm (by simp [isLoss, hc, Phase.fetchedVault]), fun h x hx hloss => ?_⟩
  obtain ⟨p, e⟩ := x
  cases e with
  | cancel c =>
    obtain ⟨v, hv⟩ := Option.isSome_iff_exists.mp hloss
    obtain ⟨selector, hc⟩ := fetchedVault_eq_some.mp hv
    exact h p c hx selector v hc
  | _ => cases hloss

theorem losses_prefix {x : ClientState × ClientEvent} (h : losses (tr ++ [x]) = 0) :
    losses tr = 0 ∧ isLoss x = false := by
  rw [losses_snoc] at h
  refine ⟨by omega, Bool.eq_false_of_not_eq_true fun hx => ?_⟩
  rw [if_pos hx] at h
  omega

theorem runs_balanced (h : client.Runs tr s) : Balanced tr s := by
  induction h with
  | nil => rfl
  | snoc hrun hstep ih => exact (step_account (runs_held hrun held_init) (step_cases hstep)).balanced ih

theorem runs_latest (h : client.Runs tr s) (hlossless : losses tr = 0) : client.Latest tr s := by
  induction h with
  | nil => exact ⟨rfl, rfl, rfl⟩
  | snoc hrun hstep ih =>
    obtain ⟨hbefore, hloss⟩ := losses_prefix hlossless
    exact (step_account (runs_held hrun held_init) (step_cases hstep)).latest hloss (ih hbefore)

theorem runs_kept (h : client.Runs tr s) (hlossless : losses tr = 0) {p : ClientState} {up : Upstream}
    {unixNow : ℕ} {session : BitwardenSession} {sync : SyncResponse} (hm : (p, .fetchReturns c up unixNow) ∈ tr)
    (hf : fetchVault client.config up = .ok (session, sync)) :
    StoredBy tr c (CachedVault.new session sync p.now) ∨
      (s.calls c).fetchedVault = some (CachedVault.new session sync p.now) := by
  induction h with
  | nil => simp at hm
  | @snoc tr s s' e hrun hstep ih =>
    obtain ⟨hbefore, hloss⟩ := losses_prefix hlossless
    rcases List.mem_append.mp hm with hm | hm
    · rcases ih hbefore hm with ⟨q, selector, hq, hc⟩ | hv
      · exact Or.inl ⟨q, selector, List.mem_append_left _ hq, hc⟩
      · rcases fetchedVault_step (step_cases hstep) hv with hv' | rfl | hlost
        · exact Or.inr hv'
        · obtain ⟨selector, hc⟩ := fetchedVault_eq_some.mp hv
          exact Or.inl ⟨s, selector, List.mem_append_right _ List.mem_cons_self, hc⟩
        · rw [hloss] at hlost
          cases hlost
    · obtain ⟨rfl, rfl⟩ := Prod.mk.inj (List.mem_singleton.mp hm)
      cases step_cases hstep with
      | fetched _ hf' =>
        obtain ⟨rfl, rfl⟩ := Prod.mk.inj (Except.ok.inj (hf.symm.trans hf'))
        exact Or.inr (by rw [ClientState.setPhase_calls_self]; rfl)
      | fetchFailed _ hf' =>
        rw [hf] at hf'
        cases hf'

end Client

open Client

/-- With the lock free, the books and the cache agree exactly when no call was
dropped between its fetch and its store. -/
theorem recorded_iff (client : Client) (tr : Trace) (s : ClientState) (h : client.Runs tr s)
    (hfree : s.refreshLock = none) : client.Recorded tr s ↔
      ∀ p c, (p, .cancel c) ∈ tr → ∀ selector v, p.calls c ≠ .storeWait selector v := by
  have hpending := pending_free hfree
  have hbalanced := runs_balanced h
  unfold Client.Balanced at hbalanced
  rw [hpending, Option.elim_none, Nat.add_zero] at hbalanced
  rw [← losses_eq_zero]
  refine ⟨fun hrec => ?_, fun hlossless => ⟨by omega, ?_, fun p c up unixNow session sync hm hf => ?_⟩⟩
  · have hcounted := hrec.counted
    omega
  · have hlatest := runs_latest h hlossless
    unfold Latest at hlatest
    rw [hpending] at hlatest
    cases hlast : client.lastSuccess tr with
    | none =>
      rw [hlast] at hlatest
      exact ⟨hlatest.1, hlatest.2.1⟩
    | some x =>
      rw [hlast] at hlatest
      obtain ⟨hunix, hv | ⟨-, hserved⟩⟩ := hlatest
      · cases hv
      · exact ⟨hunix, hserved⟩
  · rcases runs_kept h hlossless hm hf with hstored | hv
    · exact hstored
    · obtain ⟨selector, hc⟩ := fetchedVault_eq_some.mp hv
      have hlock := (runs_held h held_init c).mp (by rw [hc]; rfl)
      rw [hfree] at hlock
      cases hlock

/-! ### A store and a lost store

The first call stores its vault and is still reading it when, a minute later, the
second one has fetched the next and waits for the cache. -/

def firstTrace : Trace :=
  ((Run.exec outageClient.step ClientState.init (refreshEvents 0 outageSelector)).get (by rfl)).1

/-- The first call is about to fetch. -/
def firstFetch : ClientState :=
  ((Run.exec outageClient.step ClientState.init (refreshEvents 0 outageSelector)).get (by rfl)).2

def firstFetched : ClientState :=
  outageClient.afterFetch firstFetch 0 outageSelector 1700000000 (.ok (vectorSession, ⟨[vectorCipher]⟩))

theorem firstFetched_runs : outageClient.Runs
    (firstTrace ++ [(firstFetch, .fetchReturns 0 vectorUpstream 1700000000)]) firstFetched := by
  have hfirst : outageClient.Runs firstTrace firstFetch := Run.of_isSome (refreshEvents 0 outageSelector) (by rfl)
  exact hfirst.snoc (step_fetchReturns rfl fetchVault_vector)

def secondEvents : List ClientEvent :=
  .storeVault 0 :: .tick (Duration.fromSecs 60) :: refreshEvents 1 outageSelector

/-- A minute later the second call is about to fetch. -/
def secondFetch : ClientState := ((Run.exec outageClient.step firstFetched secondEvents).get (by rfl)).2

theorem recorded_iff_stored : ∃ tr s, outageClient.Runs tr s ∧ s.refreshLock = none ∧
    s.metrics.refreshSuccesses = 1 ∧ outageClient.Recorded tr s := by
  have hstored := firstFetched_runs.append (Run.of_isSome [ClientEvent.storeVault 0] (by rfl))
  refine ⟨_, _, hstored, rfl, rfl, (recorded_iff outageClient _ _ hstored rfl).mpr fun p c hm => ?_⟩
  simp only [List.mem_append, List.mem_singleton, Prod.mk.injEq, reduceCtorEq, and_false, or_false] at hm
  rcases hm with hm | hm
  · have hlabel := Run.label_mem (refreshEvents 0 outageSelector) _ hm
    simp [refreshEvents] at hlabel
  · have hlabel := Run.label_mem [ClientEvent.storeVault 0] _ hm
    simp at hlabel

theorem lost_store : ∃ tr s, outageClient.Runs tr s ∧ s.refreshLock = none ∧ s.metrics.refreshSuccesses = 2 ∧
    stores tr = 1 ∧ s.metrics.lastSuccessUnixSeconds = 1700000060 ∧
    s.cache = some (CachedVault.new vectorSession ⟨[vectorCipher]⟩ 0) ∧ ¬ outageClient.Recorded tr s := by
  have hsecond : Run outageClient.step firstFetched _ secondFetch := Run.of_isSome secondEvents (by rfl)
  have hagain := (firstFetched_runs.append hsecond).snoc (step_fetchReturns rfl fetchVault_vector :
    _ = some (outageClient.afterFetch _ 1 outageSelector 1700000060 _))
  have hdropped := hagain.append (Run.of_isSome [.cancel 1] (by rfl))
  refine ⟨_, _, hdropped, rfl, rfl, rfl, rfl, rfl, fun hrec => ?_⟩
  exact absurd hrec.counted (by decide)

end Bweso
