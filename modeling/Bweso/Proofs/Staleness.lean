import Bweso.Sanity.Refresh

/-! Bounded, opt-in staleness: what the vault a resolve reads can be, over every
interleaving of resolves, refreshes, clock ticks and cancellations. -/

namespace Bweso

open Client

/-- A resolve that reads the cache finds a vault fetched in this process. It is
the vault `v₀` the call had grounds for, or one stored after it: the call fetched
`v₀`, or at a clock sample of the call `v₀` was cached and fresh, or it was cached
within the stale window and the refresh completed last had failed transiently.
Without the stale window, or when that refresh did not fail transiently, only
the first two remain. -/
theorem served_vault_bounded (client : Client) (tr rest : Trace) (p s : ClientState) (c : CallId)
    (h : client.Runs (tr ++ (p, .readCache c) :: rest) s) :
    ∃ v, p.cache = some v ∧ (∃ d w, client.FetchedBy tr d w ∧ v.Same w) ∧
      ∃ before q e after v₀, tr = before ++ (q, e) :: after ∧ Follows after v₀ v ∧
        client.Grounds before q c e v₀ ∧
        (client.cache.staleIfError = 0 ∨
            (∀ endedAt error, client.lastAttempt before = some ⟨endedAt, .error error⟩ → ¬ Transient error) →
          client.FetchedBy before c v₀ ∨ q.cache = some v₀ ∧ client.FreshSample v₀ q.now) := by
  obtain ⟨hbefore, p', hstep, -⟩ := h.split
  have hs := runs_consistent hbefore
  cases step_cases hstep with
  | read hreading =>
    have hserves := hs.calls c
    rw [hreading] at hserves
    obtain ⟨before, q, e, after, v₀, v, htr, hg, hv, hf⟩ := hserves
    refine ⟨v, hv, (hs.cached v hv).2, before, q, e, after, v₀, htr, hf, hg, fun hno => ?_⟩
    cases hg with
    | fetched _ hfetched => exact Or.inl hfetched
    | fresh _ hcached hfresh => exact Or.inr ⟨hcached, hfresh⟩
    | stale _ _ hstale =>
      rcases hno with hzero | hother
      · exact absurd hzero (Nat.pos_iff_ne_zero.mp hstale.enabled)
      · obtain ⟨endedAt, error, hlast, ht⟩ := hstale.failed
        exact absurd ht (hother endedAt error hlast)

/-! ### An outage -/

/-- A minute of freshness, five of staleness, fifteen seconds between retries. -/
def outageClient : Client :=
  ⟨vectorConfig, ⟨Duration.fromSecs 60, Duration.fromSecs 300, Duration.fromSecs 15⟩⟩

/-- The network is down. -/
def outageUpstream : Upstream := { vectorUpstream with token := fun _ _ => .transportError }

def outageSelector : BitwardenSelector := ⟨"id:item-a".toList, some "notes".toList⟩

/-- One call fetches the vault; a minute later the next one cannot. -/
def outageEvents : List ClientEvent :=
  [.begin 0 outageSelector, .checkCache 0, .acquireLock 0, .recheckCache 0, .checkCooldown 0,
    .fetchReturns 0 vectorUpstream 1700000000, .storeVault 0, .readCache 0, .tick (Duration.fromSecs 60),
    .begin 1 outageSelector, .checkCache 1, .acquireLock 1, .recheckCache 1, .checkCooldown 1,
    .fetchReturns 1 outageUpstream 1700000060, .sampleStale 1, .serveStale 1]

/-- The second call is served stale and about to read. -/
theorem outage_stale : (Run.exec outageClient.step ClientState.init outageEvents).any (fun r =>
    r.2.metrics.staleServes == 1 && (outageClient.step r.2 (.readCache 1)).isSome) = true := by
  have hsplit : outageEvents = refreshEvents 0 outageSelector ++
      .fetchReturns 0 vectorUpstream 1700000000 :: outageEvents.drop 6 := rfl
  have hprefix : (Run.exec outageClient.step ClientState.init (refreshEvents 0 outageSelector)).isSome = true := rfl
  -- the fetch is the known one of the test vectors, not computed again
  have hfetched : ∀ s : ClientState, s.calls 0 = .fetching outageSelector →
      outageClient.step s (.fetchReturns 0 vectorUpstream 1700000000) =
        some (outageClient.afterFetch s 0 outageSelector 1700000000 (.ok (vectorSession, ⟨[vectorCipher]⟩))) :=
    fun s hs => Client.step_fetchReturns hs fetchVault_vector
  rw [hsplit, Run.exec_append (Option.some_get hprefix).symm, Run.exec_cons, hfetched _ rfl]
  decide

theorem served_vault_bounded_outage : ∃ tr p, outageClient.Runs tr p ∧ p.metrics.staleServes = 1 ∧
    ∃ v, p.cache = some v ∧ ∃ before q e after v₀, tr = before ++ (q, e) :: after ∧ Follows after v₀ v ∧
      outageClient.Grounds before q 1 e v₀ := by
  obtain ⟨⟨tr, p⟩, hexec, hstale⟩ := (Option.any_eq_true _ _).mp outage_stale
  rw [Bool.and_eq_true, beq_iff_eq] at hstale
  have hrun : outageClient.Runs tr p := Run.of_exec outageEvents hexec
  obtain ⟨s, hs⟩ := Option.isSome_iff_exists.mp hstale.2
  obtain ⟨v, hv, -, before, q, e, after, v₀, htr, hf, hg, -⟩ :=
    served_vault_bounded outageClient tr [] p s 1 (hrun.snoc hs)
  exact ⟨tr, p, hrun, hstale.1, v, hv, before, q, e, after, v₀, htr, hf, hg⟩

end Bweso
