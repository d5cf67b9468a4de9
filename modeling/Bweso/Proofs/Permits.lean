import Mathlib.Data.Set.Card
import Bweso.Sanity.Server

/-! The permits of `resolve_semaphore`: who takes one, who gives it back, and
that the available ones and the requests past admission add up to the limit. -/

namespace Bweso

/-- The requests past admission. -/
def World.holders (w : World) : Set RequestId := {r | (w.requests r).holdsPermit = true}

instance (w : World) (r : RequestId) : Decidable (r ∈ w.holders) :=
  inferInstanceAs (Decidable ((w.requests r).holdsPermit = true))

/-- The permits it has to give. -/
def World.available (w : World) : ℤ := (w.permits.getD 0 : ℕ)

namespace Server

variable {server : Server} {tr : Trace} {r : RequestId} {w₀ w w' : World} {e : ServerEvent}

/-! ### What a step does to the semaphore -/

/-- Nothing, or its request takes a permit, or its request gives one back. -/
inductive PermitEffect (w : World) (e : ServerEvent) (w' : World) : Prop
  | kept (hp : w'.permits = w.permits) (hh : w'.holders = w.holders)
  | taken {r : RequestId} {n : ℕ} (he : e = .acquirePermit r) (hp : w.permits = some (n + 1))
      (hp' : w'.permits = some n) (hr : r ∉ w.holders) (hh : w'.holders = insert r w.holders)
  | returned {r : RequestId} (he : e.request = some r) (hp : w'.permits = w.permits.map (· + 1))
      (hr : r ∈ w.holders) (hh : w'.holders = w.holders \ {r})

theorem mem_holders_setRequest {p : RequestPhase} {r' : RequestId} : r' ∈ (w.setRequest r p).holders ↔
    r' = r ∧ p.holdsPermit = true ∨ r' ≠ r ∧ r' ∈ w.holders := by
  by_cases hr : r' = r
  · subst hr
    simp [World.holders]
  · simp [World.holders, World.setRequest_requests_ne _ _ _ hr, hr]

theorem holders_setRequest {p : RequestPhase} (h : p.holdsPermit = (w.requests r).holdsPermit) :
    (w.setRequest r p).holders = w.holders := by
  ext r'
  rw [mem_holders_setRequest, h]
  by_cases hr : r' = r
  · subst hr
    simp [World.holders]
  · simp [hr]

theorem holders_leave {p : RequestPhase} (h : p.holdsPermit = false) :
    (w.setRequest r p).holders = w.holders \ {r} := by
  ext r'
  rw [mem_holders_setRequest, h]
  simp [and_comm]

theorem holders_enter {p : RequestPhase} (h : p.holdsPermit = true) :
    (w.setRequest r p).holders = insert r w.holders := by
  ext r'
  rw [mem_holders_setRequest, h, Set.mem_insert_iff]
  tauto

/-- The end of a handler gives back the permit it held. -/
theorem leave_effect {p : RequestPhase} (he : e.request = some r) (h : p.holdsPermit = false) :
    PermitEffect w e ((w.returnPermit (w.requests r)).setRequest r p) := by
  unfold World.returnPermit
  split_ifs with hr
  · exact .returned he rfl hr (holders_leave h)
  · exact .kept rfl (holders_setRequest (by rw [h]; exact (Bool.eq_false_of_not_eq_true hr).symm))

theorem exit_effect {request : HttpRequest} {exit : Exit} (he : e.request = some r) :
    PermitEffect w e (w.exitRequest r request exit) := leave_effect he rfl

/-- The effect of every step of a server with a limit. -/
theorem step_effect {n : ℕ} (h : server.Step w e w') (hn : w.permits = some n) : PermitEffect w e w' := by
  cases h with
  | arrive hp => exact .kept rfl (holders_setRequest (by rw [hp]; rfl))
  | authorized hp _ => exact .kept rfl (holders_setRequest (by rw [hp]; rfl))
  | unauthorized hp _ => exact exit_effect rfl
  | decoded hp _ => exact .kept rfl (holders_setRequest (by rw [hp]; rfl))
  | malformed hp _ => exact exit_effect rfl
  | @permitted r _ _ _ permits hp h =>
    rw [hn] at h
    cases n with
    | zero => simp [acquirePermit] at h
    | succ n =>
      obtain rfl := Except.ok.inj h
      have hr : r ∉ w.holders := by simp [World.holders, hp, RequestPhase.holdsPermit]
      exact .taken rfl hn rfl hr (holders_enter rfl)
  | overloaded hp _ => exact exit_effect rfl
  | selected hp _ => exact .kept rfl (holders_setRequest (by rw [hp]; rfl))
  | unselected hp _ => exact exit_effect rfl
  | allowed hp _ _ =>
    refine .kept rfl ?_
    exact @holders_setRequest _ { w with client := _ } _ (by rw [hp]; rfl)
  | denied hp _ => exact exit_effect rfl
  | answered hp _ => exact exit_effect rfl
  | @dropped r request client hp hc =>
    have heffect : PermitEffect w (.disconnect r)
        ((w.returnPermit (w.requests r)).setRequest r (.disconnected request)) := leave_effect rfl rfl
    cases heffect with
    | kept hp hh => exact .kept hp hh
    | taken he => cases he
    | returned he hp hr hh => exact .returned he hp hr hh
  | client _ _ => exact .kept rfl rfl
  | reloadPolicy => exact .kept rfl rfl
  | reloadAuth _ => exact .kept rfl rfl
  | keepAuth => exact .kept rfl rfl

/-! ### Conservation -/

/-- The available permits and the requests past admission add up to the limit. -/
def Conserved (limit : ℕ) (w : World) : Prop :=
  ∃ n, w.permits = some n ∧ w.holders.Finite ∧ n + w.holders.ncard = limit

theorem PermitEffect.conserved {limit : ℕ} (h : PermitEffect w e w') (hc : Conserved limit w) :
    Conserved limit w' := by
  obtain ⟨n, hn, hfinite, hsum⟩ := hc
  cases h with
  | kept hp hh =>
    rw [Conserved, hp, hh]
    exact ⟨n, hn, hfinite, hsum⟩
  | @taken r n' _ hp hp' hr hh =>
    obtain rfl : n = n' + 1 := Option.some.inj (hn.symm.trans hp)
    refine ⟨n', hp', ?_, ?_⟩
    · rw [hh]
      exact hfinite.insert r
    · rw [hh, Set.ncard_insert_of_notMem hr hfinite]
      omega
  | @returned r _ hp hr hh =>
    rw [hn] at hp
    refine ⟨n + 1, hp, ?_, ?_⟩
    · rw [hh]
      exact hfinite.sdiff
    · have hcard := Set.ncard_sdiff_singleton_add_one hr hfinite
      rw [hh]
      omega

theorem Starts.conserved {limit : ℕ} (hlimit : 0 < limit) (h : w₀.Starts limit) : Conserved limit w₀ := by
  have hempty : w₀.holders = ∅ := by
    ext r
    simp [World.holders, h.requests r, RequestPhase.holdsPermit]
  refine ⟨limit, ?_, ?_, ?_⟩
  · rw [h.permits, resolveSemaphore, if_pos hlimit]
  · rw [hempty]
    exact Set.finite_empty
  · rw [hempty, Set.ncard_empty]
    rfl

theorem runs_conserved {limit : ℕ} (hlimit : 0 < limit) (hstart : w₀.Starts limit) (h : server.Runs w₀ tr w) :
    Conserved limit w := by
  apply h.invariant (Starts.conserved hlimit hstart)
  intro w e w' hc hstep
  obtain ⟨n, hn, hrest⟩ := hc
  exact (step_effect (step_cases hstep) hn).conserved ⟨n, hn, hrest⟩

/-! ### The permits of one request -/

variable (server) in
/-- The permits a step takes out of the semaphore, negative for one put back. -/
def permitsTaken (w : World) (e : ServerEvent) : ℤ :=
  match server.step w e with
  | some w' => w.available - w'.available
  | none => 0

variable (server) in
/-- What the steps of a request have taken and not put back. -/
def heldBy (tr : Trace) (r : RequestId) : ℤ :=
  ((tr.filter fun x => x.2.request = some r).map fun x => server.permitsTaken x.1 x.2).sum

/-- Its steps left the semaphore as they found it. -/
def TookNone (server : Server) (tr : Trace) (r : RequestId) : Prop :=
  ∀ x ∈ tr, x.2.request = some r → server.permitsTaken x.1 x.2 = 0

theorem heldBy_snoc : server.heldBy (tr ++ [(w, e)]) r =
    server.heldBy tr r + if e.request = some r then server.permitsTaken w e else 0 := by
  unfold heldBy
  rw [List.filter_append, List.map_append, List.sum_append]
  by_cases he : e.request = some r
  · simp [he]
  · simp [he]

theorem permitsTaken_of_step (h : server.step w e = some w') :
    server.permitsTaken w e = w.available - w'.available := by
  rw [permitsTaken, h]

/-- A request's own step takes what its phase gains. -/
theorem PermitEffect.own {n : ℕ} (heffect : PermitEffect w e w') (h : server.step w e = some w')
    (hn : w.permits = some n) (he : e.request = some r) :
    server.permitsTaken w e =
      (if r ∈ w'.holders then 1 else 0) - (if r ∈ w.holders then 1 else 0) := by
  rw [permitsTaken_of_step h]
  cases heffect with
  | kept hp hh => simp [World.available, hp, hh]
  | @taken r' n' he' hp hp' hr hh =>
    subst he'
    obtain rfl := Option.some.inj he
    simp [World.available, hp, hp', hr, hh]
  | @returned r' he' hp hr hh =>
    obtain rfl := Option.some.inj (he'.symm.trans he)
    simp [World.available, hp, hn, hr, hh]

/-- Another request's step does not change who it is. -/
theorem PermitEffect.other (heffect : PermitEffect w e w') (he : e.request ≠ some r) :
    r ∈ w'.holders ↔ r ∈ w.holders := by
  cases heffect with
  | kept hp hh => rw [hh]
  | @taken r' n' he' hp hp' hr hh =>
    have hne : r ≠ r' := fun heq => he (by rw [he', heq]; rfl)
    simp [hh, hne]
  | @returned r' he' hp hr hh =>
    have hne : r ≠ r' := fun heq => he (by rw [he', heq])
    simp [hh, hne]

/-- A request past admission has taken one permit, and any other holds none. -/
theorem runs_heldBy {limit : ℕ} (hlimit : 0 < limit) (hstart : w₀.Starts limit) (h : server.Runs w₀ tr w) :
    server.heldBy tr r = if r ∈ w.holders then 1 else 0 := by
  induction h with
  | nil =>
    have hr : r ∉ w₀.holders := by simp [World.holders, hstart.requests r, RequestPhase.holdsPermit]
    simp [heldBy, hr]
  | @snoc tr w w' e hrun hstep ih =>
    obtain ⟨n, hn, -⟩ := runs_conserved hlimit hstart hrun
    have heffect := step_effect (step_cases hstep) hn
    rw [heldBy_snoc, ih]
    by_cases he : e.request = some r
    · rw [if_pos he, heffect.own hstep hn he]
      ring
    · rw [if_neg he, add_zero]
      simp only [heffect.other he]

/-! ### Requests that are never admitted -/

/-- Turned away before admission: its headers did not authenticate, or its body
was not read in time, was too large or was not the JSON asked for. -/
inductive TurnedAway (server : Server) (tr : Trace) (r : RequestId) : Prop
  | auth {p : World} {request : HttpRequest} {exit : Exit} (h : (p, .authorize r) ∈ tr)
      (hp : p.requests r = .arrived request)
      (he : authorizeRequest server.deps.prim p.auth request.headers = .error exit)
  | body {p : World} {read : BodyRead} {request : HttpRequest} {scope : AuthorizedScope} {exit : Exit}
      (h : (p, .readBody r read) ∈ tr) (hp : p.requests r = .authorized request scope)
      (he : readRequest server.deps.fromSlice request read = .error exit)

/-- The request has not come to its `try_acquire_owned`. -/
def beforeAdmission : RequestPhase → Bool
  | .idle | .arrived _ | .authorized .. | .decoded .. => true
  | _ => false

theorem own_live (h : server.Step w e w') (he : e.request = some r) :
    w.requests r = .idle ∨ (w.requests r).live = true := by
  cases h
  case client => simp [ServerEvent.request] at he
  case reloadPolicy => simp [ServerEvent.request] at he
  case reloadAuth => simp [ServerEvent.request] at he
  case keepAuth => simp [ServerEvent.request] at he
  all_goals obtain rfl := Option.some.inj he
  case arrive hp => exact Or.inl hp
  case dropped hp _ => exact Or.inr hp
  all_goals
    right
    rename w.requests _ = _ => hp
    rw [hp]
    rfl

theorem not_own_of_answered {request : HttpRequest} {exit : Exit} (h : server.Step w e w')
    (ha : w.requests r = .answered request exit) : e.request ≠ some r := by
  intro he
  rcases own_live h he with hp | hp
  · rw [ha] at hp
    cases hp
  · rw [ha] at hp
    cases hp

theorem answered_stays {request : HttpRequest} {exit : Exit} (h : server.Step w e w')
    (ha : w.requests r = .answered request exit) : w'.requests r = .answered request exit := by
  rw [(step_other h (not_own_of_answered h ha)).1, ha]

theorem beforeAdmission_back (h : server.Step w e w') (he : e.request = some r)
    (hw' : beforeAdmission (w'.requests r) = true) : beforeAdmission (w.requests r) = true := by
  cases h
  case client => simp [ServerEvent.request] at he
  case reloadPolicy => simp [ServerEvent.request] at he
  case reloadAuth => simp [ServerEvent.request] at he
  case keepAuth => simp [ServerEvent.request] at he
  all_goals obtain rfl := Option.some.inj he
  case arrive hp => rw [hp]; rfl
  case authorized hp _ => rw [hp]; rfl
  case decoded hp _ => rw [hp]; rfl
  all_goals simp [beforeAdmission] at hw'

theorem not_holder_of_beforeAdmission (h : beforeAdmission (w.requests r) = true) : r ∉ w.holders := by
  intro hr
  have hr : (w.requests r).holdsPermit = true := hr
  cases hp : w.requests r <;> simp [hp, beforeAdmission, RequestPhase.holdsPermit] at h hr

theorem not_holder_of_answered {request : HttpRequest} {exit : Exit} (h : w.requests r = .answered request exit) :
    r ∉ w.holders := by
  simp [World.holders, h, RequestPhase.holdsPermit]

theorem tookNone_snoc : TookNone server (tr ++ [(w, e)]) r ↔
    TookNone server tr r ∧ (e.request = some r → server.permitsTaken w e = 0) := by
  simp [TookNone, or_imp, forall_and]

/-- A step that turns its request away answers it. -/
theorem turnedAway_snoc (h : server.Step w e w') (ht : TurnedAway server (tr ++ [(w, e)]) r) :
    TurnedAway server tr r ∨ beforeAdmission (w.requests r) = true ∧ e.request = some r ∧
      ∃ request exit, w'.requests r = .answered request exit := by
  cases ht with
  | @auth p request exit hm hp he =>
    rcases List.mem_append.mp hm with hm | hm
    · exact Or.inl (.auth hm hp he)
    · obtain ⟨rfl, rfl⟩ := Prod.mk.inj (List.mem_singleton.mp hm)
      refine Or.inr ⟨by rw [hp]; rfl, rfl, ?_⟩
      cases h with
      | authorized hp' hok =>
        obtain rfl := RequestPhase.arrived.inj (hp.symm.trans hp')
        rw [he] at hok
        cases hok
      | unauthorized => exact ⟨_, _, World.exitRequest_requests_self _ _⟩
  | @body p read request _ exit hm hp he =>
    rcases List.mem_append.mp hm with hm | hm
    · exact Or.inl (.body hm hp he)
    · obtain ⟨rfl, rfl⟩ := Prod.mk.inj (List.mem_singleton.mp hm)
      refine Or.inr ⟨by rw [hp]; rfl, rfl, ?_⟩
      cases h with
      | decoded hp' hok =>
        obtain ⟨rfl, -⟩ := RequestPhase.authorized.inj (hp.symm.trans hp')
        rw [he] at hok
        cases hok
      | malformed => exact ⟨_, _, World.exitRequest_requests_self _ _⟩

/-- Neither a request before admission nor one turned away ever took a permit. -/
theorem runs_tookNone {limit : ℕ} (hlimit : 0 < limit) (hstart : w₀.Starts limit) (h : server.Runs w₀ tr w) :
    (beforeAdmission (w.requests r) = true → TookNone server tr r) ∧
      (TurnedAway server tr r →
        TookNone server tr r ∧ ∃ request exit, w.requests r = .answered request exit) := by
  induction h with
  | nil =>
    refine ⟨fun _ => by simp [TookNone], fun ht => ?_⟩
    cases ht with
    | auth hm => simp at hm
    | body hm => simp at hm
  | @snoc tr w w' e hrun hstep ih =>
    obtain ⟨ihbefore, ihaway⟩ := ih
    obtain ⟨n, hn, -⟩ := runs_conserved hlimit hstart hrun
    have hcases := step_cases hstep
    have hkept : e.request = some r → r ∉ w.holders → r ∉ w'.holders → server.permitsTaken w e = 0 := by
      intro he hr hr'
      rw [(step_effect hcases hn).own hstep hn he, if_neg hr, if_neg hr']
      rfl
    refine ⟨fun hw' => ?_, fun ht => ?_⟩
    · rw [tookNone_snoc]
      by_cases he : e.request = some r
      · have hw := beforeAdmission_back hcases he hw'
        exact ⟨ihbefore hw, fun he => hkept he (not_holder_of_beforeAdmission hw) (not_holder_of_beforeAdmission hw')⟩
      · rw [(step_other hcases he).1] at hw'
        exact ⟨ihbefore hw', fun he' => absurd he' he⟩
    · rw [tookNone_snoc]
      rcases turnedAway_snoc hcases ht with ht | ⟨hw, he, request, exit, ha⟩
      · obtain ⟨hu, request, exit, ha⟩ := ihaway ht
        exact ⟨⟨hu, fun he => absurd he (not_own_of_answered hcases ha)⟩, request, exit, answered_stays hcases ha⟩
      · exact ⟨⟨ihbefore hw, fun he => hkept he (not_holder_of_beforeAdmission hw) (not_holder_of_answered ha)⟩,
          request, exit, ha⟩

/-! ### Overload -/

theorem providerKind_ne_overloaded (e : BitwardenClientError) : (providerStatusAndKind e).2 ≠ .overloaded := by
  unfold providerStatusAndKind
  split <;> simp

theorem finish_ne_overloaded (result : Except BitwardenClientError SecretDocument) :
    (finish result).recorded.errorKind ≠ .overloaded := by
  cases result with
  | ok d => simp [finish]
  | error e => exact providerKind_ne_overloaded e

theorem acquirePermit_eq_error {permits : Option ℕ} {exit : Exit} :
    acquirePermit permits = .error exit ↔ permits = some 0 ∧ exit = reject 503 .overloaded := by
  unfold acquirePermit
  split <;> simp [eq_comm]

/-- Of the early returns only the failed `try_acquire_owned` is an overload. -/
theorem Rejected.overloaded {request : HttpRequest} {exit : Exit} (h : server.Rejected tr r request exit)
    (hkind : exit.recorded.errorKind = .overloaded) : ∃ p, (p, .acquirePermit r) ∈ tr ∧ p.permits = some 0 := by
  cases h with
  | @permit p _ _ _ _ h he => exact ⟨p, h, (acquirePermit_eq_error.mp he).1⟩
  | auth _ he =>
    unfold authorizeRequest at he
    split at he
    · cases he
    · cases he
      simp [reject] at hkind
  | body _ _ he =>
    unfold readRequest at he
    split at he
    · cases he
    · cases he
      simp [reject] at hkind
    · cases he
      simp [reject] at hkind
  | selector _ _ _ he =>
    unfold selectRequest at he
    split at he
    · cases he
    · cases he
      exact absurd hkind (providerKind_ne_overloaded _)
  | policy _ _ _ _ _ he =>
    unfold checkPolicies at he
    split_ifs at he
    cases he
    simp [reject] at hkind

theorem answered_overloaded (hstart : ∀ r, w₀.requests r = .idle) (hcalls : ∀ c, w₀.client.calls c = .idle)
    (h : server.Runs w₀ tr w) {request : HttpRequest} {exit : Exit} (ha : w.requests r = .answered request exit)
    (hkind : exit.recorded.errorKind = .overloaded) : ∃ p, (p, .acquirePermit r) ∈ tr ∧ p.permits = some 0 := by
  have hs := runs_standing h (hstart r) (hcalls r)
  rw [ha] at hs
  rcases hs with ⟨-, hrej⟩ | ⟨_, _, _, result, -, hexit, -⟩
  · exact hrej.overloaded hkind
  · rw [hexit] at hkind
    exact absurd hkind (finish_ne_overloaded result)

/-- A request that found no permit is answered so and stays answered. -/
theorem overloaded_answered (h : server.Runs w₀ tr w) {p : World} (hm : (p, .acquirePermit r) ∈ tr)
    (hp : p.permits = some 0) : ∃ request, w.requests r = .answered request (reject 503 .overloaded) := by
  induction h with
  | nil => simp at hm
  | @snoc tr w w' e _ hstep ih =>
    rcases List.mem_append.mp hm with hm | hm
    · obtain ⟨request, ha⟩ := ih hm
      exact ⟨request, answered_stays (step_cases hstep) ha⟩
    · obtain ⟨rfl, rfl⟩ := Prod.mk.inj (List.mem_singleton.mp hm)
      cases step_cases hstep with
      | permitted _ hok =>
        rw [hp] at hok
        cases hok
      | overloaded _ herr =>
        obtain ⟨-, rfl⟩ := acquirePermit_eq_error.mp herr
        exact ⟨_, World.exitRequest_requests_self _ _⟩

end Server

open Server in
/-- Admission control: in every reachable world the available permits and the
requests past admission add up to the limit; an answer is `overloaded` exactly
when no permit was available; a request still reading or turned away took none;
and what a request has taken is back once it has ended. -/
theorem permits_never_leak (server : Server) (limit : ℕ) (hlimit : 0 < limit) (w₀ w : World) (tr : Trace)
    (hstart : w₀.Starts limit) (h : server.Runs w₀ tr w) :
    (∃ n, w.permits = some n ∧ w.holders.Finite ∧ n + w.holders.ncard = limit) ∧ ∀ r,
      ((∃ request exit, w.requests r = .answered request exit ∧ exit.recorded.errorKind = .overloaded) ↔
        ∃ p, (p, .acquirePermit r) ∈ tr ∧ p.permits = some 0) ∧
      (beforeAdmission (w.requests r) = true ∨ TurnedAway server tr r → TookNone server tr r) ∧
      (server.heldBy tr r = if (w.requests r).holdsPermit then 1 else 0) := by
  refine ⟨runs_conserved hlimit hstart h, fun r => ⟨⟨fun hover => ?_, fun hseen => ?_⟩, fun hearly => ?_,
    runs_heldBy hlimit hstart h⟩⟩
  · obtain ⟨request, exit, ha, hkind⟩ := hover
    exact answered_overloaded hstart.requests hstart.calls h ha hkind
  · obtain ⟨p, hm, hp⟩ := hseen
    obtain ⟨request, ha⟩ := overloaded_answered h hm hp
    exact ⟨request, _, ha, rfl⟩
  · obtain ⟨hbefore, haway⟩ := runs_tookNone hlimit hstart h
    rcases hearly with hearly | hearly
    · exact hbefore hearly
    · exact (haway hearly).1

/-! A limit of one and two requests: the second finds the permit taken, and the
first is dropped while the provider resolves for it. -/

def crowdedWorld : World := { noteWorld [] with permits := resolveSemaphore 1 }

def crowdedEvents : List ServerEvent :=
  [.arrive 0 noteRequest, .arrive 1 noteRequest, .authorize 0, .authorize 1, .readBody 0 .completed,
    .readBody 1 .completed, .acquirePermit 0, .acquirePermit 1, .select 0, .checkPolicies 0,
    .disconnect 0]

theorem crowded_isSome : (Run.exec noteServer.step crowdedWorld crowdedEvents).isSome = true := by
  rfl

def crowdedTrace : Server.Trace := ((Run.exec noteServer.step crowdedWorld crowdedEvents).get crowded_isSome).1

def crowdedFinal : World := ((Run.exec noteServer.step crowdedWorld crowdedEvents).get crowded_isSome).2

theorem permits_never_leak_crowded : crowdedWorld.Starts 1 ∧ crowdedFinal.permits = some 1 ∧
    crowdedFinal.holders.ncard = 0 ∧ (∃ p, (p, .acquirePermit 1) ∈ crowdedTrace ∧ p.permits = some 0) ∧
    noteServer.heldBy crowdedTrace 0 = 0 := by
  have hstart : crowdedWorld.Starts 1 := ⟨rfl, fun _ => rfl, fun _ => rfl⟩
  obtain ⟨⟨n, hn, -, hsum⟩, hall⟩ := permits_never_leak noteServer 1 Nat.one_pos crowdedWorld crowdedFinal
    crowdedTrace hstart (Run.of_isSome crowdedEvents crowded_isSome)
  have hpermits : crowdedFinal.permits = some 1 := rfl
  obtain rfl := Option.some.inj (hn.symm.trans hpermits)
  exact ⟨hstart, hpermits, by omega, (hall 1).1.mp ⟨noteRequest, _, rfl, rfl⟩, (hall 0).2.2⟩

end Bweso
