import Bweso.Proofs.Endpoint

/-! Where the requests of a fetch go: the base path is normalised once as a
string and once as a list of segments, and the two agree. -/

namespace Bweso

/-! ### Segments and slashes -/

theorem joinSegments_append (l l' : List Str) : joinSegments (l ++ l') = joinSegments l ++ joinSegments l' := by
  simp [joinSegments]

@[simp] theorem joinSegments_cons (s : Str) (l : List Str) : joinSegments (s :: l) = '/' :: (s ++ joinSegments l) := by
  simp [joinSegments]

@[simp] theorem joinSegments_nil : joinSegments [] = [] := rfl

/-- Trimming slashes drops the empty segments at the end, and no others. -/
theorem trimEndSlashes_joinSegments {segments : List Str} (h : ∀ s ∈ segments, '/' ∉ s) :
    trimEndSlashes (joinSegments segments) = joinSegments (segments.rdropWhile List.isEmpty) := by
  induction segments using List.reverseRecOn with
  | nil => rfl
  | append_singleton segments s ih =>
    have hs : '/' ∉ s := h s (by simp)
    rw [joinSegments_append, joinSegments_cons, joinSegments_nil, List.append_nil]
    cases s using List.reverseRecOn with
    | nil =>
      rw [List.rdropWhile_concat_pos _ _ _ rfl, ← ih fun s hs => h s (by simp [hs])]
      exact List.rdropWhile_concat_pos _ _ _ (by simp)
    | append_singleton s ch =>
      have hch : ch ≠ '/' := by
        rintro rfl
        exact hs (by simp)
      rw [List.rdropWhile_concat_neg _ _ _ (by simp), joinSegments_append, joinSegments_cons, joinSegments_nil,
        List.append_nil, trimEndSlashes, ← List.cons_append, ← List.append_assoc]
      exact List.rdropWhile_concat_neg _ _ _ (by simp [hch])

theorem trimEndSlashes_trimEndSlashes (path : Str) : trimEndSlashes (trimEndSlashes path) = trimEndSlashes path :=
  List.rdropWhile_idempotent _ _

theorem splitOn_append_joinSegments {segments : List Str} (h : ∀ s ∈ segments, '/' ∉ s) (path : Str) :
    (path ++ joinSegments segments).splitOn '/' = path.splitOn '/' ++ segments := by
  induction segments generalizing path with
  | nil => simp
  | cons s segments ih =>
    have hs : '/' ∉ s := h s List.mem_cons_self
    rw [joinSegments_cons, List.splitOn_append_cons_self, ih (fun t ht => h t (List.mem_cons_of_mem _ ht)) s,
      List.splitOn_eq_singleton hs]
    rfl

/-! ### Editing a path by segments -/

/-- A path with no empty last segment, or the root. -/
def BasePath (path : Str) : Prop := path = "/".toList ∨ path ≠ [] ∧ path.getLast? ≠ some '/'

theorem foldl_pushSegment {segments : List Str} {path : Str} (hne : path ≠ []) (hroot : path ≠ "/".toList) :
    segments.foldl pushSegment path = path ++ joinSegments segments := by
  induction segments generalizing path with
  | nil => simp
  | cons s segments ih =>
    have hlen : 1 ≤ path.length := List.length_pos_iff.mpr hne
    rw [List.foldl_cons, pushSegment, if_neg hroot, ih (by simp)]
    · simp
    · intro h
      have := congrArg List.length h
      simp at this
      omega

theorem editedPath {segments : List Str} {s path : Str} (hpath : BasePath path) (hs : s ≠ []) :
    (s :: segments).foldl pushSegment (popIfEmpty path) = trimEndSlashes path ++ joinSegments (s :: segments) := by
  rcases hpath with rfl | ⟨hne, hlast⟩
  · -- at the root the first segment goes after the slash that is there
    have hpop : popIfEmpty "/".toList = "/".toList := by decide
    have htrim : trimEndSlashes "/".toList = [] := by decide
    rw [hpop, htrim, List.foldl_cons, pushSegment, if_pos rfl, foldl_pushSegment (by simp) (by simpa using hs)]
    simp
  · have hpop : popIfEmpty path = path := by simp [popIfEmpty, hlast]
    have htrim : trimEndSlashes path = path := by
      apply List.rdropWhile_eq_self_iff.mpr
      intro hl h
      apply hlast
      rw [List.getLast?_eq_some_getLast hl, beq_iff_eq.mp h]
    have hroot : path ≠ "/".toList := by
      rintro rfl
      exact hlast rfl
    rw [hpop, htrim, foldl_pushSegment hne hroot]

/-- The URL of a request: the slash-trimmed base path and what comes after it. -/
def requestUrl (base : Url) (suffix : Str) (query : Option Str) : Url :=
  { base with path := trimEndSlashes base.path ++ suffix, query := query, fragment := none }

theorem endpointUrl_eq {base : Url} {s : Str} {segments : List Str} (hbase : base.cannotBeABase = false)
    (hpath : BasePath base.path) (hs : s ≠ []) :
    endpointUrl base (s :: segments) = .ok (requestUrl base (joinSegments (s :: segments)) none) := by
  rw [endpointUrl, if_neg (by simp [hbase]), editedPath hpath hs]
  rfl

/-! ### The bases made from an accepted URL -/

theorem parseNamed_eq_ok {c : UrlCrate} {raw fieldName : Str} {e : BitwardenEndpoint}
    (h : BitwardenEndpoint.parseNamed c raw fieldName = .ok e) :
    c.parse raw = some e.baseUrl ∧ (e.baseUrl.scheme = http ∨ e.baseUrl.scheme = https) := by
  simp only [BitwardenEndpoint.parseNamed, Except.bind_eq_ok] at h
  obtain ⟨_, -, h⟩ := h
  cases hp : c.parse raw with
  | none => simp [hp] at h
  | some u =>
    simp only [hp] at h
    split_ifs at h with hinsecure
    · exact absurd h (by simp)
    · obtain rfl := Except.ok.inj h
      refine ⟨rfl, ?_⟩
      by_contra hscheme
      rw [not_or] at hscheme
      exact hinsecure (by simp [hscheme.1, hscheme.2])

/-- What an accepted base URL has to be, whatever text it was parsed from. -/
structure AcceptedBase (c : UrlCrate) (u : Url) : Prop where
  scheme : u.scheme = http ∨ u.scheme = https
  base : u.cannotBeABase = false
  path : ∃ segments, u.path = joinSegments segments ∧ ∀ s ∈ segments, c.normalSegment s = true

section
variable {c : UrlCrate} (hc : c.DocumentedPaths)
include hc

theorem acceptedBase {raw fieldName : Str} {e : BitwardenEndpoint}
    (h : BitwardenEndpoint.parseNamed c raw fieldName = .ok e) : AcceptedBase c e.baseUrl := by
  obtain ⟨hp, hs⟩ := parseNamed_eq_ok h
  obtain ⟨hb, segments, -, hpath, hnormal⟩ := hc.parsed raw e.baseUrl hp hs
  exact ⟨hs, hb, segments, hpath, hnormal⟩

theorem slash_not_mem {s : Str} (h : c.normalSegment s = true) : '/' ∉ s := by
  intro hmem
  rw [UrlCrate.normalSegment, Bool.and_eq_true] at h
  have := List.all_eq_true.mp h.1 '/' hmem
  rw [hc.slash] at this
  exact absurd this (by simp)

/-- A segment of lower-case letters. -/
theorem normalSegment_letters {s : Str} (h : s.all fun ch => 'a' ≤ ch && ch ≤ 'z') (hdot : dotSegment s = false) :
    c.normalSegment s = true := by
  rw [UrlCrate.normalSegment, Bool.and_eq_true]
  refine ⟨List.all_eq_true.mpr fun ch hch => ?_, by simp [hdot]⟩
  have hrange := List.all_eq_true.mp h ch hch
  rw [Bool.and_eq_true, decide_eq_true_eq, decide_eq_true_eq] at hrange
  exact hc.letter ch hrange.1 hrange.2

/-- The slash-trimmed path of an accepted base is again a list of normal segments. -/
theorem trimmed_segments {u : Url} (hu : AcceptedBase c u) :
    ∃ segments, trimEndSlashes u.path = joinSegments segments ∧ ∀ s ∈ segments, c.normalSegment s = true := by
  obtain ⟨segments, hpath, hnormal⟩ := hu.path
  refine ⟨segments.rdropWhile List.isEmpty, ?_, fun s hs => hnormal s ?_⟩
  · rw [hpath, trimEndSlashes_joinSegments fun s hs => slash_not_mem hc (hnormal s hs)]
  · exact (List.rdropWhile_prefix List.isEmpty segments).subset hs

theorem appendPathSegments_one {u : Url} (hu : AcceptedBase c u) {s : Str} (hs : c.normalSegment s = true) :
    appendPathSegments c u [s] = requestUrl u ('/' :: s) none := by
  obtain ⟨segments, hpath, hnormal⟩ := trimmed_segments hc hu
  have htrim : Text.trimBy (· == '/') s = s := by
    apply Text.trimBy_eq_self
    intro ch hch
    rw [beq_eq_false_iff_ne]
    rintro rfl
    exact slash_not_mem hc hs hch
  have hjoin : trimEndSlashes u.path ++ '/' :: s = joinSegments (segments ++ [s]) := by
    rw [hpath, joinSegments_append]
    simp
  simp only [appendPathSegments, List.foldl_cons, List.foldl_nil, htrim, hjoin]
  rw [hc.setPath_normal { u with query := none, fragment := none } _ hu.scheme hu.base (by simp)]
  · simp only [requestUrl, hjoin]
  · intro t ht
    rcases List.mem_append.mp ht with ht | ht
    · exact hnormal t ht
    · rw [List.mem_singleton.mp ht]
      exact hs

theorem normalizeEndpointBase_eq {u : Url} (hu : AcceptedBase c u) :
    normalizeEndpointBase c u = { u with
      path := if trimEndSlashes u.path = [] then "/".toList else trimEndSlashes u.path
      query := none, fragment := none } := by
  obtain ⟨segments, hpath, hnormal⟩ := trimmed_segments hc hu
  simp only [normalizeEndpointBase, appendPathSegments, List.foldl_nil, hpath]
  by_cases hnil : segments = []
  · subst hnil
    rw [joinSegments_nil, hc.setPath_empty { u with query := none, fragment := none } hu.scheme hu.base, if_pos rfl]
  · have hne : joinSegments segments ≠ [] := by
      obtain ⟨s, l, rfl⟩ := List.exists_cons_of_ne_nil hnil
      simp
    rw [hc.setPath_normal { u with query := none, fragment := none } _ hu.scheme hu.base hnil hnormal, if_neg hne]

end

theorem getLast?_ne_slash {path s : Str} (hne : s ≠ []) (hs : '/' ∉ s) : (path ++ '/' :: s).getLast? ≠ some '/' := by
  obtain ⟨l, ch, rfl⟩ : ∃ l ch, s = l ++ [ch] := ⟨_, _, (List.dropLast_append_getLast hne).symm⟩
  rw [← List.cons_append, ← List.append_assoc, List.getLast?_concat]
  rintro h
  exact hs (by simp [Option.some.inj h])

/-- Going on from a base that ends in a segment. -/
theorem endpointUrl_requestUrl {u : Url} (hu : u.cannotBeABase = false) {s t : Str} {segments : List Str}
    (hne : s ≠ []) (hs : '/' ∉ s) (ht : t ≠ []) :
    endpointUrl (requestUrl u ('/' :: s) none) (t :: segments) =
      .ok (requestUrl u (joinSegments (s :: t :: segments)) none) := by
  have hlast := @getLast?_ne_slash (trimEndSlashes u.path) s hne hs
  have hbase : BasePath (requestUrl u ('/' :: s) none).path := Or.inr ⟨by simp [requestUrl], hlast⟩
  rw [@endpointUrl_eq (requestUrl u ('/' :: s) none) t segments hu hbase ht]
  have htrim : trimEndSlashes (trimEndSlashes u.path ++ '/' :: s) = trimEndSlashes u.path ++ '/' :: s := by
    apply List.rdropWhile_eq_self_iff.mpr
    intro hl h
    apply hlast
    rw [List.getLast?_eq_some_getLast hl, beq_iff_eq.mp h]
  simp only [requestUrl, htrim, joinSegments_cons, List.append_assoc, List.cons_append]

section
variable {c : UrlCrate} (hc : c.DocumentedPaths)
include hc

theorem tokenUrl_single {u : Url} (hu : AcceptedBase c u) :
    endpointUrl (BitwardenEndpoints.fromSingleOrigin c ⟨u⟩).identityUrl ["connect".toList, "token".toList] =
      .ok (requestUrl u "/identity/connect/token".toList none) := by
  have hs : c.normalSegment "identity".toList = true := normalSegment_letters hc (by decide) (by decide)
  rw [BitwardenEndpoints.fromSingleOrigin, appendPathSegments_one hc hu hs,
    endpointUrl_requestUrl hu.base (by decide) (slash_not_mem hc hs) (by decide)]
  rfl

theorem syncUrl_single {u : Url} (hu : AcceptedBase c u) :
    endpointUrl (BitwardenEndpoints.fromSingleOrigin c ⟨u⟩).apiUrl ["sync".toList] =
      .ok (requestUrl u "/api/sync".toList none) := by
  have hs : c.normalSegment "api".toList = true := normalSegment_letters hc (by decide) (by decide)
  rw [BitwardenEndpoints.fromSingleOrigin, appendPathSegments_one hc hu hs,
    endpointUrl_requestUrl hu.base (by decide) (slash_not_mem hc hs) (by decide)]
  rfl

theorem endpointUrl_normalized {u : Url} (hu : AcceptedBase c u) {s : Str} {segments : List Str} (hs : s ≠ []) :
    endpointUrl (normalizeEndpointBase c u) (s :: segments) =
      .ok (requestUrl u (joinSegments (s :: segments)) none) := by
  have hbase : BasePath (normalizeEndpointBase c u).path ∧
      trimEndSlashes (normalizeEndpointBase c u).path = trimEndSlashes u.path := by
    rw [normalizeEndpointBase_eq hc hu]
    by_cases hnil : trimEndSlashes u.path = []
    · simp only [if_pos hnil]
      refine ⟨Or.inl rfl, ?_⟩
      rw [hnil]
      decide
    · simp only [if_neg hnil]
      refine ⟨Or.inr ⟨hnil, fun h => ?_⟩, trimEndSlashes_trimEndSlashes _⟩
      rw [List.getLast?_eq_some_getLast hnil, Option.some.injEq] at h
      exact List.rdropWhile_last_not _ _ hnil (beq_iff_eq.mpr h)
  have hcannot : (normalizeEndpointBase c u).cannotBeABase = false := by
    rw [normalizeEndpointBase_eq hc hu]
    exact hu.base
  rw [endpointUrl_eq hcannot hbase.1 hs]
  simp only [requestUrl, hbase.2]
  rw [normalizeEndpointBase_eq hc hu]

end

/-! ### The requests of a fetch -/

section
variable (cfg : ClientConfig) (up : Upstream)

/-- The token request, and the sync request where a session came of it. -/
def fetchRequests (tokenUrl syncUrl : Url) : List UpstreamRequest :=
  .token tokenUrl (tokenRequest cfg) ::
    match loginWithApiKey cfg up with
    | .ok session => [.sync syncUrl session.accessToken]
    | .error _ => []

variable {cfg} {tokenUrl syncUrl : Url}
open Recording

theorem loginWithApiKeyRecorded_returns
    (h : endpointUrl cfg.endpoints.identityUrl ["connect".toList, "token".toList] = .ok tokenUrl) :
    Returns (loginWithApiKeyRecorded cfg up) (loginWithApiKey cfg up) [.token tokenUrl (tokenRequest cfg)] := by
  unfold loginWithApiKeyRecorded loginWithApiKey
  simp only [h, Except.mapError, Except.ok_bind]
  refine (returns_silent _).bind (?_ : Returns _ _ [_])
  refine (returns_record _ _).bind (?_ : Returns _ _ [])
  refine (returns_silent _).bind_silent fun response => ?_
  cases up.unlockTask with
  | false => exact returns_throw _
  | true => exact returns_silent _

theorem syncRecorded_returns {session : BitwardenSession}
    (h : endpointUrl cfg.endpoints.apiUrl ["sync".toList] = .ok syncUrl) :
    Returns (syncRecorded cfg up session) (sync cfg up session)
      [.sync { syncUrl with query := some "excludeDomains=true".toList } session.accessToken] := by
  unfold syncRecorded sync
  simp only [h, Except.mapError, Except.ok_bind]
  refine (returns_silent _).bind (?_ : Returns _ _ [_])
  exact (returns_record _ _).bind (returns_silent _)

theorem fetchVaultRecorded_returns
    (htoken : endpointUrl cfg.endpoints.identityUrl ["connect".toList, "token".toList] = .ok tokenUrl)
    (hsync : endpointUrl cfg.endpoints.apiUrl ["sync".toList] = .ok syncUrl) :
    Returns (fetchVaultRecorded cfg up) (fetchVault cfg up)
      (fetchRequests cfg up tokenUrl { syncUrl with query := some "excludeDomains=true".toList }) := by
  have hlogin := loginWithApiKeyRecorded_returns up htoken
  unfold fetchVaultRecorded fetchVault fetchRequests
  cases h : loginWithApiKey cfg up with
  | error e =>
    rw [h] at hlogin
    exact hlogin.bind_error
  | ok session =>
    rw [h] at hlogin
    exact hlogin.bind ((syncRecorded_returns up hsync).bind_silent fun _ => returns_pure _)

end

/-! ### Bases that come to the same -/

/-- The same but for trailing slashes, query and fragment. -/
structure SameBase (u u' : Url) : Prop where
  scheme : u.scheme = u'.scheme
  authority : u.authority = u'.authority
  host : u.host = u'.host
  path : trimEndSlashes u.path = trimEndSlashes u'.path

section
variable {c : UrlCrate} (hc : c.DocumentedPaths) {u u' : Url} (hu : AcceptedBase c u) (hu' : AcceptedBase c u')
  (h : SameBase u u')
include hc hu hu' h

omit hc in
theorem requestUrl_same (suffix : Str) (query : Option Str) :
    requestUrl u suffix query = requestUrl u' suffix query := by
  simp only [requestUrl, h.scheme, h.authority, h.host, h.path, hu.base, hu'.base]

theorem fromSingleOrigin_same :
    BitwardenEndpoints.fromSingleOrigin c ⟨u⟩ = BitwardenEndpoints.fromSingleOrigin c ⟨u'⟩ := by
  have hidentity : c.normalSegment "identity".toList = true := normalSegment_letters hc (by decide) (by decide)
  have hapi : c.normalSegment "api".toList = true := normalSegment_letters hc (by decide) (by decide)
  simp only [BitwardenEndpoints.fromSingleOrigin, appendPathSegments_one hc hu hidentity,
    appendPathSegments_one hc hu hapi, appendPathSegments_one hc hu' hidentity, appendPathSegments_one hc hu' hapi,
    requestUrl_same hu hu' h]

theorem normalizeEndpointBase_same : normalizeEndpointBase c u = normalizeEndpointBase c u' := by
  rw [normalizeEndpointBase_eq hc hu, normalizeEndpointBase_eq hc hu']
  simp only [h.scheme, h.authority, h.host, h.path, hu.base, hu'.base]

end

theorem parseSplit_eq_ok {c : UrlCrate} {rawIdentity rawApi : Str} {endpoints : BitwardenEndpoints}
    (h : BitwardenEndpoints.parseSplit c rawIdentity rawApi = .ok endpoints) :
    ∃ identity api, BitwardenEndpoint.parseNamed c rawIdentity "identity_url".toList = .ok identity ∧
      BitwardenEndpoint.parseNamed c rawApi "api_url".toList = .ok api ∧
      endpoints = ⟨normalizeEndpointBase c identity.baseUrl, normalizeEndpointBase c api.baseUrl⟩ := by
  simp only [BitwardenEndpoints.parseSplit, Except.bind_eq_ok] at h
  obtain ⟨identity, hidentity, api, hapi, h⟩ := h
  exact ⟨identity, api, hidentity, hapi, (Except.ok.inj h).symm⟩

/-- Requests go to the base's scheme and authority, under its slash-trimmed path,
in both modes; nothing else of the base is in them, and no empty segment where
the parts meet. -/
theorem upstream_requests (c : UrlCrate) (hc : c.DocumentedPaths) (cfg : ClientConfig) (up : Upstream) :
    (∀ raw u, BitwardenEndpoint.parse c raw = .ok ⟨u⟩ →
      (fetchVaultRecorded { cfg with endpoints := .fromSingleOrigin c ⟨u⟩ } up).outcome.2 =
        fetchRequests { cfg with endpoints := .fromSingleOrigin c ⟨u⟩ } up
          (requestUrl u "/identity/connect/token".toList none)
          (requestUrl u "/api/sync".toList (some "excludeDomains=true".toList))) ∧
    (∀ rawIdentity rawApi endpoints, BitwardenEndpoints.parseSplit c rawIdentity rawApi = .ok endpoints →
      ∃ identity api, c.parse rawIdentity = some identity ∧ c.parse rawApi = some api ∧
        (fetchVaultRecorded { cfg with endpoints } up).outcome.2 =
          fetchRequests { cfg with endpoints } up
            (requestUrl identity "/connect/token".toList none)
            (requestUrl api "/sync".toList (some "excludeDomains=true".toList))) ∧
    (∀ u query,
      (requestUrl u "/identity/connect/token".toList query).path.splitOn '/' =
        (trimEndSlashes u.path).splitOn '/' ++ ["identity".toList, "connect".toList, "token".toList] ∧
      (requestUrl u "/api/sync".toList query).path.splitOn '/' =
        (trimEndSlashes u.path).splitOn '/' ++ ["api".toList, "sync".toList] ∧
      (requestUrl u "/connect/token".toList query).path.splitOn '/' =
        (trimEndSlashes u.path).splitOn '/' ++ ["connect".toList, "token".toList] ∧
      (requestUrl u "/sync".toList query).path.splitOn '/' =
        (trimEndSlashes u.path).splitOn '/' ++ ["sync".toList]) ∧
    (∀ raw raw' u u', BitwardenEndpoint.parse c raw = .ok ⟨u⟩ → BitwardenEndpoint.parse c raw' = .ok ⟨u'⟩ →
      SameBase u u' →
        (fetchVaultRecorded { cfg with endpoints := .fromSingleOrigin c ⟨u⟩ } up).outcome =
          (fetchVaultRecorded { cfg with endpoints := .fromSingleOrigin c ⟨u'⟩ } up).outcome) ∧
    (∀ rawIdentity rawApi rawIdentity' rawApi' endpoints endpoints' identity api identity' api',
      BitwardenEndpoints.parseSplit c rawIdentity rawApi = .ok endpoints →
      BitwardenEndpoints.parseSplit c rawIdentity' rawApi' = .ok endpoints' →
      c.parse rawIdentity = some identity → c.parse rawApi = some api →
      c.parse rawIdentity' = some identity' → c.parse rawApi' = some api' →
      SameBase identity identity' → SameBase api api' →
        (fetchVaultRecorded { cfg with endpoints } up).outcome =
          (fetchVaultRecorded { cfg with endpoints := endpoints' } up).outcome) := by
  refine ⟨fun raw u h => ?_, fun rawIdentity rawApi endpoints h => ?_, fun u query => ?_,
    fun raw raw' u u' h h' hsame => ?_,
    fun rawI rawA rawI' rawA' endpoints endpoints' i a i' a' h h' hi ha hi' ha' hsi hsa => ?_⟩
  · have hu := acceptedBase hc h
    have hreturns := @fetchVaultRecorded_returns { cfg with endpoints := .fromSingleOrigin c ⟨u⟩ } up _ _
      (tokenUrl_single hc hu) (syncUrl_single hc hu)
    rw [hreturns.outcome]
    rfl
  · obtain ⟨identity, api, hidentity, hapi, rfl⟩ := parseSplit_eq_ok h
    refine ⟨identity.baseUrl, api.baseUrl, (parseNamed_eq_ok hidentity).1, (parseNamed_eq_ok hapi).1, ?_⟩
    have htoken := @endpointUrl_normalized c hc _ (acceptedBase hc hidentity) "connect".toList ["token".toList]
      (by decide)
    have hsync := @endpointUrl_normalized c hc _ (acceptedBase hc hapi) "sync".toList [] (by decide)
    have hreturns := @fetchVaultRecorded_returns { cfg with endpoints :=
      ⟨normalizeEndpointBase c identity.baseUrl, normalizeEndpointBase c api.baseUrl⟩ } up _ _ htoken hsync
    rw [hreturns.outcome]
    rfl
  · refine ⟨?_, ?_, ?_, ?_⟩
    · exact @splitOn_append_joinSegments ["identity".toList, "connect".toList, "token".toList] (by decide) _
    · exact @splitOn_append_joinSegments ["api".toList, "sync".toList] (by decide) _
    · exact @splitOn_append_joinSegments ["connect".toList, "token".toList] (by decide) _
    · exact @splitOn_append_joinSegments ["sync".toList] (by decide) _
  · rw [fromSingleOrigin_same hc (acceptedBase hc h) (acceptedBase hc h') hsame]
  · obtain ⟨identity, api, hidentity, hapi, rfl⟩ := parseSplit_eq_ok h
    obtain ⟨identity', api', hidentity', hapi', rfl⟩ := parseSplit_eq_ok h'
    obtain rfl : i = identity.baseUrl := Option.some.inj (hi.symm.trans (parseNamed_eq_ok hidentity).1)
    obtain rfl : a = api.baseUrl := Option.some.inj (ha.symm.trans (parseNamed_eq_ok hapi).1)
    obtain rfl : i' = identity'.baseUrl := Option.some.inj (hi'.symm.trans (parseNamed_eq_ok hidentity').1)
    obtain rfl : a' = api'.baseUrl := Option.some.inj (ha'.symm.trans (parseNamed_eq_ok hapi').1)
    rw [normalizeEndpointBase_same hc (acceptedBase hc hidentity) (acceptedBase hc hidentity') hsi,
      normalizeEndpointBase_same hc (acceptedBase hc hapi) (acceptedBase hc hapi') hsa]

theorem twoUrls_documentedPaths : twoUrls.DocumentedPaths where
  slash := by decide
  letter ch h1 h2 := by
    have hlower : ch.isLower = true := Bool.and_eq_true_iff.mpr ⟨decide_eq_true h1, decide_eq_true h2⟩
    have halpha : ch.isAlpha = true := Bool.or_eq_true_iff.mpr (Or.inr hlower)
    exact Bool.or_eq_true_iff.mpr (Or.inl halpha)
  parsed raw u h _ := by
    rcases twoUrls_parse h with ⟨-, rfl⟩ | ⟨-, rfl⟩
    · exact ⟨rfl, [[]], by decide, by decide, by decide⟩
    · exact ⟨rfl, ["base".toList, [], []], by decide, by decide, by decide⟩
  setPath_normal u segments _ _ hne _ := by
    obtain ⟨s, l, rfl⟩ := List.exists_cons_of_ne_nil hne
    simp [twoUrls]
  setPath_empty u _ _ := by simp [twoUrls]

/-- A base with trailing slashes, a query and a fragment. -/
theorem upstream_requests_base :
    (fetchVaultRecorded { vectorConfig with endpoints := .fromSingleOrigin twoUrls ⟨baseUrl⟩ } vectorUpstream).outcome.2 =
      fetchRequests { vectorConfig with endpoints := .fromSingleOrigin twoUrls ⟨baseUrl⟩ } vectorUpstream
        (requestUrl baseUrl "/identity/connect/token".toList none)
        (requestUrl baseUrl "/api/sync".toList (some "excludeDomains=true".toList)) ∧
    (requestUrl baseUrl "/identity/connect/token".toList none).path = "/base/identity/connect/token".toList :=
  ⟨(upstream_requests twoUrls twoUrls_documentedPaths vectorConfig vectorUpstream).1 baseText baseUrl (by decide),
    by decide⟩

end Bweso
