import Bweso.Spec.Cache
import Bweso.Spec.Policy
import Bweso.Spec.Render

/-! The whole text behind `/metrics`. Times are nanoseconds since the epoch. -/

namespace Bweso

/-! ### Labels -/

def Outcome.label : Outcome → Str
  | .success => "success".toList
  | .error => "error".toList

def ErrorKind.label : ErrorKind → Str
  | .none => "none".toList
  | .auth => "auth".toList
  | .validation => "validation".toList
  | .unsupportedVersion => "unsupported_version".toList
  | .policyDenied => "policy_denied".toList
  | .itemNotFound => "item_not_found".toList
  | .propertyNotFound => "property_not_found".toList
  | .ambiguousDocument => "ambiguous_document".toList
  | .ambiguousSelector => "ambiguous_selector".toList
  | .unsupportedAttachment => "unsupported_attachment".toList
  | .unsupportedSharedItem => "unsupported_shared_item".toList
  | .upstreamHttp => "upstream_http".toList
  | .upstreamStatus => "upstream_status".toList
  | .upstreamBackoff => "upstream_backoff".toList
  | .upstreamPayload => "upstream_payload".toList
  | .crypto => "crypto".toList
  | .keyDerivation => "key_derivation".toList
  | .kdfParameters => "kdf_parameters".toList
  | .syncPayload => "sync_payload".toList
  | .endpoint => "endpoint".toList
  | .overloaded => "overloaded".toList
  | .requestTimeout => "request_timeout".toList

def ReloadOutcome.label : ReloadOutcome → Str
  | .success => "success".toList
  | .unchanged => "unchanged".toList
  | .failure => "failure".toList

def resolveLabels (key : ResolveMetricKey) : List (Str × Str) :=
  [("outcome".toList, key.outcome.label), ("error_kind".toList, key.errorKind.label),
    ("status".toList, decimal key.status)]

/-! ### Families -/

/-- The `# HELP` and the `# TYPE` line of a metric. -/
def appendHeader (output : Str) (name help kind : String) : Str :=
  appendLine (appendLine output ("# HELP " ++ name ++ " " ++ help).toList) ("# TYPE " ++ name ++ " " ++ kind).toList

/-- A line without labels. -/
def appendValue (output : Str) (name : String) (value : Str) : Str := appendLine output (name.toList ++ ' ' :: value)

/-- A counter and a histogram over the same keys, as `render_http_metrics` and
`render_resolve_metrics` write them. -/
def renderSeriesMetrics {κ : Type} (output : Str) (counter counterHelp histogram histogramHelp : String)
    (labels : κ → List (Str × Str)) (values : List (κ × HistogramValues)) : Str :=
  let output := appendHeader output counter counterHelp "counter"
  let output := values.foldl (fun output (key, values) =>
    appendLabeledMetric output counter.toList (labels key) (decimal values.count)) output
  let output := appendHeader output histogram histogramHelp "histogram"
  values.foldl (fun output (key, values) => appendHistogram output histogram.toList (labels key) values) output

def renderResolveMetrics (output : Str) (values : List (ResolveMetricKey × HistogramValues)) : Str :=
  renderSeriesMetrics output "bweso_resolve_requests_total"
    "Secret resolution requests, labeled only by outcome, error class, and status."
    "bweso_resolve_duration_seconds" "Secret resolution duration in seconds." resolveLabels values

structure BitwardenCacheMetrics where
  cacheHits : ℕ
  refreshSuccesses : ℕ
  refreshFailures : ℕ
  staleServes : ℕ
  lastSuccessUnixSeconds : Option ℕ
  lastSuccessAgeSeconds : Option ℕ

/-- A timestamp of zero is none. -/
def CacheMetricState.snapshot (m : CacheMetricState) (unixNowSeconds : ℕ) : BitwardenCacheMetrics :=
  let lastSuccess := if 0 < m.lastSuccessUnixSeconds then some m.lastSuccessUnixSeconds else none
  { cacheHits := m.cacheHits
    refreshSuccesses := m.refreshSuccesses
    refreshFailures := m.refreshFailures
    staleServes := m.staleServes
    lastSuccessUnixSeconds := lastSuccess
    lastSuccessAgeSeconds := lastSuccess.map (unixNowSeconds - ·) }

/-- A gauge that may be missing. -/
def appendOptionalGauge (output : Str) (name help : String) : Option ℕ → Str
  | some n => appendValue (appendHeader output name help "gauge") name (decimal n)
  | none => output

def renderCacheMetrics (output : Str) (m : BitwardenCacheMetrics) : Str :=
  let output := appendHeader output "bweso_cache_hits_total"
    "Resolve requests served from a fresh Bitwarden sync cache." "counter"
  let output := appendValue output "bweso_cache_hits_total" (decimal m.cacheHits)
  let output := appendHeader output "bweso_cache_stale_serves_total"
    "Resolve requests served from a bounded stale cache after a transient upstream refresh failure." "counter"
  let output := appendValue output "bweso_cache_stale_serves_total" (decimal m.staleServes)
  let output := appendHeader output "bweso_cache_refreshes_total"
    "Bitwarden sync cache refresh attempts by outcome." "counter"
  let output := appendLabeledMetric output "bweso_cache_refreshes_total".toList
    [("outcome".toList, "success".toList)] (decimal m.refreshSuccesses)
  let output := appendLabeledMetric output "bweso_cache_refreshes_total".toList
    [("outcome".toList, "failure".toList)] (decimal m.refreshFailures)
  let output := appendOptionalGauge output "bweso_cache_last_success_timestamp_seconds"
    "Unix timestamp of the last successful Bitwarden sync cache refresh." m.lastSuccessUnixSeconds
  appendOptionalGauge output "bweso_cache_last_success_age_seconds"
    "Age in seconds of the last successful Bitwarden sync cache refresh." m.lastSuccessAgeSeconds

/-- The names and helps of the reload metrics of a policy. -/
structure ReloadTexts where
  reloads : String
  reloadsHelp : String
  first : String
  firstHelp : String
  second : String
  secondHelp : String
  timestamp : String
  timestampHelp : String
  age : String
  ageHelp : String

def policyTexts : ReloadTexts where
  reloads := "bweso_policy_reloads_total"
  reloadsHelp := "Selector-policy reload cycles by outcome (success, unchanged, failure)."
  first := "bweso_policy_active_allowed_keys"
  firstHelp := "Exact selector keys in the currently-served allow-list."
  second := "bweso_policy_active_allowed_key_prefixes"
  secondHelp := "Selector key prefixes in the currently-served allow-list."
  timestamp := "bweso_policy_last_reload_success_timestamp_seconds"
  timestampHelp := "Unix timestamp of the last successful selector-policy evaluation."
  age := "bweso_policy_last_reload_success_age_seconds"
  ageHelp := "Age in seconds of the last successful selector-policy evaluation."

def authPolicyTexts : ReloadTexts where
  reloads := "bweso_auth_policy_reloads_total"
  reloadsHelp := "Token-scoped auth-policy reload cycles by outcome (success, unchanged, failure)."
  first := "bweso_auth_policy_active_capabilities"
  firstHelp := "Capabilities in the currently-served token-scoped auth policy."
  second := "bweso_auth_policy_active_tokens"
  secondHelp := "Bearer-token digests in the currently-served token-scoped auth policy."
  timestamp := "bweso_auth_policy_last_reload_success_timestamp_seconds"
  timestampHelp := "Unix timestamp of the last successful token-scoped auth-policy evaluation."
  age := "bweso_auth_policy_last_reload_success_age_seconds"
  ageHelp := "Age in seconds of the last successful token-scoped auth-policy evaluation."

def nanosPerSecond : ℕ := 1000000000

/-- `a.duration_since(b)` in whole seconds; an error where `a` is earlier. -/
def secondsSince (a b : ℕ) : Option ℕ := if b ≤ a then some ((a - b) / nanosPerSecond) else none

/-- No reload cycle was recorded. -/
def ReloadMetrics.noReloads (m : ReloadMetrics) : Bool :=
  [ReloadOutcome.success, .unchanged, .failure].all fun outcome => m.reloads outcome = 0

/-- Nothing is written until a baseline or a reload cycle was recorded. -/
def renderReloadMetrics (texts : ReloadTexts) (output : Str) (m : ReloadMetrics) (now : ℕ) : Str :=
  if m.noReloads && m.lastSuccess.isNone then output
  else
    let output := appendHeader output texts.reloads texts.reloadsHelp "counter"
    let output := [ReloadOutcome.success, .unchanged, .failure].foldl (fun output outcome =>
      appendLabeledMetric output texts.reloads.toList [("outcome".toList, outcome.label)]
        (decimal (m.reloads outcome))) output
    let output := appendHeader output texts.first texts.firstHelp "gauge"
    let output := appendValue output texts.first (decimal m.active.1)
    let output := appendHeader output texts.second texts.secondHelp "gauge"
    let output := appendValue output texts.second (decimal m.active.2)
    let output := appendOptionalGauge output texts.timestamp texts.timestampHelp
      (m.lastSuccess.bind (secondsSince · 0))
    appendOptionalGauge output texts.age texts.ageHelp (m.lastSuccess.bind (secondsSince now ·))

def renderPolicyMetrics : Str → ReloadMetrics → ℕ → Str := renderReloadMetrics policyTexts

def renderAuthPolicyMetrics : Str → ReloadMetrics → ℕ → Str := renderReloadMetrics authPolicyTexts

/-! ### The scrape -/

/-- The registry, its maps in order. -/
structure MetricsSnapshot where
  httpRequests : List (HttpMetricKey × HistogramValues)
  resolveRequests : List (ResolveMetricKey × HistogramValues)
  policy : ReloadMetrics
  authPolicy : ReloadMetrics

/-- What `render` finds: the version it was built as, the start of the process, the
seconds since in the format `{:.6}`, the registry if its lock is not poisoned. -/
structure Scrape where
  version : Str
  startTime : ℕ
  uptime : Str
  now : ℕ
  ready : Bool
  snapshot : Option MetricsSnapshot
  cacheMetrics : Option BitwardenCacheMetrics

def Scrape.render (s : Scrape) : Str :=
  let output := appendHeader [] "bweso_build_info" "Vaultwarden ESO Provider build information." "gauge"
  let output := appendLine output ("bweso_build_info\x7bversion=\"".toList ++ s.version ++ "\"\x7d 1".toList)
  let output := appendHeader output "bweso_process_start_time_seconds"
    "Unix timestamp when the process started." "gauge"
  let output := appendValue output "bweso_process_start_time_seconds" (decimal ((secondsSince s.startTime 0).getD 0))
  let output := appendHeader output "bweso_uptime_seconds" "Seconds since the process started." "gauge"
  let output := appendValue output "bweso_uptime_seconds" s.uptime
  let output := appendHeader output "bweso_ready" "Readiness state exposed by /readyz." "gauge"
  let output := appendValue output "bweso_ready" (decimal (if s.ready then 1 else 0))
  match s.snapshot with
  | none => output
  | some snapshot =>
    let output := renderHttpMetrics output snapshot.httpRequests
    let output := renderResolveMetrics output snapshot.resolveRequests
    let output :=
      match s.cacheMetrics with
      | some m => renderCacheMetrics output m
      | none => output
    let output := renderPolicyMetrics output snapshot.policy s.now
    renderAuthPolicyMetrics output snapshot.authPolicy s.now

end Bweso
