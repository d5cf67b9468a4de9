import Bweso.Lib.Family
import Bweso.Proofs.Cardinality
import Bweso.Proofs.Render
import Bweso.Spec.Scrape

/-! A scrape is a list of metric families: it reads back as the samples of the
registry, each under the help and the kind of its metric, and it tells no series
twice. -/

namespace Bweso

open Exposition

/-! ### The families of a scrape -/

/-- A metric of one sample without labels. -/
def single (name help : String) (kind : Kind) (value : Str) : Family :=
  ⟨name.toList, help.toList, kind, [⟨name.toList, [], value⟩]⟩

def optionalGauge (name help : String) (value : Option ℕ) : List Family :=
  (value.map fun n => single name help .gauge (decimal n)).toList

def seriesFamilies {κ : Type} (counter counterHelp histogram histogramHelp : String) (labels : κ → List (Str × Str))
    (values : List (κ × HistogramValues)) : List Family :=
  [⟨counter.toList, counterHelp.toList, .counter,
      values.map fun v => ⟨counter.toList, labels v.1, decimal v.2.count⟩⟩,
    ⟨histogram.toList, histogramHelp.toList, .histogram,
      values.flatMap fun v => histogramSamples histogram.toList (labels v.1) v.2⟩]

def httpFamilies : List (HttpMetricKey × HistogramValues) → List Family :=
  seriesFamilies "bweso_http_requests_total"
    "HTTP requests served by the provider, labeled by method, route, and status."
    "bweso_http_request_duration_seconds" "HTTP request duration in seconds." httpLabels

def resolveFamilies : List (ResolveMetricKey × HistogramValues) → List Family :=
  seriesFamilies "bweso_resolve_requests_total"
    "Secret resolution requests, labeled only by outcome, error class, and status."
    "bweso_resolve_duration_seconds" "Secret resolution duration in seconds." resolveLabels

/-- A counter with one sample for each outcome. -/
def outcomeFamily {ω : Type} (name help : String) (label : ω → Str) (count : ω → ℕ) (outcomes : List ω) : Family :=
  ⟨name.toList, help.toList, .counter,
    outcomes.map fun outcome => ⟨name.toList, [("outcome".toList, label outcome)], decimal (count outcome)⟩⟩

def cacheFamilies (m : BitwardenCacheMetrics) : List Family :=
  [single "bweso_cache_hits_total" "Resolve requests served from a fresh Bitwarden sync cache." .counter
      (decimal m.cacheHits),
    single "bweso_cache_stale_serves_total"
      "Resolve requests served from a bounded stale cache after a transient upstream refresh failure." .counter
      (decimal m.staleServes),
    outcomeFamily "bweso_cache_refreshes_total" "Bitwarden sync cache refresh attempts by outcome." Prod.fst Prod.snd
      [("success".toList, m.refreshSuccesses), ("failure".toList, m.refreshFailures)]] ++
  optionalGauge "bweso_cache_last_success_timestamp_seconds"
    "Unix timestamp of the last successful Bitwarden sync cache refresh." m.lastSuccessUnixSeconds ++
  optionalGauge "bweso_cache_last_success_age_seconds"
    "Age in seconds of the last successful Bitwarden sync cache refresh." m.lastSuccessAgeSeconds

def reloadFamilies (texts : ReloadTexts) (m : ReloadMetrics) (now : ℕ) : List Family :=
  if m.noReloads && m.lastSuccess.isNone then []
  else
    [outcomeFamily texts.reloads texts.reloadsHelp ReloadOutcome.label m.reloads [.success, .unchanged, .failure],
      single texts.first texts.firstHelp .gauge (decimal m.active.1),
      single texts.second texts.secondHelp .gauge (decimal m.active.2)] ++
    optionalGauge texts.timestamp texts.timestampHelp (m.lastSuccess.bind (secondsSince · 0)) ++
    optionalGauge texts.age texts.ageHelp (m.lastSuccess.bind (secondsSince now ·))

namespace Scrape

def buildFamilies (s : Scrape) : List Family :=
  [⟨"bweso_build_info".toList, "Vaultwarden ESO Provider build information.".toList, .gauge,
      [⟨"bweso_build_info".toList, [("version".toList, s.version)], decimal 1⟩]⟩,
    single "bweso_process_start_time_seconds" "Unix timestamp when the process started." .gauge
      (decimal ((secondsSince s.startTime 0).getD 0)),
    single "bweso_uptime_seconds" "Seconds since the process started." .gauge s.uptime,
    single "bweso_ready" "Readiness state exposed by /readyz." .gauge (decimal (if s.ready then 1 else 0))]

def snapshotFamilies (s : Scrape) (snapshot : MetricsSnapshot) : List Family :=
  httpFamilies snapshot.httpRequests ++ resolveFamilies snapshot.resolveRequests ++
    (s.cacheMetrics.map cacheFamilies).getD [] ++
    reloadFamilies policyTexts snapshot.policy s.now ++ reloadFamilies authPolicyTexts snapshot.authPolicy s.now

def families (s : Scrape) : List Family := s.buildFamilies ++ (s.snapshot.map s.snapshotFamilies).getD []

end Scrape

/-! ### What is appended -/

theorem appendHeader_eq (output : Str) (name help : String) {kind : String} {k : Kind} (hk : kind.toList = k.text)
    (samples : List Sample) :
    appendHeader output name help kind =
      output ++ render [Family.helpLine ⟨name.toList, help.toList, k, samples⟩,
        Family.typeLine ⟨name.toList, help.toList, k, samples⟩] := by
  simp [appendHeader, appendLine, render, Line.text, Family.helpLine, Family.typeLine, ← hk]

theorem append_single (output : Str) (name help : String) {kind : String} {k : Kind} (hk : kind.toList = k.text)
    (value : Str) :
    appendValue (appendHeader output name help kind) name value =
      output ++ renderFamilies [single name help k value] := by
  rw [appendHeader_eq output name help hk [⟨name.toList, [], value⟩]]
  simp [appendValue, appendLine, single, renderFamilies, Family.lines, render, Line.text, Sample.toLine]

theorem append_optionalGauge (output : Str) (name help : String) (value : Option ℕ) :
    appendOptionalGauge output name help value = output ++ renderFamilies (optionalGauge name help value) := by
  cases value with
  | none => exact (List.append_nil output).symm
  | some n => exact append_single output name help rfl (decimal n)

/-- Samples with labels behind the header of their metric. -/
theorem append_family (output : Str) (name help : String) {kind : String} {k : Kind} (hk : kind.toList = k.text)
    {samples : List Sample} (hlabels : ∀ m ∈ samples, m.labels ≠ []) :
    samples.foldl (fun output m => appendLabeledMetric output m.name m.labels m.value)
      (appendHeader output name help kind) =
        output ++ renderFamilies [⟨name.toList, help.toList, k, samples⟩] := by
  have hlines : samples.map Sample.toLine = samples.map .sample := by
    apply List.map_congr_left
    intro m hm
    exact if_neg (hlabels m hm)
  rw [foldl_appendLabeledMetric, appendHeader_eq output name help hk samples, List.append_assoc, ← render_append]
  simp [renderFamilies, Family.lines, hlines]

theorem append_outcomeFamily {ω : Type} (output : Str) (name help : String) (label : ω → Str) (count : ω → ℕ)
    (outcomes : List ω) :
    outcomes.foldl (fun output outcome =>
      appendLabeledMetric output name.toList [("outcome".toList, label outcome)] (decimal (count outcome)))
      (appendHeader output name help "counter") =
        output ++ renderFamilies [outcomeFamily name help label count outcomes] := by
  have hkind : "counter".toList = Kind.counter.text := rfl
  have hlabels : ∀ m ∈ (outcomeFamily name help label count outcomes).samples, m.labels ≠ [] := by
    simp [outcomeFamily]
  have happend := append_family output name help hkind hlabels
  rw [outcomeFamily, List.foldl_map] at happend
  exact happend

theorem append_seriesFamilies {κ : Type} (output : Str) (counter counterHelp histogram histogramHelp : String)
    {labels : κ → List (Str × Str)} (hlabels : ∀ key, labels key ≠ []) (values : List (κ × HistogramValues)) :
    renderSeriesMetrics output counter counterHelp histogram histogramHelp labels values =
      output ++ renderFamilies (seriesFamilies counter counterHelp histogram histogramHelp labels values) := by
  have hcounter : "counter".toList = Kind.counter.text := rfl
  have hhistogram : "histogram".toList = Kind.histogram.text := rfl
  have hcounts : ∀ m ∈ values.map (fun v => Sample.mk counter.toList (labels v.1) (decimal v.2.count)),
      m.labels ≠ [] := by
    intro m hm
    obtain ⟨v, -, rfl⟩ := List.mem_map.mp hm
    exact hlabels v.1
  have hsamples : ∀ m ∈ values.flatMap (fun v => histogramSamples histogram.toList (labels v.1) v.2),
      m.labels ≠ [] := by
    intro m hm
    obtain ⟨v, -, hm⟩ := List.mem_flatMap.mp hm
    exact labels_ne_nil_of_mem_histogramSamples (hlabels v.1) hm
  have hfold : ∀ output : Str,
      values.foldl (fun output v => appendHistogram output histogram.toList (labels v.1) v.2) output =
        (values.flatMap fun v => histogramSamples histogram.toList (labels v.1) v.2).foldl
          (fun output m => appendLabeledMetric output m.name m.labels m.value) output := by
    intro output
    rw [List.foldl_flatMap]
    simp only [foldl_appendLabeledMetric, ← appendHistogram_eq]
  have hfirst := append_family output counter counterHelp hcounter hcounts
  rw [List.foldl_map] at hfirst
  unfold renderSeriesMetrics
  rw [hfold, append_family _ histogram histogramHelp hhistogram hsamples]
  change _ ++ renderFamilies _ = _
  rw [hfirst, List.append_assoc, ← renderFamilies_append]
  rfl

theorem httpLabels_ne_nil (key : HttpMetricKey) : httpLabels key ≠ [] := List.cons_ne_nil _ _

theorem resolveLabels_ne_nil (key : ResolveMetricKey) : resolveLabels key ≠ [] := List.cons_ne_nil _ _

/-- The HTTP metrics are a counter and a histogram like the resolve metrics. -/
theorem renderHttpMetrics_eq_series (output : Str) (values : List (HttpMetricKey × HistogramValues)) :
    renderHttpMetrics output values =
      renderSeriesMetrics output "bweso_http_requests_total"
        "HTTP requests served by the provider, labeled by method, route, and status."
        "bweso_http_request_duration_seconds" "HTTP request duration in seconds." httpLabels values := by
  have hhelp : "# HELP bweso_http_requests_total HTTP requests served by the provider, " ++
      "labeled by method, route, and status." =
        "# HELP " ++ "bweso_http_requests_total" ++ " " ++
          "HTTP requests served by the provider, labeled by method, route, and status." := by decide
  have htype : "# TYPE bweso_http_requests_total counter" =
      "# TYPE " ++ "bweso_http_requests_total" ++ " " ++ "counter" := by decide
  have hhelp' : "# HELP bweso_http_request_duration_seconds HTTP request duration in seconds." =
      "# HELP " ++ "bweso_http_request_duration_seconds" ++ " " ++ "HTTP request duration in seconds." := by
    decide
  have htype' : "# TYPE bweso_http_request_duration_seconds histogram" =
      "# TYPE " ++ "bweso_http_request_duration_seconds" ++ " " ++ "histogram" := by decide
  unfold renderHttpMetrics renderSeriesMetrics appendHeader
  rw [hhelp, htype, hhelp', htype']

theorem append_httpFamilies (output : Str) (values : List (HttpMetricKey × HistogramValues)) :
    renderHttpMetrics output values = output ++ renderFamilies (httpFamilies values) := by
  rw [renderHttpMetrics_eq_series]
  exact append_seriesFamilies output _ _ _ _ httpLabels_ne_nil values

theorem append_resolveFamilies (output : Str) (values : List (ResolveMetricKey × HistogramValues)) :
    renderResolveMetrics output values = output ++ renderFamilies (resolveFamilies values) :=
  append_seriesFamilies output _ _ _ _ resolveLabels_ne_nil values

theorem append_cacheFamilies (output : Str) (m : BitwardenCacheMetrics) :
    renderCacheMetrics output m = output ++ renderFamilies (cacheFamilies m) := by
  have hcounter : "counter".toList = Kind.counter.text := rfl
  have hrefreshes := fun output => append_outcomeFamily output "bweso_cache_refreshes_total"
    "Bitwarden sync cache refresh attempts by outcome." Prod.fst Prod.snd
    [("success".toList, m.refreshSuccesses), ("failure".toList, m.refreshFailures)]
  simp only [List.foldl_cons, List.foldl_nil] at hrefreshes
  unfold renderCacheMetrics cacheFamilies
  dsimp only
  rw [append_optionalGauge, append_optionalGauge, append_single _ _ _ hcounter, append_single _ _ _ hcounter,
    hrefreshes]
  simp only [List.append_assoc, ← renderFamilies_append]
  rfl

theorem append_reloadFamilies (texts : ReloadTexts) (output : Str) (m : ReloadMetrics) (now : ℕ) :
    renderReloadMetrics texts output m now = output ++ renderFamilies (reloadFamilies texts m now) := by
  have hgauge : "gauge".toList = Kind.gauge.text := rfl
  unfold renderReloadMetrics reloadFamilies
  split
  · exact (List.append_nil output).symm
  · dsimp only
    rw [append_optionalGauge, append_optionalGauge, append_single _ _ _ hgauge, append_single _ _ _ hgauge,
      append_outcomeFamily]
    simp only [List.append_assoc, ← renderFamilies_append]
    rfl

/-- A version that no label value would escape. -/
def Scrape.PlainVersion (s : Scrape) : Prop := ∀ c ∈ s.version, c ≠ '\\' ∧ c ≠ '"' ∧ c ≠ '\n'

theorem flatMap_escape_eq_self {text : Str} (h : ∀ c ∈ text, c ≠ '\\' ∧ c ≠ '"' ∧ c ≠ '\n') :
    text.flatMap escape = text := by
  induction text with
  | nil => rfl
  | cons c text ih =>
    obtain ⟨hback, hquote, hfeed⟩ := h c List.mem_cons_self
    have hc : escape c = [c] := by simp [escape]
    rw [List.flatMap_cons, hc, ih fun d hd => h d (List.mem_cons_of_mem c hd)]
    rfl

namespace Scrape

variable {s : Scrape}

/-- The line of the version is the labelled metric it looks like. -/
theorem appendLine_version (h : s.PlainVersion) (output : Str) :
    appendLine output ("bweso_build_info\x7bversion=\"".toList ++ s.version ++ "\"\x7d 1".toList) =
      appendLabeledMetric output "bweso_build_info".toList [("version".toList, s.version)] (decimal 1) := by
  have hstart : "bweso_build_info\x7bversion=\"".toList =
      "bweso_build_info".toList ++ '\x7b' :: "version".toList ++ ['=', '"'] := by decide
  have hend : "\"\x7d 1".toList = ['"', '\x7d', ' '] ++ decimal 1 := by decide
  have hmetric := appendLabeledMetric_eq output
    ⟨"bweso_build_info".toList, [("version".toList, s.version)], decimal 1⟩
  dsimp only at hmetric
  rw [hmetric, appendLine, hstart, hend, Sample.line, List.map_singleton, List.intercalate_singleton, labelText,
    flatMap_escape_eq_self h]
  simp only [List.append_assoc, List.cons_append, List.nil_append]

theorem render_eq (h : s.PlainVersion) : s.render = renderFamilies s.families := by
  have hgauge : "gauge".toList = Kind.gauge.text := rfl
  have hlabels : ∀ m ∈ [Sample.mk "bweso_build_info".toList [("version".toList, s.version)] (decimal 1)],
      m.labels ≠ [] := by simp
  have hversion := append_family [] "bweso_build_info" "Vaultwarden ESO Provider build information." hgauge hlabels
  simp only [List.foldl_cons, List.foldl_nil] at hversion
  have hbuild : appendValue (appendHeader (appendValue (appendHeader (appendValue (appendHeader
      (appendLine (appendHeader [] "bweso_build_info" "Vaultwarden ESO Provider build information." "gauge")
        ("bweso_build_info\x7bversion=\"".toList ++ s.version ++ "\"\x7d 1".toList))
      "bweso_process_start_time_seconds" "Unix timestamp when the process started." "gauge")
      "bweso_process_start_time_seconds" (decimal ((secondsSince s.startTime 0).getD 0)))
      "bweso_uptime_seconds" "Seconds since the process started." "gauge") "bweso_uptime_seconds" s.uptime)
      "bweso_ready" "Readiness state exposed by /readyz." "gauge") "bweso_ready" (decimal (if s.ready then 1 else 0)) =
        renderFamilies s.buildFamilies := by
    rw [appendLine_version h, hversion, append_single _ _ _ hgauge, append_single _ _ _ hgauge,
      append_single _ _ _ hgauge]
    simp only [List.nil_append, ← renderFamilies_append]
    rfl
  unfold Scrape.render Scrape.families
  dsimp only
  rw [hbuild]
  cases s.snapshot with
  | none => exact (congrArg renderFamilies (List.append_nil _)).symm
  | some snapshot =>
    dsimp only [Option.map_some, Option.getD_some]
    rw [renderAuthPolicyMetrics, append_reloadFamilies, renderPolicyMetrics, append_reloadFamilies,
      append_httpFamilies, append_resolveFamilies]
    cases hcache : s.cacheMetrics with
    | none =>
      simp only [snapshotFamilies, hcache, renderFamilies_append, List.append_assoc, Option.map_none,
        Option.getD_none, List.append_nil]
    | some m =>
      simp only [snapshotFamilies, hcache, append_cacheFamilies, renderFamilies_append, List.append_assoc,
        Option.map_some, Option.getD_some]

end Scrape

/-! ### The headers -/

/-- A scrape that leaves no metric out. -/
def fullScrape : Scrape :=
  let reload : ReloadMetrics := ⟨fun _ => 0, (0, 0), some 0⟩
  ⟨[], 0, [], 0, false, some ⟨[], [], reload, reload⟩, some ⟨0, 0, 0, 0, some 0, some 0⟩⟩

theorem headers_optionalGauge (name help : String) (value : Option ℕ) (n : ℕ) :
    ((optionalGauge name help value).map Family.header).Sublist
      ((optionalGauge name help (some n)).map Family.header) := by
  cases value with
  | none => exact List.nil_sublist _
  | some n' => exact List.Sublist.refl _

theorem headers_cacheFamilies (m : BitwardenCacheMetrics) :
    ((cacheFamilies m).map Family.header).Sublist
      ((cacheFamilies ⟨0, 0, 0, 0, some 0, some 0⟩).map Family.header) := by
  unfold cacheFamilies
  simp only [List.map_append]
  exact ((List.Sublist.refl _).append (headers_optionalGauge _ _ _ 0)).append (headers_optionalGauge _ _ _ 0)

theorem headers_reloadFamilies (texts : ReloadTexts) (m : ReloadMetrics) (now : ℕ) :
    ((reloadFamilies texts m now).map Family.header).Sublist
      ((reloadFamilies texts ⟨fun _ => 0, (0, 0), some 0⟩ 0).map Family.header) := by
  unfold reloadFamilies
  split
  · exact List.nil_sublist _
  · have hfull : (ReloadMetrics.noReloads ⟨fun _ => 0, (0, 0), some 0⟩ && (some 0 : Option ℕ).isNone) = false := rfl
    rw [hfull, if_neg Bool.false_ne_true]
    simp only [List.map_append]
    exact ((List.Sublist.refl _).append (headers_optionalGauge _ _ _ 0)).append (headers_optionalGauge _ _ _ 0)

theorem headers_families (s : Scrape) :
    (s.families.map Family.header).Sublist (fullScrape.families.map Family.header) := by
  unfold Scrape.families
  rw [List.map_append, List.map_append]
  apply List.Sublist.append (List.Sublist.refl _)
  cases s.snapshot with
  | none => exact List.nil_sublist _
  | some snapshot =>
    change ((s.snapshotFamilies snapshot).map Family.header).Sublist _
    unfold Scrape.snapshotFamilies
    simp only [List.map_append]
    have hcache : (((s.cacheMetrics.map cacheFamilies).getD []).map Family.header).Sublist
        ((cacheFamilies ⟨0, 0, 0, 0, some 0, some 0⟩).map Family.header) := by
      cases s.cacheMetrics with
      | none => exact List.nil_sublist _
      | some m => exact headers_cacheFamilies m
    exact (((List.Sublist.refl _).append hcache).append (headers_reloadFamilies policyTexts _ s.now)).append
      (headers_reloadFamilies authPolicyTexts _ s.now)

theorem fullScrape_headers :
    (∀ h ∈ fullScrape.families.map Family.header, IsIdent h.1 ∧ '\n' ∉ h.2.1) ∧
    (fullScrape.families.flatMap fun f => sampleNames f.name f.kind).Nodup := by
  simp only [fullScrape, Scrape.families, Scrape.buildFamilies, Scrape.snapshotFamilies, httpFamilies, resolveFamilies,
    seriesFamilies, cacheFamilies, reloadFamilies, policyTexts, authPolicyTexts, outcomeFamily, optionalGauge, single,
    secondsSince, Family.header, sampleNames, le_refl, if_true, if_false, Bool.and_false, Bool.false_eq_true,
    Option.bind_some, Option.map_some, Option.getD_some, Option.toList_some, Option.isNone_some, List.cons_append,
    List.nil_append, List.map_cons, List.map_nil, List.flatMap_cons, List.flatMap_nil, List.forall_mem_cons,
    List.not_mem_nil, false_imp_iff, implies_true, and_true]
  -- a literal is `String.ofList` of its characters: the rewriting spares decoding it
  refine ⟨?_, ?_⟩
  · and_intros
    all_goals
      rw [String.toList_ofList]
      decide
  · repeat rw [String.toList_ofList]
    decide +kernel

/-! ### The samples -/

/-- The samples of a family are right, if its name is. -/
def Sampled (f : Family) : Prop :=
  IsIdent f.name → (∀ m ∈ f.samples, m.Valid ∧ m.name ∈ sampleNames f.name f.kind) ∧
    (f.samples.map Sample.series).Nodup

theorem sampleNames_of_ne {k : Kind} (hk : k ≠ .histogram) (name : Str) : sampleNames name k = [name] := by
  cases k with
  | counter => rfl
  | gauge => rfl
  | histogram => exact absurd rfl hk

theorem single_sampled (name help : String) {k : Kind} (hk : k ≠ .histogram) {value : Str}
    (hvalue : isNumber value = true) : Sampled (single name help k value) := by
  intro hname
  refine ⟨fun m hm => ?_, List.nodup_singleton _⟩
  obtain rfl := List.mem_singleton.mp hm
  have hnames : sampleNames name.toList k = [name.toList] := sampleNames_of_ne hk _
  refine ⟨⟨hname, by simp, hvalue⟩, ?_⟩
  change name.toList ∈ sampleNames name.toList k
  rw [hnames]
  exact List.mem_singleton_self _

theorem optionalGauge_sampled (name help : String) (value : Option ℕ) :
    ∀ f ∈ optionalGauge name help value, Sampled f := by
  intro f hf
  obtain ⟨n, -, rfl⟩ := Option.mem_map.mp (Option.mem_toList.mp hf)
  exact single_sampled name help (by decide) (isNumber_decimal n)

theorem outcomeFamily_sampled {ω : Type} (name help : String) {label : ω → Str} (count : ω → ℕ) {outcomes : List ω}
    (h : (outcomes.map label).Nodup) : Sampled (outcomeFamily name help label count outcomes) := by
  have hident : IsIdent "outcome".toList := by decide
  intro hname
  refine ⟨fun m hm => ?_, ?_⟩
  · obtain ⟨outcome, -, rfl⟩ := List.mem_map.mp hm
    refine ⟨⟨hname, fun l hl => ?_, isNumber_decimal _⟩, List.mem_singleton_self _⟩
    rw [List.mem_singleton.mp hl]
    exact hident
  · have hseries : (outcomeFamily name help label count outcomes).samples.map Sample.series =
        (outcomes.map label).map fun value => (name.toList, [("outcome".toList, value)]) := by
      simp [outcomeFamily, Sample.series, Function.comp_def]
    rw [hseries]
    refine h.map fun value value' heq => ?_
    simpa using heq

/-- A map of a registry, as it is written: its keys in some order, each once, and
its sums as numbers. -/
structure SeriesMap {κ : Type} (values : List (κ × HistogramValues)) : Prop where
  keys : (values.map Prod.fst).Nodup
  sums : ∀ v ∈ values, isNumber v.2.sumSeconds = true

theorem seriesFamilies_sampled {κ : Type} (counter counterHelp histogram histogramHelp : String)
    {labels : κ → List (Str × Str)} (hlabels : ∀ key, ∀ l ∈ labels key, IsIdent l.1 ∧ l.1 ≠ "le".toList)
    (hinj : Function.Injective labels) {values : List (κ × HistogramValues)} (hvalues : SeriesMap values) :
    ∀ f ∈ seriesFamilies counter counterHelp histogram histogramHelp labels values, Sampled f := by
  intro f hf hname
  simp only [seriesFamilies, List.mem_cons, List.not_mem_nil, or_false] at hf
  rcases hf with rfl | rfl
  · refine ⟨fun m hm => ?_, ?_⟩
    · obtain ⟨v, -, rfl⟩ := List.mem_map.mp hm
      exact ⟨⟨hname, fun l hl => (hlabels v.1 l hl).1, isNumber_decimal _⟩, List.mem_singleton_self _⟩
    · have hseries : (values.map fun v => Sample.mk counter.toList (labels v.1) (decimal v.2.count)).map
          Sample.series = (values.map Prod.fst).map fun key => (counter.toList, labels key) := by
        simp [Sample.series, Function.comp_def]
      rw [hseries]
      exact hvalues.keys.map fun key key' heq => hinj (congrArg Prod.snd heq)
  · refine ⟨fun m hm => ?_, ?_⟩
    · obtain ⟨v, hv, hm⟩ := List.mem_flatMap.mp hm
      exact ⟨histogramSamples_valid hname (fun l hl => (hlabels v.1 l hl).1) (hvalues.sums v hv) m hm,
        name_mem_of_mem_histogramSamples hm⟩
    · rw [List.map_flatMap, List.nodup_flatMap]
      refine ⟨fun v _ => series_histogramSamples_nodup _ _ _, ?_⟩
      refine (List.pairwise_map.mp hvalues.keys).imp fun {v w} hne => ?_
      -- a series shared by two keys has the labels of both
      intro s hs hs'
      obtain ⟨m, hm, rfl⟩ := List.mem_map.mp hs
      obtain ⟨m', hm', heq⟩ := List.mem_map.mp hs'
      have hown := filter_labels_of_mem_histogramSamples (fun l hl => (hlabels v.1 l hl).2) hm
      have hown' := filter_labels_of_mem_histogramSamples (fun l hl => (hlabels w.1 l hl).2) hm'
      have hsame : m'.labels = m.labels := congrArg Prod.snd heq
      rw [hsame, hown] at hown'
      exact hne (hinj hown')

/-! ### Labels -/

theorem decimal_injective : Function.Injective decimal := fun _ _ h => Text.toDigits_injective h

theorem httpLabels_injective : Function.Injective httpLabels := by
  rintro ⟨method, route, status⟩ ⟨method', route', status'⟩ h
  simp only [httpLabels, List.cons.injEq, Prod.mk.injEq, true_and, and_true] at h
  obtain ⟨rfl, rfl, hstatus⟩ := h
  rw [decimal_injective hstatus]

theorem outcome_label_injective : Function.Injective Outcome.label := by
  intro outcome outcome' h
  cases outcome <;> cases outcome' <;> first | rfl | exact absurd h (by decide)

theorem errorKind_label_injective : Function.Injective ErrorKind.label := by
  have hlabels : (errorKinds.map ErrorKind.label).Nodup := by decide
  intro kind kind' h
  exact List.inj_on_of_nodup_map hlabels (mem_errorKinds kind) (mem_errorKinds kind') h

theorem resolveLabels_injective : Function.Injective resolveLabels := by
  rintro ⟨outcome, kind, status⟩ ⟨outcome', kind', status'⟩ h
  simp only [resolveLabels, List.cons.injEq, Prod.mk.injEq, true_and, and_true] at h
  obtain ⟨houtcome, hkind, hstatus⟩ := h
  rw [outcome_label_injective houtcome, errorKind_label_injective hkind, decimal_injective hstatus]

theorem httpLabels_idents (key : HttpMetricKey) : ∀ l ∈ httpLabels key, IsIdent l.1 ∧ l.1 ≠ "le".toList := by
  have hnames : ∀ name ∈ ["method".toList, "route".toList, "status".toList],
      IsIdent name ∧ name ≠ "le".toList := by decide
  intro l hl
  exact hnames l.1 (List.mem_map_of_mem hl)

theorem resolveLabels_idents (key : ResolveMetricKey) :
    ∀ l ∈ resolveLabels key, IsIdent l.1 ∧ l.1 ≠ "le".toList := by
  have hnames : ∀ name ∈ ["outcome".toList, "error_kind".toList, "status".toList],
      IsIdent name ∧ name ≠ "le".toList := by decide
  intro l hl
  exact hnames l.1 (List.mem_map_of_mem hl)

/-! ### The scrape -/

theorem cacheFamilies_sampled (m : BitwardenCacheMetrics) : ∀ f ∈ cacheFamilies m, Sampled f := by
  have houtcomes : (["success".toList, "failure".toList] : List Str).Nodup := by decide
  intro f hf
  simp only [cacheFamilies, List.mem_append, List.mem_cons, List.not_mem_nil, or_false] at hf
  rcases hf with ((rfl | rfl | rfl) | hf) | hf
  · exact single_sampled _ _ (by decide) (isNumber_decimal _)
  · exact single_sampled _ _ (by decide) (isNumber_decimal _)
  · exact outcomeFamily_sampled _ _ _ houtcomes
  · exact optionalGauge_sampled _ _ _ f hf
  · exact optionalGauge_sampled _ _ _ f hf

theorem reloadFamilies_sampled (texts : ReloadTexts) (m : ReloadMetrics) (now : ℕ) :
    ∀ f ∈ reloadFamilies texts m now, Sampled f := by
  have houtcomes : ([ReloadOutcome.success, .unchanged, .failure].map ReloadOutcome.label).Nodup := by decide
  intro f hf
  unfold reloadFamilies at hf
  split at hf
  · exact absurd hf List.not_mem_nil
  · simp only [List.mem_append, List.mem_cons, List.not_mem_nil, or_false] at hf
    rcases hf with ((rfl | rfl | rfl) | hf) | hf
    · exact outcomeFamily_sampled _ _ _ houtcomes
    · exact single_sampled _ _ (by decide) (isNumber_decimal _)
    · exact single_sampled _ _ (by decide) (isNumber_decimal _)
    · exact optionalGauge_sampled _ _ _ f hf
    · exact optionalGauge_sampled _ _ _ f hf

namespace Scrape

/-- What a scrape finds, and what the formats of the standard library give. -/
structure WellFormed (s : Scrape) : Prop where
  version : s.PlainVersion
  uptime : isNumber s.uptime = true
  http : ∀ snapshot, s.snapshot = some snapshot → SeriesMap snapshot.httpRequests
  resolve : ∀ snapshot, s.snapshot = some snapshot → SeriesMap snapshot.resolveRequests

variable {s : Scrape}

theorem buildFamilies_sampled (h : s.WellFormed) : ∀ f ∈ s.buildFamilies, Sampled f := by
  have hversion : IsIdent "version".toList := by decide
  intro f hf
  simp only [buildFamilies, List.mem_cons, List.not_mem_nil, or_false] at hf
  rcases hf with rfl | rfl | rfl | rfl
  · intro hname
    refine ⟨fun m hm => ?_, List.nodup_singleton _⟩
    obtain rfl := List.mem_singleton.mp hm
    refine ⟨⟨hname, fun l hl => ?_, isNumber_decimal 1⟩, List.mem_singleton_self _⟩
    rw [List.mem_singleton.mp hl]
    exact hversion
  · exact single_sampled _ _ (by decide) (isNumber_decimal _)
  · exact single_sampled _ _ (by decide) h.uptime
  · exact single_sampled _ _ (by decide) (isNumber_decimal _)

theorem families_sampled (h : s.WellFormed) : ∀ f ∈ s.families, Sampled f := by
  intro f hf
  rcases List.mem_append.mp hf with hf | hf
  · exact buildFamilies_sampled h f hf
  · cases hsnapshot : s.snapshot with
    | none =>
      rw [hsnapshot] at hf
      exact absurd hf List.not_mem_nil
    | some snapshot =>
      rw [hsnapshot] at hf
      change f ∈ s.snapshotFamilies snapshot at hf
      simp only [snapshotFamilies, List.mem_append] at hf
      rcases hf with (((hf | hf) | hf) | hf) | hf
      · exact seriesFamilies_sampled _ _ _ _ httpLabels_idents httpLabels_injective (h.http snapshot hsnapshot) f hf
      · exact seriesFamilies_sampled _ _ _ _ resolveLabels_idents resolveLabels_injective
          (h.resolve snapshot hsnapshot) f hf
      · cases hcache : s.cacheMetrics with
        | none =>
          rw [hcache] at hf
          exact absurd hf List.not_mem_nil
        | some m =>
          rw [hcache] at hf
          exact cacheFamilies_sampled m f hf
      · exact reloadFamilies_sampled policyTexts _ _ f hf
      · exact reloadFamilies_sampled authPolicyTexts _ _ f hf

theorem families_wellFormed (h : s.WellFormed) : ∀ f ∈ s.families, f.WellFormed := by
  intro f hf
  have hheader := (headers_families s).subset (List.mem_map_of_mem hf)
  obtain ⟨hname, hhelp⟩ : IsIdent f.name ∧ '\n' ∉ f.help := fullScrape_headers.1 _ hheader
  obtain ⟨hsamples, hdistinct⟩ := families_sampled h f hf hname
  exact ⟨hname, hhelp, fun m hm => (hsamples m hm).1, fun m hm => (hsamples m hm).2, hdistinct⟩

theorem families_distinct (s : Scrape) : (s.families.flatMap fun f => sampleNames f.name f.kind).Nodup :=
  (sampleNames_sublist (headers_families s)).nodup fullScrape_headers.2

end Scrape

/-- A scrape is the text of its families: each metric behind its own help and
kind, no series told twice, and a reader of the format finds exactly the samples
of the registry, whatever methods and routes are recorded in it. -/
theorem scrape_reads_back (s : Scrape) (h : s.WellFormed) :
    s.render = renderFamilies s.families ∧ (∀ f ∈ s.families, f.WellFormed) ∧
    (s.families.flatMap fun f => sampleNames f.name f.kind).Nodup ∧
    ((s.families.flatMap Family.samples).map Sample.series).Nodup ∧
    parseText s.render = some (s.families.flatMap Family.samples) := by
  have hrender := Scrape.render_eq h.version
  have hfamilies := Scrape.families_wellFormed h
  have hdistinct := Scrape.families_distinct s
  refine ⟨hrender, hfamilies, hdistinct, series_nodup hfamilies hdistinct, ?_⟩
  rw [hrender, parseText_renderFamilies hfamilies]

/-- A ready provider after two requests, one by a method that tries to end its line. -/
def sampleScrape : Scrape where
  version := "1.0.0".toList
  startTime := 1700000000000000000
  uptime := "12.500000".toList
  now := 1700000012500000000
  ready := true
  snapshot := some
    { httpRequests :=
        [(⟨"GET".toList, "/livez".toList, 204⟩, ⟨1, "0.001000".toList, [1, 1, 1, 1, 1, 1, 1, 1, 1, 1, 1]⟩),
          (⟨"A\"\x7d 1\n".toList, "unmatched".toList, 404⟩, ⟨1, "0.030000".toList, [0, 0, 0, 1, 1, 1, 1, 1, 1, 1, 1]⟩)]
      resolveRequests := []
      policy := ⟨fun _ => 0, (2, 1), some 1700000000000000000⟩
      authPolicy := .init }
  cacheMetrics := none

theorem scrape_reads_back_sample :
    parseText sampleScrape.render = some (sampleScrape.families.flatMap Family.samples) := by
  have hversion : sampleScrape.version.all (fun c => c != '\\' && c != '"' && c != '\n') = true := by decide
  have hwell : sampleScrape.WellFormed := by
    refine ⟨fun c hc => ?_, by decide, fun snapshot hs => ?_, fun snapshot hs => ?_⟩
    · simpa [and_assoc] using List.all_eq_true.mp hversion c hc
    · obtain rfl := Option.some.inj hs
      exact ⟨by decide, by decide⟩
    · obtain rfl := Option.some.inj hs
      exact ⟨List.nodup_nil, by simp⟩
  exact (scrape_reads_back sampleScrape hwell).2.2.2.2

end Bweso
