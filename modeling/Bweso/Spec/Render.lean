import Bweso.Spec.Metrics

/-! How `metrics.rs` writes its registry out. Each function appends to the text
written so far. -/

namespace Bweso

def appendEscapedLabelValue (output value : Str) : Str :=
  value.foldl (fun output character =>
    match character with
    | '\\' => output ++ "\\\\".toList
    | '"' => output ++ "\\\"".toList
    | '\n' => output ++ "\\n".toList
    | _ => output ++ [character]) output

/-- The loop over the labels; a comma before every label but the first. -/
def appendLabels (output : Str) (index : ℕ) : List (Str × Str) → Str
  | [] => output
  | (label, labelValue) :: rest =>
    let output := if 0 < index then output ++ [','] else output
    let output := output ++ label ++ "=\"".toList
    let output := appendEscapedLabelValue output labelValue ++ ['"']
    appendLabels output (index + 1) rest

def appendLabeledMetric (output name : Str) (labels : List (Str × Str)) (value : Str) : Str :=
  appendLabels (output ++ name ++ ['\x7b']) 0 labels ++ "\x7d ".toList ++ value ++ ['\n']

def labelWithExtra (labels : List (Str × Str)) (extra : Str × Str) : List (Str × Str) := labels ++ [extra]

/-- The bounds of `HISTOGRAM_BUCKETS` in the format `{:.3}`. -/
def histogramBuckets : List Str :=
  ["0.005".toList, "0.010".toList, "0.025".toList, "0.050".toList, "0.100".toList, "0.250".toList,
    "0.500".toList, "1.000".toList, "2.500".toList, "5.000".toList, "10.000".toList]

structure HistogramValues where
  count : ℕ
  /-- the sum in the format `{:.6}` -/
  sumSeconds : Str
  buckets : List ℕ

/-- `u64::to_string` -/
def decimal (n : ℕ) : Str := Nat.toDigits 10 n

def appendHistogram (output name : Str) (labels : List (Str × Str)) (histogram : HistogramValues) : Str :=
  let bucketName := name ++ "_bucket".toList
  let output := (histogramBuckets.zip histogram.buckets).foldl (fun output (le, count) =>
    appendLabeledMetric output bucketName (labelWithExtra labels ("le".toList, le)) (decimal count)) output
  let count := decimal histogram.count
  let output := appendLabeledMetric output bucketName (labelWithExtra labels ("le".toList, "+Inf".toList)) count
  let output := appendLabeledMetric output (name ++ "_sum".toList) labels histogram.sumSeconds
  appendLabeledMetric output (name ++ "_count".toList) labels count

def appendLine (output line : Str) : Str := output ++ line ++ ['\n']

def httpLabels (key : HttpMetricKey) : List (Str × Str) :=
  [("method".toList, key.method), ("route".toList, key.route), ("status".toList, decimal key.status)]

/-- `values` in the order of the map. -/
def renderHttpMetrics (output : Str) (values : List (HttpMetricKey × HistogramValues)) : Str :=
  let output := appendLine output ("# HELP bweso_http_requests_total HTTP requests served by the provider, " ++
    "labeled by method, route, and status.").toList
  let output := appendLine output "# TYPE bweso_http_requests_total counter".toList
  let output := values.foldl (fun output (key, histogram) =>
    appendLabeledMetric output "bweso_http_requests_total".toList (httpLabels key) (decimal histogram.count)) output
  let output := appendLine output
    "# HELP bweso_http_request_duration_seconds HTTP request duration in seconds.".toList
  let output := appendLine output "# TYPE bweso_http_request_duration_seconds histogram".toList
  values.foldl (fun output (key, histogram) =>
    appendHistogram output "bweso_http_request_duration_seconds".toList (httpLabels key) histogram) output

end Bweso
