import Bweso.Spec.Handler

/-! The router of `main.rs` and the registry of `metrics.rs`: how a request is
dispatched, and the label sets it leaves behind. Of a histogram only its count
is kept; the sum and the buckets beside it have a fixed size. -/

namespace Bweso

/-- A character of a method token. -/
def isMethodChar (c : Char) : Bool := c.isAlphanum || "!#$%&'*+-.^_`|~".toList.contains c

/-- `http::Method`: any token, standard or not. -/
structure Method where
  token : Str
  ne_nil : token ≠ []
  chars : token.all isMethodChar = true

inductive Route
  | livez
  | readyz
  | metrics
  | resolve
  deriving DecidableEq

/-- The path a route was registered under, as `MatchedPath` reports it. -/
def Route.path : Route → Str
  | .livez => "/livez".toList
  | .readyz => "/readyz".toList
  | .metrics => "/metrics".toList
  | .resolve => "/v1/resolve".toList

def Route.ofPath (path : Str) : Option Route :=
  [Route.livez, .readyz, .metrics, .resolve].find? fun r => r.path = path

/-- A request as the router meets it: its method and path, the state of the
provider it finds, and what the provider would return. -/
structure RouterRequest where
  method : Method
  path : Str
  ready : Bool
  encounter : Encounter
  provider : BitwardenSelector → Except BitwardenClientError SecretDocument

/-- `get(..)` serves `HEAD` too. -/
def Method.isGet (m : Method) : Bool := m.token = "GET".toList || m.token = "HEAD".toList

/-- The status of the response, and the series the `resolve` handler recorded if
it ran. Without a route the fallback answers 404; a route without the method, 405. -/
def dispatch (deps : HandlerDeps) (q : RouterRequest) : ℕ × Option ResolveMetricKey :=
  match Route.ofPath q.path with
  | none => (404, none)
  | some .livez => (if q.method.isGet then 204 else 405, none)
  | some .readyz => (if q.method.isGet then (if q.ready then 204 else 503) else 405, none)
  | some .metrics => (if q.method.isGet then 200 else 405, none)
  | some .resolve =>
    if q.method.token = "POST".toList then
      let exit := (resolve deps q.encounter (fun state selector => (q.provider selector, state)) ()).1
      (exit.response.status, some exit.recorded)
    else (405, none)

/-! ### The registry -/

structure HttpMetricKey where
  method : Str
  route : Str
  status : ℕ
  deriving DecidableEq

structure MetricsInner where
  httpRequests : Finmap fun _ : HttpMetricKey => ℕ
  resolveRequests : Finmap fun _ : ResolveMetricKey => ℕ

def MetricsInner.default : MetricsInner := ⟨∅, ∅⟩

/-- `entry(key).or_default().observe(..)` -/
def observe {κ : Type} [DecidableEq κ] (series : Finmap fun _ : κ => ℕ) (key : κ) : Finmap fun _ : κ => ℕ :=
  series.insert key ((series.lookup key).getD 0 + 1)

def MetricsInner.recordHttpRequest (inner : MetricsInner) (key : HttpMetricKey) : MetricsInner :=
  { inner with httpRequests := observe inner.httpRequests key }

def MetricsInner.recordResolveRequest (inner : MetricsInner) (key : ResolveMetricKey) : MetricsInner :=
  { inner with resolveRequests := observe inner.resolveRequests key }

/-- The labels of the middleware: the method as it came, the route folded to its
registered path, and the status. -/
def httpKey (deps : HandlerDeps) (q : RouterRequest) : HttpMetricKey :=
  { method := q.method.token
    route := ((Route.ofPath q.path).map Route.path).getD "unmatched".toList
    status := (dispatch deps q).1 }

/-- One request through the middleware and what it wraps. -/
def recordHttpMetrics (deps : HandlerDeps) (inner : MetricsInner) (q : RouterRequest) : MetricsInner :=
  let inner := match (dispatch deps q).2 with
    | some key => inner.recordResolveRequest key
    | none => inner
  inner.recordHttpRequest (httpKey deps q)

/-- The registry after a sequence of requests. -/
def serveAll (deps : HandlerDeps) (requests : List RouterRequest) : MetricsInner :=
  requests.foldl (recordHttpMetrics deps) .default

/-- The label sets a scrape reports. -/
def MetricsInner.labelSets (inner : MetricsInner) : ℕ :=
  inner.httpRequests.keys.card + inner.resolveRequests.keys.card

end Bweso
