import Bweso.Spec.Metrics
import Bweso.Spec.Server

/-! The running provider with its registry. The handler records a resolve request
as it returns; `record_http_metrics` around it counts the response when it has
come out. Nothing is awaited between the two, but other tasks may run. -/

namespace Bweso

/-- The count of one series; a series not yet there counts nothing. -/
def seriesCount {κ : Type} [DecidableEq κ] (series : Finmap fun _ : κ => ℕ) (key : κ) : ℕ :=
  (series.lookup key).getD 0

/-- The sum of the counts over the series whose key satisfies `p`. -/
def seriesTotal {κ : Type} [DecidableEq κ] (p : κ → Bool) (series : Finmap fun _ : κ => ℕ) : ℕ :=
  ∑ key ∈ series.keys.filter (p · = true), seriesCount series key

structure MeteredWorld where
  world : World
  metrics : MetricsInner
  /-- out of the handler, not yet counted by the middleware -/
  responses : List (RequestId × Response)

inductive MeteredEvent
  | server (e : ServerEvent)
  /-- the middleware counts the response of a resolve request -/
  | recordHttp (r : RequestId)
  /-- a request that does not reach the `resolve` handler -/
  | serve (q : RouterRequest)

/-- The exit its request takes, when an event leads to this world. -/
def ServerEvent.exit (e : ServerEvent) (w' : World) : Option (RequestId × Exit) :=
  e.request.bind fun r =>
    match w'.requests r with
    | .answered _ exit => some (r, exit)
    | _ => none

/-- The labels of the middleware around the `resolve` handler. -/
def resolveHttpKey (status : ℕ) : HttpMetricKey := ⟨"POST".toList, Route.resolve.path, status⟩

/-- The provider before its first request. -/
structure MeteredWorld.Starts (m : MeteredWorld) (limit : ℕ) : Prop where
  world : m.world.Starts limit
  metrics : m.metrics = .default
  responses : m.responses = []

namespace Server

variable (server : Server)

def meteredStep (m : MeteredWorld) : MeteredEvent → Option MeteredWorld
  | .server e =>
    (server.step m.world e).map fun world =>
      match e.exit world with
      | some (r, exit) =>
        { world
          metrics := m.metrics.recordResolveRequest exit.recorded
          responses := m.responses ++ [(r, exit.response)] }
      | none => { m with world }
  | .recordHttp r =>
    (m.responses.lookup r).map fun response =>
      { m with
        metrics := m.metrics.recordHttpRequest (resolveHttpKey response.status)
        responses := m.responses.eraseP fun x => x.1 = r }
  | .serve q =>
    match (dispatch server.deps q).2 with
    | some _ => none
    | none => some { m with metrics := recordHttpMetrics server.deps m.metrics q }

abbrev MeteredRuns (m₀ : MeteredWorld) (tr : List (MeteredWorld × MeteredEvent)) (m : MeteredWorld) : Prop :=
  Run server.meteredStep m₀ tr m

end Server

end Bweso
