import Bweso.Lib.LastGood
import Bweso.Spec.Basic

/-! The selector policy of `main.rs`: rules, the sources they are evaluated
from, and the holder a background task reloads. What a file yields is decided
by each open, so it is an argument of each evaluation. -/

namespace Bweso

/-- Immutable evaluated selector policy. -/
inductive PolicyRules
  | allowAll
  | allowList (allowedKeys allowedKeyPrefixes : List Str)
  deriving DecidableEq

def PolicyRules.allows (rules : PolicyRules) (key : Str) : Bool :=
  match rules with
  | .allowAll => true
  | .allowList allowedKeys allowedKeyPrefixes =>
    allowedKeys.any (· == key) || allowedKeyPrefixes.any (startsWith key ·)

def PolicyRules.counts : PolicyRules → ℕ × ℕ
  | .allowAll => (0, 0)
  | .allowList allowedKeys allowedKeyPrefixes => (allowedKeys.length, allowedKeyPrefixes.length)

/-! ### Policy files -/

/-- What opening a path and reading it to the end gives. -/
inductive FileRead
  | openFailed
  | readFailed
  | contents (bytes : Bytes)
  deriving DecidableEq

inductive PolicyError
  | openFile (name path : Str)
  | readFile (name path : Str)
  | fileTooLarge (name path : Str)
  | fileEvaluatedToZeroEntries
  | evaluatedToZeroEntries
  | notConfigured
  | bothConfigured
  | entry (e : ValidationError)
  deriving DecidableEq

def PolicyError.message : PolicyError → Str
  | .openFile name path => "failed to open ".toList ++ name ++ "_file ".toList ++ path
  | .readFile name path => "failed to read ".toList ++ name ++ "_file ".toList ++ path
  | .fileTooLarge name path =>
    name ++ "_file ".toList ++ path ++ " is exceeding the 4194304 byte limit".toList
  | .fileEvaluatedToZeroEntries =>
    ("selector policy file source is configured but evaluated to zero entries; " ++
      "refusing to fall back to allow-all").toList
  | .evaluatedToZeroEntries => "selector policy allow-list evaluated to zero entries".toList
  | .notConfigured =>
    ("configure selector policy with allowed keys/prefixes, or explicitly set " ++
      "BWESO_ALLOW_ALL_SELECTORS=true when the provider account is already scoped to this " ++
      "trust boundary").toList
  | .bothConfigured =>
    ("configure either selector allow-list entries or BWESO_ALLOW_ALL_SELECTORS=true, " ++
      "not both").toList
  | .entry e => e.message

def maxPolicyFileBytes : ℕ := 4 * 1024 * 1024

/-- The entries of one line: none on a blank or comment line, the non-blank
pieces between commas otherwise. -/
def policyLineEntries (line : Str) : List Str :=
  let line := trim line
  if line.isEmpty || line.head? == some '#' then []
  else ((line.splitOn ',').map trim).filter fun entry => !entry.isEmpty

def policyEntries (contents : Str) : List Str := (lines contents).flatMap policyLineEntries

def readPolicyFile (name path : Str) : FileRead → Except PolicyError (List Str)
  | .openFailed => .error (.openFile name path)
  | .readFailed => .error (.readFile name path)
  | .contents bytes =>
    -- one byte beyond the limit is read, so that an oversized file shows
    match fromUtf8 (bytes.take (maxPolicyFileBytes + 1)) with
    | none => .error (.readFile name path)
    | some contents =>
      if maxPolicyFileBytes < (asBytes contents).length then .error (.fileTooLarge name path)
      else .ok (policyEntries contents)

/-! ### Sources and evaluation -/

structure PolicySources where
  inlineKeys : List Str
  inlineKeyPrefixes : List Str
  keysFile : Option Str
  keyPrefixesFile : Option Str
  deriving DecidableEq

def PolicySources.hasFile (s : PolicySources) : Bool := s.keysFile.isSome || s.keyPrefixesFile.isSome

/-- Inline entries followed by those of the file, when one is configured. -/
def extendFromFile (entries : List Str) (name : Str) (file : Option Str) (read : FileRead) :
    Except PolicyError (List Str) :=
  match file with
  | none => .ok entries
  | some path => (readPolicyFile name path read).map (entries ++ ·)

/-- The checks of `evaluate` after both sources are read. -/
def PolicySources.build (s : PolicySources) (allowedKeys allowedKeyPrefixes : List Str) :
    Except PolicyError PolicyRules :=
  if s.hasFile && allowedKeys.isEmpty && allowedKeyPrefixes.isEmpty then
    .error .fileEvaluatedToZeroEntries
  else if allowedKeys.isEmpty && allowedKeyPrefixes.isEmpty then .error .evaluatedToZeroEntries
  else .ok (.allowList allowedKeys allowedKeyPrefixes)

/-- Re-read the file sources, the keys file first, and union them with the
inline entries. -/
def PolicySources.evaluate (s : PolicySources) (keys keyPrefixes : FileRead) :
    Except PolicyError PolicyRules := do
  let allowedKeys ← extendFromFile s.inlineKeys "allowed_key".toList s.keysFile keys
  let allowedKeyPrefixes ←
    extendFromFile s.inlineKeyPrefixes "allowed_key_prefix".toList s.keyPrefixesFile keyPrefixes
  s.build allowedKeys allowedKeyPrefixes

/-- The command-line options the selector policy reads. -/
structure PolicyArgs where
  allowedKeys : List Str
  allowedKeyPrefixes : List Str
  allowedKeysFile : Option Str
  allowedKeyPrefixesFile : Option Str
  allowAllSelectors : Bool
  deriving DecidableEq

def normalizePolicyEntries (name : Str) : List Str → Except PolicyError (List Str)
  | [] => .ok []
  | entry :: entries => do
    let entry := trim entry
    (requireNonEmpty entry name).mapError .entry
    let normalized ← normalizePolicyEntries name entries
    return entry :: normalized

/-- Hot-swappable selector policy. -/
structure SelectorPolicy where
  rules : PolicyRules
  sources : PolicySources
  deriving DecidableEq

namespace SelectorPolicy

def fromArgs (args : PolicyArgs) (keys keyPrefixes : FileRead) : Except PolicyError SelectorPolicy := do
  let hasInlineEntries := !args.allowedKeys.isEmpty || !args.allowedKeyPrefixes.isEmpty
  let hasFileEntries := args.allowedKeysFile.isSome || args.allowedKeyPrefixesFile.isSome
  if !args.allowAllSelectors && !hasInlineEntries && !hasFileEntries then throw .notConfigured
  if args.allowAllSelectors && (hasInlineEntries || hasFileEntries) then throw .bothConfigured
  let inlineKeys ← normalizePolicyEntries "allowed_key".toList args.allowedKeys
  let inlineKeyPrefixes ← normalizePolicyEntries "allowed_key_prefix".toList args.allowedKeyPrefixes
  let sources : PolicySources :=
    { inlineKeys, inlineKeyPrefixes, keysFile := args.allowedKeysFile
      keyPrefixesFile := args.allowedKeyPrefixesFile }
  let rules ← if args.allowAllSelectors then pure .allowAll else sources.evaluate keys keyPrefixes
  return { rules, sources }

def allows (p : SelectorPolicy) (key : Str) : Bool := p.rules.allows key

/-- Re-evaluate the sources and swap the active rules in place. -/
def reload (p : SelectorPolicy) (keys keyPrefixes : FileRead) : Except PolicyError Bool × SelectorPolicy :=
  if p.sources.hasFile then
    let (changed, rules) := LastGood.refresh p.rules (p.sources.evaluate keys keyPrefixes)
    (changed, { p with rules })
  else (.ok false, p)

end SelectorPolicy

/-! ### The reload task -/

inductive ReloadOutcome
  | success
  | unchanged
  | failure
  deriving DecidableEq

def ReloadOutcome.of {ε : Type} : Except ε Bool → ReloadOutcome
  | .ok true => .success
  | .ok false => .unchanged
  | .error _ => .failure

/-- The gauges and counters a reload task keeps: the two active counts, one
counter for each outcome, and the wall-clock time of the last success. -/
structure ReloadMetrics where
  reloads : ReloadOutcome → ℕ
  active : ℕ × ℕ
  lastSuccess : Option ℕ

def ReloadMetrics.init : ReloadMetrics := { reloads := fun _ => 0, active := (0, 0), lastSuccess := none }

namespace ReloadMetrics

/-- `record_policy_reload` and `record_auth_policy_reload`. -/
def recordReload (m : ReloadMetrics) (outcome : ReloadOutcome) (active : ℕ × ℕ) (unixNow : ℕ) :
    ReloadMetrics :=
  { reloads := Function.update m.reloads outcome (m.reloads outcome + 1)
    active
    lastSuccess := if outcome = .failure then m.lastSuccess else some unixNow }

/-- `record_policy_baseline` and `record_auth_policy_baseline`. -/
def recordBaseline (m : ReloadMetrics) (active : ℕ × ℕ) (unixNow : ℕ) : ReloadMetrics :=
  { m with active, lastSuccess := some (m.lastSuccess.getD unixNow) }

end ReloadMetrics

/-- What one cycle of a reload task finds: the two opens, and the time it is
recorded at. -/
structure PolicyCycle where
  keys : FileRead
  keyPrefixes : FileRead
  unixNow : ℕ

/-- The body of the loop of `spawn_policy_reload`. -/
def policyReloadCycle (s : SelectorPolicy × ReloadMetrics) (cycle : PolicyCycle) :
    SelectorPolicy × ReloadMetrics :=
  let (result, policy) := s.1.reload cycle.keys cycle.keyPrefixes
  (policy, s.2.recordReload (ReloadOutcome.of result) policy.rules.counts cycle.unixNow)

/-- `main` before the reload task: the startup policy seeds the gauges when a
file backs it. -/
def policyStartup (policy : SelectorPolicy) (unixNow : ℕ) : SelectorPolicy × ReloadMetrics :=
  (policy, if policy.sources.hasFile then ReloadMetrics.init.recordBaseline policy.rules.counts unixNow
    else ReloadMetrics.init)

end Bweso
