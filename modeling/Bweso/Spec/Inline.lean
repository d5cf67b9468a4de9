import Bweso.Spec.Coverage

/-! Inline policy on its way into the provider: the chart renders a list of
entries into one environment variable, the option parser cuts the variable into
values again, and the coverage checker reads the same variable by itself. -/

namespace Bweso

/-- `join "," list | quote` under `if list`: an empty list renders no variable. -/
def renderInline (entries : List Str) : Option Str :=
  if entries.isEmpty then none else some ([','].intercalate entries)

/-- The values of a `value_delimiter = ','` option read from its variable. -/
def clapValues : Option Str → List Str
  | none => []
  | some value => value.splitOn ','

/-- The options of a provider for which only `BWESO_ALLOWED_KEYS` and
`BWESO_ALLOWED_KEY_PREFIXES` may be set. -/
def inlineArgs (keys keyPrefixes : Option Str) : PolicyArgs :=
  { allowedKeys := clapValues keys, allowedKeyPrefixes := clapValues keyPrefixes, allowedKeysFile := none
    allowedKeyPrefixesFile := none, allowAllSelectors := false }

/-- Its startup; there is no file to read. -/
def startInline (keys keyPrefixes : Option Str) : Except PolicyError SelectorPolicy :=
  SelectorPolicy.fromArgs (inlineArgs keys keyPrefixes) .openFailed .openFailed

/-- The environment the chart renders from its two lists. -/
def startRendered (allowedKeys allowedKeyPrefixes : List Str) : Except PolicyError SelectorPolicy :=
  startInline (renderInline allowedKeys) (renderInline allowedKeyPrefixes)

/-- The same value in the variable of either kind, and no other variable. -/
def startVariable (value : Str) : PolicyFileKind → Except PolicyError SelectorPolicy
  | .exact => startInline (some value) none
  | .prefixes => startInline none (some value)

/-! ### What an entry grants -/

/-- A key that the entries of the two lists are meant to allow. -/
def Granted (allowedKeys allowedKeyPrefixes : List Str) (key : Str) : Prop :=
  (∃ k ∈ allowedKeys, key = trim k) ∨ ∃ p ∈ allowedKeyPrefixes, trim p <+: key

/-- What stands between two commas of an entry. -/
def Fragment (entries : List Str) (fragment : Str) : Prop :=
  ∃ entry ∈ entries, ∃ piece ∈ entry.splitOn ',', fragment = trim piece

/-- Everything the fragments allow, the whole entries allow as well. -/
def FragmentsGranted (allowedKeys allowedKeyPrefixes : List Str) : Prop :=
  (∀ f, Fragment allowedKeys f → Granted allowedKeys allowedKeyPrefixes f) ∧
  ∀ f, Fragment allowedKeyPrefixes f → ∀ key, f <+: key → Granted allowedKeys allowedKeyPrefixes key

/-- The variable has `entry` between two of its commas. -/
def VariableLists (value entry : Str) : Prop := ∃ piece ∈ value.splitOn ',', trim piece = entry

/-- A line of the variable has, between two commas, the text `entry` that is
neither blank nor a comment. -/
def LineReads (value entry : Str) : Prop :=
  ∃ line ∈ Text.splitInclusive '\n' value, ∃ piece ∈ line.splitOn ',',
    entry = rubyStrip piece ∧ entry ≠ [] ∧ entry.head? ≠ some '#'

/-- Where the lines have an entry at all, no piece between commas is blank, and
the commas alone already cut out every entry of the lines (or, for prefixes, a
prefix of it). -/
def VariableReadable (kind : PolicyFileKind) (value : Str) : Prop :=
  ∀ entry, LineReads value entry →
    ¬ VariableLists value [] ∧
    match kind with
    | .exact => VariableLists value entry
    | .prefixes => ∃ e, VariableLists value e ∧ e <+: entry

end Bweso
