import Bweso.Spec.Policy

/-! The static coverage checker of `scripts/eso-policy-coverage.rb`, as far as
it reads policy files: Ruby's `String` functions, `parse_policy_entries`, and
the test behind its `uncovered` list. -/

namespace Bweso

/-- The whitespace of Ruby's `String#strip`: NUL, tab, line feed, vertical tab,
form feed, carriage return and space. -/
def isRubyWhitespace (c : Char) : Bool := c == '\x00' || ('\t' ≤ c && c ≤ '\r') || c == ' '

/-- `String#strip` -/
def rubyStrip (s : Str) : Str := Text.trimBy isRubyWhitespace s

/-- `String#lines`: the line feeds stay. -/
def rubyLines (s : Str) : List Str := Text.splitInclusive '\n' s

/-- `String#split(",")`: trailing empty pieces are dropped. -/
def rubySplitComma (s : Str) : List Str := (s.splitOn ',').rdropWhile List.isEmpty

def parsePolicyEntries (value : Str) : List Str :=
  (((rubyLines value).flatMap rubySplitComma).map rubyStrip).filter fun entry =>
    !(entry.isEmpty || startsWith entry "#".toList)

/-- What the variable that names a policy file makes of its entries. -/
inductive PolicyFileKind
  | exact
  | prefixes
  deriving DecidableEq

/-- A key the checker leaves out of `uncovered` on account of this file. -/
def covered (kind : PolicyFileKind) (contents key : Str) : Bool :=
  match kind with
  | .exact => (parsePolicyEntries contents).any (· == key)
  | .prefixes => (parsePolicyEntries contents).any (startsWith key ·)

/-- The sources of a provider whose only source is this file. -/
def PolicyFileKind.sources (path : Str) : PolicyFileKind → PolicySources
  | .exact => { inlineKeys := [], inlineKeyPrefixes := [], keysFile := some path, keyPrefixesFile := none }
  | .prefixes =>
    { inlineKeys := [], inlineKeyPrefixes := [], keysFile := none, keyPrefixesFile := some path }

/-- Whether that provider, on this content, allows the key. -/
def admitted (kind : PolicyFileKind) (path contents key : Str) : Bool :=
  let read := FileRead.contents (asBytes contents)
  match (kind.sources path).evaluate read read with
  | .ok rules => rules.allows key
  | .error _ => false

/-! ### Where the two readings part -/

/-- The checker reads `entry` where the provider reads something else: on a
comment line, past its first comma, or from a piece that `strip` and `trim` cut
differently. -/
def Misread (contents entry : Str) : Prop :=
  ∃ line ∈ Text.splitInclusive '\n' contents, ∃ piece ∈ line.splitOn ',',
    entry = rubyStrip piece ∧ entry ≠ [] ∧ entry.head? ≠ some '#' ∧
      ((trim line).head? = some '#' ∨ trim piece ≠ entry)

/-- The file has `entry` between two commas of a line that is no comment. -/
def Listed (contents entry : Str) : Prop :=
  entry ≠ [] ∧ ∃ line ∈ Text.splitInclusive '\n' contents,
    (trim line).head? ≠ some '#' ∧ ∃ piece ∈ line.splitOn ',', trim piece = entry

/-- Whatever the checker misreads, the file also lists: the entry itself in an
exact file, one of its prefixes in a prefix file. -/
def MisreadsListed (kind : PolicyFileKind) (contents : Str) : Prop :=
  ∀ entry, Misread contents entry →
    match kind with
    | .exact => Listed contents entry
    | .prefixes => ∃ e, Listed contents e ∧ e <+: entry

end Bweso
