import Mathlib.Data.Finmap
import Mathlib.Data.Vector.Basic
import Bweso.Lib.Text

/-! Text, bytes and the shared types of the provider: `crates/bweso-core` and
the pieces of Rust's `str` that the other crates lean on. A `&str` is the list
of its characters; its byte length is the length of its UTF-8 encoding. -/

namespace Bweso

abbrev Str := List Char
abbrev Bytes := List UInt8

/-- `str::as_bytes` -/
def asBytes (s : Str) : Bytes := s.flatMap String.utf8EncodeChar

/-- `String::from_utf8`, with `none` for an invalid sequence. -/
def fromUtf8 (b : Bytes) : Option Str := (ByteArray.mk b.toArray).utf8Decode?.map Array.toList

/-- `char::is_whitespace`: the Unicode White_Space property. -/
def isWhitespace (c : Char) : Bool :=
  ('\t' ≤ c && c ≤ '\r') || c == ' ' || c == '\u0085' || c == '\u00a0' || c == '\u1680' ||
    ('\u2000' ≤ c && c ≤ '\u200a') || c == '\u2028' || c == '\u2029' || c == '\u202f' ||
    c == '\u205f' || c == '\u3000'

/-- `str::trim` -/
def trim (s : Str) : Str := Text.trimBy isWhitespace s

/-- `s.trim().is_empty()` -/
def blank (s : Str) : Bool := (trim s).isEmpty

/-- `str::strip_prefix` -/
def stripPrefix : Str → Str → Option Str
  | s, [] => some s
  | [], _ :: _ => none
  | c :: s, d :: p => if c = d then stripPrefix s p else none

/-- `str::starts_with` -/
def startsWith (s p : Str) : Bool := (stripPrefix s p).isSome

/-- `str::split_once(char)`: around the first occurrence. -/
def splitOnce (c : Char) : Str → Option (Str × Str)
  | [] => none
  | d :: s => if d = c then some ([], s) else (splitOnce c s).map fun (a, b) => (d :: a, b)

/-- `char::to_ascii_lowercase` -/
def toAsciiLowercase (c : Char) : Char := c.toLower

/-- `str::eq_ignore_ascii_case` -/
def eqIgnoreAsciiCase (a b : Str) : Bool := a.map toAsciiLowercase == b.map toAsciiLowercase

/-- `str::lines`: cut after each line feed, then drop that line feed and a
carriage return right before it. -/
def lines (s : Str) : List Str :=
  (Text.splitInclusive '\n' s).map fun l =>
    if l.getLast? = some '\n' then
      let l := l.dropLast
      if l.getLast? = some '\r' then l.dropLast else l
    else l

/-- A `BTreeMap<String, String>`. -/
abbrev StringMap := Finmap (fun _ : Str => Str)

/-! ### `bweso-core` -/

/-- A remote secret selector supplied by an integration adapter. -/
structure RemoteRef where
  key : Str
  property : Option Str
  version : Option Str
  deriving DecidableEq

/-- A resolved secret document before adapter-specific response formatting. -/
structure SecretDocument where
  data : StringMap
  metadata : StringMap
  deriving DecidableEq

namespace SecretDocument

def default : SecretDocument := ⟨∅, ∅⟩

/-- A single-key secret document. -/
def single (key value : Str) : SecretDocument := ⟨(∅ : StringMap).insert key value, ∅⟩

end SecretDocument

inductive ValidationError
  | emptyField (field : Str)
  deriving DecidableEq

def ValidationError.message : ValidationError → Str
  | .emptyField field => field ++ " must not be empty".toList

def requireNonEmpty (value field : Str) : Except ValidationError Unit :=
  if blank value then .error (.emptyField field) else .ok ()

end Bweso
