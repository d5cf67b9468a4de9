import Bweso.Lib.Python
import Bweso.Lib.Result
import Bweso.Spec.Basic

/-! `scripts/qualification_checks.py`: whether two image references come to the
same native configuration. The registry behind `fetch` may answer anything. -/

namespace Bweso

open Py

/-- The last seven of the characters that start a digest, and 64 hexadecimal digits. -/
def isDigest (s : Py.Str) : Bool :=
  s.take 7 == lit "sha256:" && (s.drop 7).length == 64 && (s.drop 7).all isHexLower

def canonicalDigest (value : Py.Str) : Except Exc Py.Str :=
  let digest := afterLast '@'.toNat (afterFirst (lit "://") value)
  if isDigest digest then .ok digest else .error (.own "image identity is not an immutable SHA-256 digest")

/-- `canonical_digest` of a value of a document; only a `str` has `split`. -/
def canonicalDigestOf : Value → Except Exc Py.Str
  | .str s => canonicalDigest s
  | _ => .error .attributeError

/-- What the script reads objects with. -/
structure Content where
  hexdigest : Bytes → Py.Str
  loads : Bytes → Except Exc Value

/-- `item.get("platform", {}).get("architecture") == arch and …("os") == "linux"` -/
def isNative (arch : Py.Str) : Value → Except Exc Bool
  | .dict item =>
    match (item.lookup (lit "platform")).getD (.dict []) with
    | .dict platform =>
      .ok ((platform.lookup (lit "architecture")).any (·.eq (.str arch)) &&
        (platform.lookup (lit "os")).any (·.eq (.str (lit "linux"))))
    | _ => .error .attributeError
  | _ => .error .attributeError

def isPlatformless : Value → Bool
  | .dict item => (item.lookup (lit "platform")).isNone
  | _ => false

def itemDigest : Value → Except Exc Py.Str
  | .dict item =>
    match item.lookup (lit "digest") with
    | some digest => canonicalDigestOf digest
    | none => .error .keyError
  | _ => .error .typeError

/-- The index branch of `config_digest`. -/
def nextOfIndex (arch : Py.Str) (manifest : Dict) : Except Exc Py.Str := do
  let descriptors ← iter ((manifest.lookup (lit "manifests")).getD (.list []))
  let natives ← Py.filter (isNative arch) descriptors
  let unknown := descriptors.filter isPlatformless
  match (if natives.isEmpty && unknown.length == 1 then unknown else natives) with
  | [item] => itemDigest item
  | _ => .error (.own "image index did not identify one native Linux manifest")

/-- One turn of the loop: `none` at the configuration, else the digest to go on with. -/
def nextDigest (arch : Py.Str) (manifest : Dict) : Except Exc (Option Py.Str) :=
  match manifest.lookup (lit "architecture"), manifest.lookup (lit "os") with
  | some architecture, some os =>
    if !architecture.eq (.str arch) || !os.eq (.str (lit "linux")) then
      .error (.own "image configuration does not match the native Linux platform")
    else .ok none
  | _, _ =>
    match manifest.lookup (lit "config") with
    | some (.dict config) =>
      match config.lookup (lit "digest") with
      | some digest => (canonicalDigestOf digest).map some
      | none => (nextOfIndex arch manifest).map some
    | _ => (nextOfIndex arch manifest).map some

variable {σ : Type}

/-- A registry: it answers or raises, and may change with every request. -/
abbrev Fetch (σ : Type) := σ → Py.Str → Except Exc (Bytes × σ)

/-- The objects loaded so far, and the registry. -/
structure Loaded (σ : Type) where
  cache : List (Py.Str × Dict)
  registry : σ

namespace Content

variable (content : Content) (fetch : Fetch σ)

def load (st : Loaded σ) (digest : Py.Str) : Except Exc (Dict × Loaded σ) :=
  match st.cache.lookup digest with
  | some manifest => .ok (manifest, st)
  | none => do
    let (raw, registry) ← fetch st.registry digest
    if 1024 * 1024 < raw.length ∨ lit "sha256:" ++ content.hexdigest raw ≠ digest then
      throw (.own "container runtime returned mismatching image content")
    match ← content.loads raw with
    | .dict manifest => .ok (manifest, ⟨(digest, manifest) :: st.cache, registry⟩)
    | _ => .error (.own "image content is not an object")

/-- The loop of `config_digest` with the turns left. -/
def follow (arch : Py.Str) : ℕ → Loaded σ → Py.Str → Except Exc (Py.Str × Loaded σ)
  | 0, _, _ => .error (.own "image identity exceeded the supported manifest depth")
  | turns + 1, st, current => do
    let (manifest, st) ← content.load fetch st current
    match ← nextDigest arch manifest with
    | none => .ok (current, st)
    | some next => follow arch turns st next

def configDigest (arch : Py.Str) (st : Loaded σ) (reference : Py.Str) : Except Exc (Py.Str × Loaded σ) := do
  let current ← canonicalDigest reference
  content.follow fetch arch 5 st current

/-- The `except` clause of `verify_native_image`. -/
def asIdentityError : Exc → Exc
  | .keyError | .typeError | .attributeError | .jsonDecodeError => .own "invalid image manifest structure"
  | e => e

def verifyNativeImage (registry : σ) (observed expected arch : Py.Str) : Except Exc Unit :=
  (show Except Exc Unit from do
    let (running, st) ← content.configDigest fetch arch ⟨[], registry⟩ observed
    let (built, _) ← content.configDigest fetch arch st expected
    if running ≠ built then throw (.own "running image differs from the built configuration")).mapError
      asIdentityError

end Content

end Bweso
