import Bweso.Spec.Sbom

/-! `scripts/release_bundle.py`: the manifest and the checksum list of a release
directory, and their verification. -/

namespace Bweso

open Py (Exc Value lit)

/-! ### Files -/

/-- What stands under a name of a directory: a regular file, or a link, a
directory or the like. -/
inductive DirEntry
  | file (content : Bytes)
  | other
  deriving DecidableEq

abbrev Directory := Py.Str → Option DirEntry

def Directory.write (directory : Directory) (name : Py.Str) (content : Bytes) : Directory :=
  Function.update directory name (some (.file content))

def maxFile : ℕ := 64 * 1024 * 1024

def readRegular (directory : Directory) (name : Py.Str) : Except Exc Bytes :=
  match directory name with
  | some (.file content) => do
    require (0 < content.length ∧ content.length ≤ maxFile) "artifact is empty or exceeds its size limit"
    .ok content
  | _ => .error (.own "expected a regular artifact file")

/-- A member of a tar archive, with what reading it as a file gives. -/
structure TarEntry where
  name : Py.Str
  isFile : Bool
  size : ℤ
  mode : ℕ
  content : Option (Except Exc Bytes)

/-- What the script uses of the standard library: SHA-256 in hexadecimal,
`json.loads`, the members of a compressed archive as they come, and `repr`. -/
structure BundleTools where
  hexdigest : Bytes → Py.Str
  hexdigest_length : ∀ data, (hexdigest data).length = 64
  hexdigest_hex : ∀ data, (hexdigest data).all Py.isHexLower = true
  loads : Bytes → Except Exc Value
  untar : Bytes → List (Except Exc TarEntry)
  floatRepr : ℚ → Py.Str

/-! ### Names -/

/-- `0|[1-9][0-9]*` -/
def isNumeral : Py.Str → Bool
  | [] => false
  | c :: s => (c == 48 && s.isEmpty) || (c != 48 && (c :: s).all Py.isDigit)

/-- `VERSION.fullmatch`: three numerals, and after a dash pieces of letters and digits
with a dot or a dash between. -/
def isVersion (s : Py.Str) : Bool :=
  let core := (s.takeWhile (· != 45)).splitOn 46
  core.length == 3 && core.all isNumeral &&
    match s.dropWhile (· != 45) with
    | [] => true
    | _ :: pre => (pre.splitOnP fun c => c == 46 || c == 45).all fun piece => !piece.isEmpty && piece.all Py.isAlnum

/-- `REVISION.fullmatch` -/
def isRevision (s : Py.Str) : Bool := s.length == 40 && s.all Py.isHexLower

/-- `DIGEST.fullmatch` -/
def isBundleDigest (s : Py.Str) : Bool :=
  s.take 7 == lit "sha256:" && (s.drop 7).length == 64 && (s.drop 7).all Py.isHexLower

/-- `pattern.fullmatch(v) is not None` -/
def fullmatch (pattern : Py.Str → Bool) : Value → Except Exc Bool
  | .str s => .ok (pattern s)
  | _ => .error .typeError

/-- `DIGEST.fullmatch(a) is not None and DIGEST.fullmatch(b) is not None` -/
def bothDigests (a b : Value) : Except Exc Bool := do
  if ← fullmatch isBundleDigest a then fullmatch isBundleDigest b else .ok false

/-- `ARCHES`: the platforms with their ELF machines. -/
def arches : List (Py.Str × ℕ) := [(lit "amd64", 62), (lit "arm64", 183)]

def binaryName : Value → Py.Str → Except Exc Py.Str
  | .str version, arch => do
    require (isVersion version = true ∧ arch ∈ arches.map Prod.fst) "invalid version or platform"
    .ok (lit "vaultwarden-eso-provider-" ++ version ++ lit "-linux-" ++ arch ++ lit ".tar.gz")
  | _, _ => .error .typeError

def assetNames : Value → Except Exc (List Py.Str)
  | .str version => do
    require (isVersion version = true) "invalid release version"
    let perArch ← arches.mapM fun (arch, _) => do
      let binary ← binaryName (.str version) arch
      .ok [binary, lit "sbom-linux-" ++ arch ++ lit ".spdx.json"]
    .ok ([lit "vaultwarden-eso-provider-" ++ version ++ lit ".tgz", lit "THIRD-PARTY-LICENSES.txt",
      lit "release-readiness.json"] ++ perArch.flatten)
  | _ => .error .typeError

/-! ### Archives -/

/-- A little-endian `H` at an offset. -/
def unpackHalf (data : Bytes) (offset : ℕ) : ℕ :=
  (data.getD offset 0).toNat + 256 * (data.getD (offset + 1) 0).toNat

def checkElf (data : Bytes) (arch : Py.Str) : Except Exc Unit := do
  require ((arches.lookup arch).isSome = true ∧ 64 ≤ data.length ∧ data.take 6 = [127, 69, 76, 70, 2, 1])
    "expected a 64-bit little-endian ELF binary"
  require (some (unpackHalf data 18) = arches.lookup arch) "binary architecture mismatch"

def binaryMembers : List Py.Str :=
  [lit "vaultwarden-eso-provider", lit "LICENSE", lit "THIRD-PARTY-LICENSES.txt"]

/-- One turn of the loop of `check_archive`, with the members found so far. -/
def checkMember (tools : BundleTools) (arch : Py.Str) (found : List (Py.Str × Py.Str)) (entry : TarEntry) :
    Except Exc (List (Py.Str × Py.Str)) := do
  require (entry.name ∈ binaryMembers ∧ entry.name ∉ found.map Prod.fst) "unexpected or duplicate archive member"
  require (entry.isFile = true ∧ 0 < entry.size ∧ entry.size ≤ maxFile) "unsafe archive member"
  match entry.content with
  | none => .error (.own "unreadable archive member")
  | some content =>
    let data := (← content).take (maxFile + 1)
    require ((data.length : ℤ) = entry.size) "archive member size mismatch"
    if entry.name = lit "vaultwarden-eso-provider" then
      checkElf data arch
      require (entry.mode &&& 0o111 ≠ 0) "binary is not executable"
    .ok (found ++ [(entry.name, tools.hexdigest data)])

/-- `check_archive`: the digests of the members by name. -/
def checkArchive (tools : BundleTools) (directory : Directory) (name arch : Py.Str) :
    Except Exc (List (Py.Str × Py.Str)) :=
  match directory name with
  | some (.file content) => do
    let found ← (tools.untar content).foldlM (fun found entry => do checkMember tools arch found (← entry)) []
    require (∀ member ∈ binaryMembers, member ∈ found.map Prod.fst) "native archive is incomplete"
    .ok found
  | _ => .error (.own "missing native archive")

/-! ### The readiness record -/

inductive ReadinessScope
  | vaultwardenOnly
  | vaultwardenAndBitwardenCloud
  deriving DecidableEq

/-- `set(d) == {..}` -/
def keysAre (d : Py.Dict) (keys : List Py.Str) : Bool :=
  d.all (fun m => keys.contains m.1) && keys.all fun k => (d.lookup k).isSome

/-- `d.get(key) == v` -/
def getEq (d : Py.Dict) (key : String) (v : Value) : Bool := ((d.lookup (lit key)).getD .none).eq v

/-- `type(v) is int` -/
def isInt : Option Value → Bool
  | some (.int _) => true
  | _ => false

/-- A deferred Cloud acceptance: `status` and `issue` alone, as version 2 asks. -/
def isDeferred : Option Value → Bool
  | some (.dict cloud) =>
    keysAre cloud [lit "status", lit "issue"] && getEq cloud "status" (.str (lit "deferred")) &&
      isInt (cloud.lookup (lit "issue")) && getEq cloud "issue" (.int 75)
  | _ => false

def isDict : Option Value → Bool
  | some (.dict _) => true
  | _ => false

def readinessScope (report version : Value) : Except Exc ReadinessScope :=
  match report with
  | .dict report => do
    require (isInt (report.lookup (lit "schemaVersion")) = true) "unknown readiness record shape"
    require (getEq report "targetVersion" version = true) "qualification is for a different version"
    if getEq report "schemaVersion" (.int 2) then
      require (keysAre report [lit "schemaVersion", lit "targetVersion", lit "releaseScope", lit "cloud"] = true)
        "unknown readiness record shape"
      require (getEq report "releaseScope" (.str (lit "vaultwarden-only")) = true)
        "unsupported release qualification scope"
      require (isDeferred (report.lookup (lit "cloud")) = true)
        "Vaultwarden-only scope must explicitly defer unverified Cloud acceptance to #75"
      .ok .vaultwardenOnly
    else
      require (getEq report "schemaVersion" (.int 1) = true ∧
        keysAre report [lit "schemaVersion", lit "targetVersion", lit "cloud"] = true ∧
        isDict (report.lookup (lit "cloud")) = true) "unknown readiness record shape"
      .ok .vaultwardenAndBitwardenCloud
  | _ => .error (.own "unknown readiness record shape")

/-- `"-" in version` -/
def hasDash : Value → Except Exc Bool
  | .str s => .ok (s.contains 45)
  | .list items => .ok (items.any (·.eq (.str [45])))
  | .dict m => .ok (m.lookup [45]).isSome
  | _ => .error .typeError

/-- `readiness["cloud"].get("status") == "passed"` -/
def cloudPassed : Value → Except Exc Bool
  | .dict readiness =>
    match readiness.lookup (lit "cloud") with
    | some (.dict cloud) => .ok (getEq cloud "status" (.str (lit "passed")))
    | some _ => .error .attributeError
    | none => .error .keyError
  | _ => .error .typeError

/-- A prerelease, a Vaultwarden-only release or a passed Cloud acceptance. -/
def isQualified (readiness version : Value) (scope : ReadinessScope) : Except Exc Bool := do
  if ← hasDash version then .ok true
  else if scope = .vaultwardenOnly then .ok true
  else cloudPassed readiness

/-! ### The inventory -/

/-- `row.get(key)` -/
def getOf (key : String) : Value → Except Exc Value
  | .dict row => .ok ((row.lookup (lit key)).getD .none)
  | _ => .error .attributeError

/-- `str(v).startswith(p)`, for a `p` that no other value's text starts with -/
def textStartsWith (p : Py.Str) : Value → Bool
  | .str s => p.isPrefixOf s
  | _ => false

/-- `v.endswith(p)` -/
def endsWith (p : Py.Str) : Value → Except Exc Bool
  | .str s => .ok (p.isSuffixOf s)
  | _ => .error .attributeError

def isStr : Value → Bool
  | .str _ => true
  | _ => false

/-- `len(set(xs)) == len(xs)` -/
def distinct : List Value → Bool
  | [] => true
  | x :: xs => !xs.any (·.eq x) && distinct xs

/-- The checks of an SBOM against the binary's digest. -/
def checkSbom (sbom version : Value) (arch : Py.Str) (digest : Except Exc Py.Str) : Except Exc Unit :=
  match sbom with
  | .dict doc => do
    require (textStartsWith (lit "SPDX-") ((doc.lookup (lit "spdxVersion")).getD (.str [])) = true ∧
      getEq doc "SPDXID" (.str (lit "SPDXRef-DOCUMENT")) = true) "invalid SPDX document"
    match (doc.lookup (lit "packages")).getD (.list []) with
    | .list packages =>
      require (2 ≤ packages.length) "SPDX dependency inventory is empty"
      let identifiers ← packages.mapM (getOf "SPDXID")
      require (identifiers.all isStr = true ∧ distinct identifiers = true)
        "invalid or duplicated SPDX package identity"
      let binary ← Py.filter (fun row => (getOf "SPDXID" row).map (·.eq (.str (lit "SPDXRef-ProviderBinary")))) packages
      match binary with
      | [row] =>
        let checksums ← getOf "checksums" row
        let digest ← digest
        require (checksums.eq (.list [.dict [(lit "algorithm", .str (lit "SHA256")),
          (lit "checksumValue", .str digest)]]) = true) "SPDX executable checksum differs from the packaged binary"
        let info ← getOf "versionInfo" row
        let named ← if info.eq version then endsWith (lit "-linux-" ++ arch) ((doc.lookup (lit "name")).getD (.str []))
          else .ok false
        require (named = true) "SPDX version or platform differs from the release"
      | _ => .error (.own "SPDX executable checksum differs from the packaged binary")
    | _ => .error (.own "SPDX dependency inventory is empty")
  | _ => .error (.own "invalid SPDX document")

/-- `d[key]` -/
def index {α : Type} (d : List (Py.Str × α)) (key : Py.Str) : Except Exc α :=
  match d.lookup key with
  | some v => .ok v
  | none => .error .keyError

namespace BundleTools

variable (tools : BundleTools) (directory : Directory)

/-- The row of one asset. -/
def inventoryRow (version : Value) (memberHashes : List (Py.Str × List (Py.Str × Py.Str))) (name : Py.Str) :
    Except Exc Value := do
  let data ← readRegular directory name
  if (lit ".spdx.json").isSuffixOf name then
    let sbom ← tools.loads data
    let arch := Py.removeSuffix (lit ".spdx.json") (Py.removePrefix (lit "sbom-linux-") name)
    checkSbom sbom version arch do index (← index memberHashes arch) (lit "vaultwarden-eso-provider")
  .ok (.dict [(lit "name", .str name), (lit "sha256", .str (tools.hexdigest data)),
    (lit "bytes", .int data.length)])

def inventory (version : Value) : Except Exc (List Value) := do
  let readiness ← tools.loads (← readRegular directory (lit "release-readiness.json"))
  let scope ← readinessScope readiness version
  let qualified ← isQualified readiness version scope
  require (qualified = true) "Cloud-qualified stable distribution has no passed Cloud acceptance record"
  let memberHashes ← arches.mapM fun (arch, _) => do
    let name ← binaryName version arch
    let members ← checkArchive tools directory name arch
    .ok (arch, members)
  let notices ← readRegular directory (lit "THIRD-PARTY-LICENSES.txt")
  memberHashes.forM fun (_, members) => do
    let member ← index members (lit "THIRD-PARTY-LICENSES.txt")
    require (member = tools.hexdigest notices) "native archive notices differ from the published notices"
  let names ← assetNames version
  names.mapM (tools.inventoryRow directory version memberHashes)

def manifest (version revision imageDigest chartDigest : Value) : Except Exc Value := do
  let revisionOk ← fullmatch isRevision revision
  require (revisionOk = true) "invalid source revision"
  let digestsOk ← bothDigests imageDigest chartDigest
  require (digestsOk = true) "invalid registry digest"
  let artifacts ← tools.inventory directory version
  .ok (.dict [(lit "schemaVersion", .int 1), (lit "version", version), (lit "sourceRevision", revision),
    (lit "imageIndexDigest", imageDigest), (lit "ociChartDigest", chartDigest), (lit "artifacts", .list artifacts)])

def manifestName : Py.Str := lit "release-manifest.json"

def sumsName : Py.Str := lit "SHA256SUMS"

/-- A line of the checksum list. -/
def sumLine (name : Py.Str) : Except Exc Py.Str := do
  let data ← readRegular directory name
  .ok (tools.hexdigest data ++ lit "  " ++ name ++ [10])

/-- The checksum list of a version. -/
def sums (version : Value) : Except Exc Py.Str := do
  let names ← assetNames version
  let lines ← (Py.sorted (names ++ [manifestName])).mapM (tools.sumLine directory)
  .ok lines.flatten

/-- `open(.., "x")`, and the whole text in. -/
def create (name : Py.Str) (content : Except Exc Bytes) : Except Exc Directory :=
  match directory name with
  | some _ => .error .other
  | none => content.map (directory.write name)

/-- `json.dumps(record, indent=2) + "\n"`, as bytes -/
def manifestBytes (record : Value) : Except Exc Bytes :=
  Py.encodeUtf8 (Py.dumps tools.floatRepr 0 record ++ [10])

/-- `write_bundle`: the directory it leaves. -/
def writeBundle (version revision image chart : Py.Str) : Except Exc Directory := do
  let record ← tools.manifest directory (.str version) (.str revision) (.str image) (.str chart)
  let directory ← create directory manifestName (tools.manifestBytes record)
  create directory sumsName do Py.encodeAscii (← tools.sums directory (.str version))

def manifestKeys : List Py.Str :=
  [lit "schemaVersion", lit "version", lit "sourceRevision", lit "imageIndexDigest", lit "ociChartDigest",
    lit "artifacts"]

/-- The shape of the record `verify` reads. Of another value it takes the set, or
raises; a list of the very names has no member `"schemaVersion"`. -/
def manifestShape : Value → Except Exc Py.Dict
  | .dict m => do
    require (keysAre m manifestKeys = true ∧ getEq m "schemaVersion" (.int 1) = true) "unknown release manifest shape"
    .ok m
  | .str _ => .error (.own "unknown release manifest shape")
  | .list items =>
    if items.any (fun x => match x with | .list _ | .dict _ => true | _ => false) then .error .typeError
    else if items.all (fun x => manifestKeys.any fun k => x.eq (.str k)) &&
      manifestKeys.all (fun k => items.any (·.eq (.str k))) then .error .typeError
    else .error (.own "unknown release manifest shape")
  | _ => .error .typeError

def verify : Except Exc Unit := do
  let record ← tools.loads (← readRegular directory manifestName)
  let m ← manifestShape record
  let version ← index m (lit "version")
  let revision ← index m (lit "sourceRevision")
  let image ← index m (lit "imageIndexDigest")
  let chart ← index m (lit "ociChartDigest")
  let expected ← tools.manifest directory version revision image chart
  require (record.eq expected = true) "release manifest does not match downloaded assets"
  let expectedSums ← tools.sums directory version
  let written ← Py.decodeAscii (← readRegular directory sumsName)
  require (written = expectedSums) "checksum allowlist differs from expected assets"

end BundleTools

end Bweso
