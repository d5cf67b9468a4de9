import Bweso.Lib.Reads
import Bweso.Lib.Text
import Bweso.Proofs.Sbom
import Bweso.Spec.Bundle

/-! The checksum list of a release pins the release: a directory with the same list
that verifies holds the same manifest and the same assets. -/

namespace Bweso

open Py (Exc Value lit)

/-! ### Versions and names -/

/-- A character of a version. -/
def isReleaseChar (c : ℕ) : Bool := Py.isAlnum c || c == 45 || c == 46

theorem isDigit_of_isNumeral {s : Py.Str} (h : isNumeral s = true) {c : ℕ} (hc : c ∈ s) : Py.isDigit c = true := by
  cases s with
  | nil => simp at hc
  | cons d s =>
    simp only [isNumeral, Bool.or_eq_true, Bool.and_eq_true, beq_iff_eq, List.isEmpty_iff] at h
    rcases h with ⟨rfl, rfl⟩ | ⟨-, h⟩
    · obtain rfl := List.mem_singleton.mp hc
      rfl
    · exact List.all_eq_true.mp h c hc

theorem isReleaseChar_of_isVersion {version : Py.Str} (h : isVersion version = true) :
    ∀ c ∈ version, isReleaseChar c = true := by
  intro c hc
  simp only [isVersion, Bool.and_eq_true] at h
  obtain ⟨⟨-, hcore⟩, hpre⟩ := h
  rw [← version.takeWhile_append_dropWhile (p := fun x => x != 45), List.mem_append] at hc
  rcases hc with hc | hc
  · rcases Text.mem_of_splitOnP (p := (· == 46)) hc with h | ⟨piece, hpiece, hc⟩
    · simp [isReleaseChar, beq_iff_eq.mp h]
    · have hdigit := isDigit_of_isNumeral (List.all_eq_true.mp hcore piece hpiece) hc
      simp [isReleaseChar, Py.isAlnum, hdigit]
  · cases hdrop : version.dropWhile (fun x => x != 45) with
    | nil => simp [hdrop] at hc
    | cons d pre =>
      rw [hdrop] at hc hpre
      rcases List.mem_cons.mp hc with rfl | hc
      · have hd := List.head?_dropWhile_not (fun x => x != 45) version
        rw [hdrop] at hd
        simp_all [isReleaseChar]
      · rcases Text.mem_of_splitOnP (p := fun x => x == 46 || x == 45) hc with h | ⟨piece, hpiece, hc⟩
        · simp only [Bool.or_eq_true, beq_iff_eq] at h
          rcases h with rfl | rfl <;> simp [isReleaseChar]
        · have halnum := List.all_eq_true.mp hpre piece hpiece
          rw [Bool.and_eq_true] at halnum
          simp [isReleaseChar, List.all_eq_true.mp halnum.2 c hc]

/-- No line feed, and ASCII. -/
def IsPlain (s : Py.Str) : Prop := ∀ c ∈ s, c ≠ 10 ∧ c < 128

theorem IsPlain.append {s t : Py.Str} (hs : IsPlain s) (ht : IsPlain t) : IsPlain (s ++ t) := by
  intro c hc
  rcases List.mem_append.mp hc with hc | hc
  · exact hs c hc
  · exact ht c hc

theorem isPlain_of_isVersion {version : Py.Str} (h : isVersion version = true) : IsPlain version := by
  intro c hc
  have hchar := isReleaseChar_of_isVersion h c hc
  simp only [isReleaseChar, Py.isAlnum, Py.isDigit, Bool.or_eq_true, Bool.and_eq_true, decide_eq_true_eq,
    beq_iff_eq] at hchar
  omega

theorem isPlain_lit {s : String} (h : (lit s).all (fun c => c != 10 && c < 128) = true) : IsPlain (lit s) := by
  intro c hc
  simpa using List.all_eq_true.mp h c hc

def chartName (version : Py.Str) : Py.Str := lit "vaultwarden-eso-provider-" ++ version ++ lit ".tgz"

def archiveName (version arch : Py.Str) : Py.Str :=
  lit "vaultwarden-eso-provider-" ++ version ++ lit "-linux-" ++ arch ++ lit ".tar.gz"

def sbomName (arch : Py.Str) : Py.Str := lit "sbom-linux-" ++ arch ++ lit ".spdx.json"

/-- The assets of a version. -/
def assets (version : Py.Str) : List Py.Str :=
  [chartName version, lit "THIRD-PARTY-LICENSES.txt", lit "release-readiness.json",
    archiveName version (lit "amd64"), sbomName (lit "amd64"), archiveName version (lit "arm64"),
    sbomName (lit "arm64")]

theorem binaryName_eq_ok {version : Value} {arch name : Py.Str} : binaryName version arch = .ok name ↔
    ∃ v, version = .str v ∧ isVersion v = true ∧ arch ∈ arches.map Prod.fst ∧ name = archiveName v arch := by
  cases version with
  | str v =>
    simp only [binaryName, Except.bind_eq_ok, require_eq_ok, Except.ok.injEq, Value.str.injEq, exists_eq_left',
      exists_const, and_assoc]
    rw [archiveName, eq_comm (a := name)]
  | _ => simp [binaryName]

theorem assetNames_eq_ok {version : Value} {names : List Py.Str} : assetNames version = .ok names ↔
    ∃ v, version = .str v ∧ isVersion v = true ∧ names = assets v := by
  cases version with
  | str v =>
    simp only [assetNames, Except.bind_eq_ok, require_eq_ok, Value.str.injEq, exists_eq_left', exists_const]
    refine and_congr_right fun hv => ?_
    simp only [arches, List.mapM_cons, List.mapM_nil, binaryName, hv, List.map_cons, List.map_nil, List.mem_cons,
      true_or, or_true, and_self, require, if_true, Except.ok_bind, Except.pure_eq_ok, Except.ok.injEq,
      exists_eq_left', eq_comm (a := names)]
    rfl
  | _ => simp [assetNames]

theorem isPlain_name {version name : Py.Str} (hv : isVersion version = true)
    (h : name ∈ assets version ++ [BundleTools.manifestName]) : IsPlain name := by
  have hplain := isPlain_of_isVersion hv
  simp only [assets, List.cons_append, List.nil_append, List.mem_cons, List.not_mem_nil, or_false] at h
  rcases h with rfl | rfl | rfl | rfl | rfl | rfl | rfl | rfl
  · exact ((isPlain_lit (by decide)).append hplain).append (isPlain_lit (by decide))
  · exact isPlain_lit (by decide)
  · exact isPlain_lit (by decide)
  · exact ((((isPlain_lit (by decide)).append hplain).append (isPlain_lit (by decide))).append
      (isPlain_lit (by decide))).append (isPlain_lit (by decide))
  · exact ((isPlain_lit (by decide)).append (isPlain_lit (by decide))).append (isPlain_lit (by decide))
  · exact ((((isPlain_lit (by decide)).append hplain).append (isPlain_lit (by decide))).append
      (isPlain_lit (by decide))).append (isPlain_lit (by decide))
  · exact ((isPlain_lit (by decide)).append (isPlain_lit (by decide))).append (isPlain_lit (by decide))
  · exact isPlain_lit (by decide)

theorem lastFour_append {a b : Py.Str} (h : b.length = 4) : (a ++ b).drop ((a ++ b).length - 4) = b := by
  rw [List.length_append, h, Nat.add_sub_cancel, List.drop_left]

/-- Only the chart is a `.tgz`, so the names tell the version. -/
theorem chartName_mem {version version' : Py.Str}
    (h : chartName version ∈ assets version' ++ [BundleTools.manifestName]) : version = version' := by
  have hlast : (chartName version).drop ((chartName version).length - 4) = lit ".tgz" := lastFour_append (by decide)
  have hother : ∀ arch, (archiveName version' arch).drop ((archiveName version' arch).length - 4) ≠ lit ".tgz" := by
    intro arch
    have hsplit : archiveName version' arch = lit "vaultwarden-eso-provider-" ++ version' ++ lit "-linux-" ++ arch ++
        lit ".ta" ++ lit "r.gz" := by
      simp only [archiveName, List.append_assoc]
      rfl
    rw [hsplit, lastFour_append (by decide)]
    decide
  simp only [assets, List.cons_append, List.nil_append, List.mem_cons, List.not_mem_nil, or_false] at h
  rcases h with h | h | h | h | h | h | h | h
  · exact List.append_cancel_left (List.append_cancel_right h)
  · rw [h] at hlast; exact absurd hlast (by decide)
  · rw [h] at hlast; exact absurd hlast (by decide)
  · rw [h] at hlast; exact absurd hlast (hother _)
  · rw [h] at hlast; exact absurd hlast (by decide)
  · rw [h] at hlast; exact absurd hlast (hother _)
  · rw [h] at hlast; exact absurd hlast (by decide)
  · rw [h] at hlast; exact absurd hlast (by decide)

theorem head_vaultwarden {s : Py.Str} {t : String} (h : (lit t).head? ≠ some 118) :
    lit "vaultwarden-eso-provider-" ++ s ≠ lit t := by
  intro heq
  apply h
  rw [← heq]
  rfl

/-- The files the scripts write are no assets. -/
theorem written_not_asset {version name : Py.Str} (h : name ∈ assets version) :
    name ≠ BundleTools.manifestName ∧ name ≠ BundleTools.sumsName := by
  simp only [assets, List.mem_cons, List.not_mem_nil, or_false] at h
  rcases h with rfl | rfl | rfl | rfl | rfl | rfl | rfl
  · simp only [chartName, List.append_assoc]
    exact ⟨head_vaultwarden (by decide), head_vaultwarden (by decide)⟩
  · exact ⟨by decide, by decide⟩
  · exact ⟨by decide, by decide⟩
  · simp only [archiveName, List.append_assoc]
    exact ⟨head_vaultwarden (by decide), head_vaultwarden (by decide)⟩
  · exact ⟨by decide, by decide⟩
  · simp only [archiveName, List.append_assoc]
    exact ⟨head_vaultwarden (by decide), head_vaultwarden (by decide)⟩
  · exact ⟨by decide, by decide⟩

/-! ### What is read -/

section Reads

variable {tools : BundleTools} {version : Value} {s : Set Py.Str}

theorem readRegular_dependsOn {name : Py.Str} (h : name ∈ s) : DependsOn (fun d : Directory => readRegular d name) s := by
  intro d d' hsame
  simp only [readRegular, hsame name h]

theorem checkArchive_dependsOn {name arch : Py.Str} (h : name ∈ s) :
    DependsOn (fun d : Directory => checkArchive tools d name arch) s := by
  intro d d' hsame
  simp only [checkArchive, hsame name h]

namespace BundleTools

theorem inventoryRow_dependsOn {hashes : List (Py.Str × List (Py.Str × Py.Str))} {name : Py.Str} (h : name ∈ s) :
    DependsOn (fun d => tools.inventoryRow d version hashes name) s := by
  refine (readRegular_dependsOn h).bind fun data _ => ?_
  exact DependsOn.const _

/-- The inventory reads the readiness record and the assets of its version. -/
theorem inventory_dependsOn (hready : lit "release-readiness.json" ∈ s)
    (hs : ∀ names, assetNames version = .ok names → ∀ name ∈ names, name ∈ s) :
    DependsOn (fun d => tools.inventory d version) s := by
  refine (readRegular_dependsOn hready).bind fun ready _ => DependsOn.ofExcept fun readiness _ => ?_
  refine DependsOn.ofExcept fun scope _ => DependsOn.ofExcept fun qualified _ => DependsOn.ofExcept fun _ _ => ?_
  have harchive : ∀ {arch name}, binaryName version arch = .ok name → arch ∈ arches.map Prod.fst → name ∈ s := by
    intro arch name h harch
    obtain ⟨v, rfl, hv, -, rfl⟩ := binaryName_eq_ok.mp h
    apply hs _ (assetNames_eq_ok.mpr ⟨v, rfl, hv, rfl⟩)
    simp only [arches, List.map_cons, List.map_nil, List.mem_cons, List.not_mem_nil, or_false] at harch
    rcases harch with rfl | rfl <;> simp [assets]
  refine (DependsOn.mapM fun arch harch => ?_).bind fun hashes hhashes => ?_
  · refine DependsOn.ofExcept fun name hname => ?_
    exact (checkArchive_dependsOn (harchive hname (List.mem_map_of_mem harch))).bind fun _ _ => DependsOn.const _
  -- an archive was named, so the version is one
  have hvalid : ∃ v, version = .str v ∧ isVersion v = true := by
    obtain ⟨d, hd⟩ := hhashes
    obtain ⟨_, -, hfirst, -⟩ := List.forall₂_cons_left_iff.mp (Except.mapM_eq_ok.mp hd)
    obtain ⟨name, hname, -⟩ := Except.bind_eq_ok.mp hfirst
    obtain ⟨v, rfl, hv, -⟩ := binaryName_eq_ok.mp hname
    exact ⟨v, rfl, hv⟩
  obtain ⟨v, rfl, hv⟩ := hvalid
  have hassets := hs _ (assetNames_eq_ok.mpr ⟨v, rfl, hv, rfl⟩)
  refine (readRegular_dependsOn (hassets _ (by simp [assets]))).bind fun notices _ => DependsOn.ofExcept fun _ _ => ?_
  refine DependsOn.ofExcept fun names hnames => DependsOn.mapM fun name hname => ?_
  exact inventoryRow_dependsOn (hs names hnames name hname)

theorem manifest_dependsOn {revision image chart : Value} (hready : lit "release-readiness.json" ∈ s)
    (hs : ∀ names, assetNames version = .ok names → ∀ name ∈ names, name ∈ s) :
    DependsOn (fun d => tools.manifest d version revision image chart) s := by
  refine DependsOn.ofExcept fun _ _ => DependsOn.ofExcept fun _ _ => ?_
  refine DependsOn.ofExcept fun _ _ => DependsOn.ofExcept fun _ _ => ?_
  exact (inventory_dependsOn hready hs).bind fun _ _ => DependsOn.const _

theorem sums_dependsOn (hmanifest : manifestName ∈ s)
    (hs : ∀ names, assetNames version = .ok names → ∀ name ∈ names, name ∈ s) :
    DependsOn (fun d => tools.sums d version) s := by
  refine DependsOn.ofExcept fun names hnames => ?_
  refine (DependsOn.mapM fun name hname => ?_).bind fun _ _ => DependsOn.const _
  refine (readRegular_dependsOn ?_).bind fun _ _ => DependsOn.const _
  rcases List.mem_append.mp ((List.perm_insertionSort _ _).mem_iff.mp hname) with h | h
  · exact hs names hnames name h
  · rw [List.mem_singleton.mp h]
    exact hmanifest

/-- The version a directory's manifest records. -/
def recordedVersion (tools : BundleTools) (d : Directory) : Option Value := do
  match (do tools.loads (← readRegular d manifestName) : Except Exc Value) with
  | .ok (.dict m) => m.lookup (lit "version")
  | _ => none

/-- What `verify` reads, by the version recorded. -/
def consulted (version : Option Value) : Set Py.Str :=
  {name | name = sumsName ∨ name = manifestName ∨ name = lit "release-readiness.json" ∨
    ∃ v names, version = some v ∧ assetNames v = .ok names ∧ name ∈ names}

theorem verify_congr {d d' : Directory} (h : ∀ name ∈ consulted (tools.recordedVersion d), d name = d' name) :
    tools.verify d = tools.verify d' := by
  have hmanifest : readRegular d manifestName = readRegular d' manifestName :=
    readRegular_dependsOn (s := {manifestName}) rfl fun name hname => h name (Or.inr (Or.inl hname))
  unfold verify
  rw [← hmanifest]
  cases hr : (do tools.loads (← readRegular d manifestName) : Except Exc Value) with
  | error e =>
    rcases Except.bind_eq_error.mp hr with he | ⟨data, hdata, he⟩
    · simp [he]
    · simp [hdata, he]
  | ok record =>
    obtain ⟨data, hdata, hrecord⟩ := Except.bind_eq_ok.mp hr
    simp only [hdata, hrecord, Except.ok_bind]
    cases hshape : manifestShape record with
    | error e => rfl
    | ok m =>
      have hm : record = .dict m := by
        cases record with
        | dict m' =>
          simp only [manifestShape, Except.bind_eq_ok, Except.ok.injEq] at hshape
          obtain ⟨-, -, rfl⟩ := hshape
          rfl
        | list items =>
          simp only [manifestShape] at hshape
          split_ifs at hshape
        | _ => simp [manifestShape] at hshape
      simp only [Except.ok_bind]
      cases hversion : index m (lit "version") with
      | error e => rfl
      | ok version =>
        have hrecorded : tools.recordedVersion d = some version := by
          have hlookup : m.lookup (lit "version") = some version := by
            unfold index at hversion
            split at hversion
            · rename_i v hv
              rw [hv, Except.ok.inj hversion]
            · cases hversion
          simp only [recordedVersion, hr, hm, hlookup]
        have hs : ∀ names, assetNames version = .ok names → ∀ name ∈ names, name ∈ consulted (some version) :=
          fun names hnames name hname => Or.inr (Or.inr (Or.inr ⟨version, names, rfl, hnames, hname⟩))
        rw [hrecorded] at h
        have hsums : readRegular d sumsName = readRegular d' sumsName :=
          readRegular_dependsOn (s := consulted (some version)) (Or.inl rfl) h
        simp only [Except.ok_bind, hsums,
          manifest_dependsOn (Or.inr (Or.inr (Or.inl rfl))) hs h, sums_dependsOn (Or.inr (Or.inl rfl)) hs h]

end BundleTools

end Reads

/-! ### The checksum list -/

theorem readRegular_eq_ok {d : Directory} {name : Py.Str} {data : Bytes} : readRegular d name = .ok data ↔
    d name = some (.file data) ∧ 0 < data.length ∧ data.length ≤ maxFile := by
  unfold readRegular
  split
  · rename_i content h
    simp only [Except.bind_eq_ok, require_eq_ok, Except.ok.injEq, exists_const, h, Option.some.injEq, DirEntry.file.injEq]
    refine ⟨fun hr => ?_, fun hr => ?_⟩
    · obtain ⟨hlen, rfl⟩ := hr
      exact ⟨rfl, hlen⟩
    · obtain ⟨rfl, hlen⟩ := hr
      exact ⟨hlen, rfl⟩
  · rename_i h
    simp only [reduceCtorEq, false_iff, not_and]
    intro hd
    exact absurd hd (h data)

/-- The bytes of a file, none where there is no file. -/
def contentOf (d : Directory) (name : Py.Str) : Bytes :=
  match d name with
  | some (.file data) => data
  | _ => []

theorem contentOf_eq {d : Directory} {name : Py.Str} {data : Bytes} (h : readRegular d name = .ok data) :
    contentOf d name = data := by
  rw [contentOf, (readRegular_eq_ok.mp h).1]

namespace BundleTools

variable {tools : BundleTools} {d : Directory} {version : Value}

/-- The names of the checksum list. -/
def listedNames (version : Py.Str) : List Py.Str := Py.sorted (assets version ++ [manifestName])

theorem mem_listedNames {v name : Py.Str} : name ∈ listedNames v ↔ name ∈ assets v ++ [manifestName] :=
  (Py.perm_sorted _).mem_iff

/-- A line of the list, without its end. -/
def sumBody (tools : BundleTools) (d : Directory) (name : Py.Str) : Py.Str :=
  tools.hexdigest (contentOf d name) ++ (lit "  " ++ name)

def sumText (tools : BundleTools) (d : Directory) (names : List Py.Str) : Py.Str :=
  (names.map (tools.sumBody d)).flatMap (· ++ [10])

theorem sumLine_eq_ok {name line : Py.Str} : tools.sumLine d name = .ok line ↔
    (∃ data, readRegular d name = .ok data) ∧ line = tools.sumBody d name ++ [10] := by
  simp only [sumLine, Except.bind_eq_ok, Except.ok.injEq]
  refine ⟨fun h => ?_, fun h => ?_⟩
  · obtain ⟨data, hdata, rfl⟩ := h
    refine ⟨⟨data, hdata⟩, ?_⟩
    simp only [sumBody, contentOf_eq hdata, List.append_assoc]
  · obtain ⟨⟨data, hdata⟩, rfl⟩ := h
    refine ⟨data, hdata, ?_⟩
    simp only [sumBody, contentOf_eq hdata, List.append_assoc]

theorem sums_eq_ok {text : Py.Str} : tools.sums d version = .ok text ↔
    ∃ v, version = .str v ∧ isVersion v = true ∧ (∀ name ∈ listedNames v, ∃ data, readRegular d name = .ok data) ∧
      text = tools.sumText d (listedNames v) := by
  have hline : ∀ name line, tools.sumLine d name = .ok line → line = tools.sumBody d name ++ [10] :=
    fun name line h => (sumLine_eq_ok.mp h).2
  simp only [sums, Except.bind_eq_ok, Except.ok.injEq, assetNames_eq_ok, Except.mapM_eq_ok_map hline, sumLine_eq_ok]
  refine ⟨fun h => ?_, fun h => ?_⟩
  · obtain ⟨names, ⟨v, rfl, hv, rfl⟩, lines, ⟨hread, rfl⟩, rfl⟩ := h
    refine ⟨v, rfl, hv, fun name hname => ?_, ?_⟩
    · obtain ⟨_, hdata, -⟩ := hread name hname
      exact hdata
    · rw [sumText, List.flatMap_map]
      rfl
  · obtain ⟨v, rfl, hv, hread, rfl⟩ := h
    refine ⟨assets v, ⟨v, rfl, hv, rfl⟩, _, ⟨fun name hname => ⟨_, hread name hname, rfl⟩, rfl⟩, ?_⟩
    rw [sumText, List.flatMap_map]
    rfl

theorem isPlain_hexdigest (data : Bytes) : IsPlain (tools.hexdigest data) := by
  intro c hc
  have hhex := List.all_eq_true.mp (tools.hexdigest_hex data) c hc
  simp only [Py.isHexLower, Py.isDigit, Bool.or_eq_true, Bool.and_eq_true, decide_eq_true_eq] at hhex
  omega

theorem isPlain_sumBody {name : Py.Str} (h : IsPlain name) : IsPlain (tools.sumBody d name) :=
  (isPlain_hexdigest _).append ((isPlain_lit (by decide)).append h)

/-- The list is read apart line by line, and a line digit by digit: its text has the
names, and the digests of what stands under them. -/
theorem sumText_inj {d d' : Directory} {names names' : List Py.Str} (hnames : ∀ n ∈ names, IsPlain n)
    (hnames' : ∀ n ∈ names', IsPlain n) (h : tools.sumText d names = tools.sumText d' names') :
    names = names' ∧ ∀ n ∈ names, tools.hexdigest (contentOf d n) = tools.hexdigest (contentOf d' n) := by
  have hsplit : ∀ (d : Directory) (ns : List Py.Str), (∀ n ∈ ns, IsPlain n) →
      Text.splitInclusive 10 (tools.sumText d ns) = (ns.map (tools.sumBody d)).map (· ++ [10]) := by
    intro d ns hns
    apply Text.splitInclusive_flatMap
    intro body hbody hmem
    obtain ⟨n, hn, rfl⟩ := List.mem_map.mp hbody
    exact (isPlain_sumBody (hns n hn) 10 hmem).1 rfl
  have hlines := (hsplit d names hnames).symm.trans ((congrArg _ h).trans (hsplit d' names' hnames'))
  have hbodies : names.map (tools.sumBody d) = names'.map (tools.sumBody d') :=
    List.map_injective_iff.mpr (fun a b hab => List.append_cancel_right hab) hlines
  -- a digest has 64 digits and is followed by two spaces
  have hname : ∀ (d : Directory) (n : Py.Str), (tools.sumBody d n).drop 66 = n := by
    intro d n
    rw [sumBody, ← List.append_assoc]
    apply List.drop_left'
    rw [List.length_append, tools.hexdigest_length]
    rfl
  have hdigest : ∀ (d : Directory) (n : Py.Str), (tools.sumBody d n).take 64 = tools.hexdigest (contentOf d n) :=
    fun d n => List.take_left' (tools.hexdigest_length _)
  have heq : names = names' := by
    have hmapped := congrArg (List.map (List.drop 66)) hbodies
    simpa only [List.map_map, Function.comp_def, hname, List.map_id'] using hmapped
  subst heq
  refine ⟨rfl, fun n hn => ?_⟩
  rw [← hdigest d n, ← hdigest d' n, List.map_inj_left.mp hbodies n hn]

/-- The list tells the version. -/
theorem listedNames_inj {v v' : Py.Str} (h : listedNames v = listedNames v') : v = v' := by
  apply chartName_mem
  rw [← mem_listedNames, ← h, mem_listedNames]
  simp [assets]

theorem isPlain_listedNames {v : Py.Str} (hv : isVersion v = true) : ∀ n ∈ listedNames v, IsPlain n :=
  fun _ hn => isPlain_name hv (mem_listedNames.mp hn)

theorem isPlain_sumText_ascii {v : Py.Str} (hv : isVersion v = true) :
    ∀ c ∈ tools.sumText d (listedNames v), c < 128 := by
  intro c hc
  obtain ⟨body, hbody, hc⟩ := List.mem_flatMap.mp hc
  obtain ⟨n, hn, rfl⟩ := List.mem_map.mp hbody
  rcases List.mem_append.mp hc with hc | hc
  · exact (isPlain_sumBody (isPlain_listedNames hv n hn) c hc).2
  · rw [List.mem_singleton.mp hc]
    decide

theorem length_sumText (names : List Py.Str) :
    (tools.sumText d names).length = (names.map fun n => n.length + 67).sum := by
  induction names with
  | nil => rfl
  | cons n names ih =>
    rw [sumText, List.map_cons, List.flatMap_cons, List.length_append, ← sumText, ih, List.map_cons, List.sum_cons]
    simp only [sumBody, List.length_append, tools.hexdigest_length, lit, List.length_map, List.length_singleton]
    have hspaces : "  ".toList.length = 2 := rfl
    omega

/-! ### The manifest -/

/-- The row of an asset with this content. -/
def assetRow (tools : BundleTools) (name : Py.Str) (data : Bytes) : Value :=
  .dict [(lit "name", .str name), (lit "sha256", .str (tools.hexdigest data)), (lit "bytes", .int data.length)]

def assetRows (tools : BundleTools) (d : Directory) (v : Py.Str) : List Value :=
  (assets v).map fun name => tools.assetRow name (contentOf d name)

/-- The record of `manifest`. -/
def manifestRecord (version revision image chart : Value) (rows : List Value) : Value :=
  .dict [(lit "schemaVersion", .int 1), (lit "version", version), (lit "sourceRevision", revision),
    (lit "imageIndexDigest", image), (lit "ociChartDigest", chart), (lit "artifacts", .list rows)]

theorem inventoryRow_eq_ok {hashes : List (Py.Str × List (Py.Str × Py.Str))} {name : Py.Str} {row : Value}
    (h : tools.inventoryRow d version hashes name = .ok row) :
    row = tools.assetRow name (contentOf d name) := by
  obtain ⟨data, hdata, h⟩ := Except.bind_eq_ok.mp h
  rw [contentOf_eq hdata]
  split_ifs at h
  · obtain ⟨sbom, -, h⟩ := Except.bind_eq_ok.mp h
    obtain ⟨_, -, h⟩ := Except.bind_eq_ok.mp h
    exact (Except.ok.inj h).symm
  · exact (Except.ok.inj h).symm

theorem inventory_eq_ok {rows : List Value} (h : tools.inventory d version = .ok rows) :
    ∃ v, version = .str v ∧ isVersion v = true ∧ rows = tools.assetRows d v := by
  obtain ⟨_, -, h⟩ := Except.bind_eq_ok.mp h
  obtain ⟨readiness, -, h⟩ := Except.bind_eq_ok.mp h
  obtain ⟨scope, -, h⟩ := Except.bind_eq_ok.mp h
  obtain ⟨qualified, -, h⟩ := Except.bind_eq_ok.mp h
  obtain ⟨_, -, h⟩ := Except.bind_eq_ok.mp h
  obtain ⟨hashes, -, h⟩ := Except.bind_eq_ok.mp h
  obtain ⟨notices, -, h⟩ := Except.bind_eq_ok.mp h
  obtain ⟨_, -, h⟩ := Except.bind_eq_ok.mp h
  obtain ⟨names, hnames, h⟩ := Except.bind_eq_ok.mp h
  obtain ⟨v, rfl, hv, rfl⟩ := assetNames_eq_ok.mp hnames
  exact ⟨v, rfl, hv, ((Except.mapM_eq_ok_map fun _ _ => inventoryRow_eq_ok).mp h).2⟩

theorem manifest_eq_ok {revision image chart record : Value}
    (h : tools.manifest d version revision image chart = .ok record) :
    ∃ rows, tools.inventory d version = .ok rows ∧ record = manifestRecord version revision image chart rows := by
  obtain ⟨_, -, h⟩ := Except.bind_eq_ok.mp h
  obtain ⟨_, -, h⟩ := Except.bind_eq_ok.mp h
  obtain ⟨_, -, h⟩ := Except.bind_eq_ok.mp h
  obtain ⟨_, -, h⟩ := Except.bind_eq_ok.mp h
  obtain ⟨rows, hrows, h⟩ := Except.bind_eq_ok.mp h
  exact ⟨rows, hrows, (Except.ok.inj h).symm⟩

theorem eq_self_str (s : Py.Str) : (Value.str s).eq (.str s) = true := Py.Value.eq_str.mpr rfl

theorem eq_self_int (n : ℤ) : (Value.int n).eq (.int n) = true := by
  simp [Py.Value.eq, Py.Value.number?]

theorem eq_self_record {v revision image chart : Py.Str} :
    (manifestRecord (.str v) (.str revision) (.str image) (.str chart) (tools.assetRows d v)).eq
      (manifestRecord (.str v) (.str revision) (.str image) (.str chart) (tools.assetRows d v)) = true := by
  have hrows : ∀ row ∈ tools.assetRows d v, row.eq row = true := by
    intro row hrow
    obtain ⟨name, -, rfl⟩ := List.mem_map.mp hrow
    apply Py.Value.eq_dict_self
    · exact (by decide : [lit "name", lit "sha256", lit "bytes"].Nodup)
    simp only [List.forall_mem_cons, eq_self_str, eq_self_int, List.not_mem_nil, false_implies, implies_true, and_self]
  apply Py.Value.eq_dict_self
  · exact (by decide : [lit "schemaVersion", lit "version", lit "sourceRevision", lit "imageIndexDigest",
      lit "ociChartDigest", lit "artifacts"].Nodup)
  simp only [List.forall_mem_cons, eq_self_str, eq_self_int, Py.Value.eq_list_self hrows, List.not_mem_nil,
    false_implies, implies_true, and_self]

/-- The length of the line an asset's row stands for. -/
def lineLength : Value → ℕ
  | .dict ((_, .str name) :: _) => name.length + 67
  | _ => 0

/-- The checksum list is no longer than the manifest: each asset has a row there,
longer than its line. -/
theorem length_sumText_le {d' : Directory} {v : Py.Str} {revision image chart : Value} {data : Bytes}
    (hdata : tools.manifestBytes (manifestRecord (.str v) revision image chart (tools.assetRows d v)) = .ok data) :
    (tools.sumText d' (listedNames v)).length ≤ data.length := by
  -- a row is longer than its name and the rest of a line
  have hrow : ∀ level name content, name.length + 67 ≤
      (Py.dumps tools.floatRepr level (tools.assetRow name content)).length := by
    intro level name content
    have hname := Py.length_dumpsStr name
    have hhash := Py.length_dumpsStr (tools.hexdigest content)
    rw [tools.hexdigest_length] at hhash
    simp only [assetRow, Py.dumps, Py.dumpsMember, Py.dumpsMembers, List.length_cons, List.length_append]
    omega
  have hitems := @Py.length_dumps_list tools.floatRepr lineLength (tools.assetRows d v) (0 + 1) (by
    intro row hmem
    obtain ⟨name, -, rfl⟩ := List.mem_map.mp hmem
    exact hrow _ name _)
  have hsizes : (tools.assetRows d v).map lineLength = (assets v).map fun n => n.length + 67 := by
    rw [assetRows, List.map_map]
    rfl
  rw [hsizes] at hitems
  have htext := Py.length_encodeUtf8 hdata
  simp only [manifestRecord, Py.dumps, Py.dumpsMember, Py.dumpsMembers, List.length_cons, List.length_append] at htext
  have hperm : ((listedNames v).map fun n => n.length + 67).sum =
      ((assets v).map fun n => n.length + 67).sum + 88 := by
    rw [listedNames, ((Py.perm_sorted _).map _).sum_eq, List.map_append, List.sum_append]
    rfl
  rw [length_sumText, hperm]
  -- the keys alone make up for the manifest's own line
  have h1 : (Py.dumpsStr (lit "schemaVersion")).length = 15 := rfl
  have h2 : (Py.dumpsStr (lit "version")).length = 9 := rfl
  have h3 : (Py.dumpsStr (lit "sourceRevision")).length = 16 := rfl
  have h4 : (Py.dumpsStr (lit "imageIndexDigest")).length = 18 := rfl
  have h5 : (Py.dumpsStr (lit "ociChartDigest")).length = 16 := rfl
  have h6 : (Py.dumpsStr (lit "artifacts")).length = 11 := rfl
  have hcolon : (lit ": ").length = 2 := rfl
  omega

/-! ### Writing and verifying -/

theorem create_eq_ok {d d' : Directory} {name : Py.Str} {content : Except Exc Bytes}
    (h : create d name content = .ok d') :
    d name = none ∧ ∃ data, content = .ok data ∧ d' = d.write name data := by
  unfold create at h
  split at h
  · cases h
  · rename_i hnone
    obtain ⟨data, hdata, rfl⟩ := Except.map_eq_ok.mp h
    exact ⟨hnone, data, hdata, rfl⟩

theorem write_self (d : Directory) (name : Py.Str) (data : Bytes) : d.write name data name = some (.file data) :=
  Function.update_self _ _ _

theorem write_ne (d : Directory) {name name' : Py.Str} (data : Bytes) (h : name' ≠ name) :
    d.write name data name' = d name' :=
  Function.update_of_ne h _ _

/-- What `write_bundle` did when it returned. -/
structure Wrote (tools : BundleTools) (d d' : Directory) (v revision image chart : Py.Str) (data sums : Bytes) : Prop where
  valid : isVersion v = true
  manifest : tools.manifest d (.str v) (.str revision) (.str image) (.str chart) =
    .ok (manifestRecord (.str v) (.str revision) (.str image) (.str chart) (tools.assetRows d v))
  bytes : tools.manifestBytes
    (manifestRecord (.str v) (.str revision) (.str image) (.str chart) (tools.assetRows d v)) = .ok data
  readable : ∀ name ∈ listedNames v, ∃ content, readRegular d' name = .ok content
  encoded : Py.encodeAscii (tools.sumText d' (listedNames v)) = .ok sums
  manifest_file : d' manifestName = some (.file data)
  sums_file : d' sumsName = some (.file sums)
  kept : ∀ name ∈ assets v, d' name = d name

theorem wrote {d' : Directory} {v revision image chart : Py.Str}
    (h : tools.writeBundle d v revision image chart = .ok d') :
    ∃ data sums, tools.Wrote d d' v revision image chart data sums := by
  obtain ⟨record, hmanifest, h⟩ := Except.bind_eq_ok.mp h
  obtain ⟨d₁, hd₁, h⟩ := Except.bind_eq_ok.mp h
  obtain ⟨-, data, hdata, rfl⟩ := create_eq_ok hd₁
  obtain ⟨-, sums, hsums, rfl⟩ := create_eq_ok h
  obtain ⟨text, htext, hencode⟩ := Except.bind_eq_ok.mp hsums
  obtain ⟨rows, hrows, rfl⟩ := manifest_eq_ok hmanifest
  obtain ⟨_, hv, hvalid, rfl⟩ := inventory_eq_ok hrows
  obtain rfl := Value.str.inj hv
  obtain ⟨_, hv, -, hread, rfl⟩ := sums_eq_ok.mp htext
  obtain rfl := Value.str.inj hv
  -- the list itself is written last, and is none of the names in it
  have hlast : ∀ name ∈ listedNames v, ((d.write manifestName data).write sumsName sums) name =
      (d.write manifestName data) name := by
    intro name hname
    apply write_ne
    rcases List.mem_append.mp (mem_listedNames.mp hname) with h | h
    · exact (written_not_asset h).2
    · rw [List.mem_singleton.mp h]
      decide
  have hsame : tools.sumText (d.write manifestName data) (listedNames v) =
      tools.sumText ((d.write manifestName data).write sumsName sums) (listedNames v) := by
    have hbodies : (listedNames v).map (tools.sumBody (d.write manifestName data)) =
        (listedNames v).map (tools.sumBody ((d.write manifestName data).write sumsName sums)) := by
      refine List.map_congr_left fun name hname => ?_
      simp only [sumBody, contentOf, hlast name hname]
    rw [sumText, sumText, hbodies]
  refine ⟨data, sums, hvalid, hmanifest, hdata, fun name hname => ?_, hsame ▸ hencode, ?_, write_self _ _ _,
    fun name hname => ?_⟩
  · obtain ⟨content, hcontent⟩ := hread name hname
    refine ⟨content, ?_⟩
    rw [readRegular_eq_ok, hlast name hname]
    exact readRegular_eq_ok.mp hcontent
  · rw [write_ne _ _ (by decide)]
    exact write_self _ _ _
  · rw [write_ne _ _ (written_not_asset hname).2, write_ne _ _ (written_not_asset hname).1]

theorem index_eq_ok {α : Type} {m : List (Py.Str × α)} {key : Py.Str} {v : α} :
    index m key = .ok v ↔ m.lookup key = some v := by
  unfold index
  split <;> simp [*]

theorem manifestShape_record {version revision image chart : Value} {rows : List Value} :
    ∃ m, manifestRecord version revision image chart rows = .dict m ∧
      manifestShape (manifestRecord version revision image chart rows) = .ok m ∧
      index m (lit "version") = .ok version ∧ index m (lit "sourceRevision") = .ok revision ∧
      index m (lit "imageIndexDigest") = .ok image ∧ index m (lit "ociChartDigest") = .ok chart := by
  refine ⟨_, rfl, ?_, rfl, rfl, rfl, rfl⟩
  rw [manifestRecord, manifestShape, Except.bind_eq_ok]
  exact ⟨(), require_eq_ok.mpr ⟨rfl, eq_self_int 1⟩, rfl⟩

/-- What was written verifies. -/
theorem Wrote.verify {d' : Directory} {v revision image chart : Py.Str} {data sums : Bytes}
    (h : tools.Wrote d d' v revision image chart data sums)
    (hround : tools.loads data =
      .ok (manifestRecord (.str v) (.str revision) (.str image) (.str chart) (tools.assetRows d v))) :
    tools.verify d' = .ok () := by
  obtain ⟨m, -, hshape, hversion, hrevision, himage, hchart⟩ :=
    @manifestShape_record (.str v) (.str revision) (.str image) (.str chart) (tools.assetRows d v)
  have hlisted : manifestName ∈ listedNames v := by simp [mem_listedNames]
  obtain ⟨content, hcontent⟩ := h.readable manifestName hlisted
  obtain ⟨hfile, hpos, hmax⟩ := readRegular_eq_ok.mp hcontent
  rw [h.manifest_file, Option.some.injEq, DirEntry.file.injEq] at hfile
  subst hfile
  -- the inventory reads the assets, which stand as they stood
  have hassets : ∀ names, assetNames (.str v) = .ok names → ∀ name ∈ names, name ∈ {n | n ∈ assets v} := by
    intro names hnames name hname
    obtain ⟨_, hv, -, rfl⟩ := assetNames_eq_ok.mp hnames
    obtain rfl := Value.str.inj hv
    exact hname
  have hmanifest : tools.manifest d' (.str v) (.str revision) (.str image) (.str chart) =
      tools.manifest d (.str v) (.str revision) (.str image) (.str chart) :=
    manifest_dependsOn (s := {n | n ∈ assets v}) (by simp [assets]) hassets h.kept
  -- the list is readable: it has a line, and the manifest is longer
  have hlength : (tools.sumText d' (listedNames v)).length ≤ data.length := length_sumText_le h.bytes
  obtain ⟨hascii, hsums⟩ := Py.encodeAscii_eq_ok.mp h.encoded
  have hsumsLength : sums.length = (tools.sumText d' (listedNames v)).length := by rw [hsums, List.length_map]
  have hline : 67 ≤ (tools.sumText d' (listedNames v)).length := by
    rw [length_sumText]
    calc 67 ≤ manifestName.length + 67 := Nat.le_add_left _ _
      _ ≤ _ := List.single_le_sum (by simp) _ (List.mem_map_of_mem (f := fun n => n.length + 67) hlisted)
  have hreadSums : readRegular d' sumsName = .ok sums := readRegular_eq_ok.mpr ⟨h.sums_file, by omega, by omega⟩
  have htext : tools.sums d' (.str v) = .ok (tools.sumText d' (listedNames v)) :=
    sums_eq_ok.mpr ⟨v, rfl, h.valid, h.readable, rfl⟩
  unfold BundleTools.verify
  simp only [hcontent, hround, hshape, hversion, hrevision, himage, hchart, Except.ok_bind, hmanifest, h.manifest,
    require, eq_self_record, if_true, htext, hreadSums, Py.decodeAscii_encodeAscii h.encoded]

/-- The files of a directory. -/
def contents (d : Directory) : Set Bytes := {data | ∃ name, d name = some (.file data)}

/-- A directory that verifies under the same list holds the same files. -/
theorem Wrote.agrees {d' x : Directory} {v revision image chart : Py.Str} {data sums : Bytes}
    (h : tools.Wrote d d' v revision image chart data sums) (hsums : x sumsName = d' sumsName)
    (hinj : Set.InjOn tools.hexdigest (contents d' ∪ contents x)) (hx : tools.verify x = .ok ()) :
    ∀ name ∈ listedNames v, x name = d' name := by
  obtain ⟨_, -, hx⟩ := Except.bind_eq_ok.mp hx
  obtain ⟨record, -, hx⟩ := Except.bind_eq_ok.mp hx
  obtain ⟨m, -, hx⟩ := Except.bind_eq_ok.mp hx
  obtain ⟨version', -, hx⟩ := Except.bind_eq_ok.mp hx
  obtain ⟨revision', -, hx⟩ := Except.bind_eq_ok.mp hx
  obtain ⟨image', -, hx⟩ := Except.bind_eq_ok.mp hx
  obtain ⟨chart', -, hx⟩ := Except.bind_eq_ok.mp hx
  obtain ⟨expected, -, hx⟩ := Except.bind_eq_ok.mp hx
  obtain ⟨_, -, hx⟩ := Except.bind_eq_ok.mp hx
  obtain ⟨text, htext, hx⟩ := Except.bind_eq_ok.mp hx
  obtain ⟨list, hlist, hx⟩ := Except.bind_eq_ok.mp hx
  obtain ⟨written, hwritten, hx⟩ := Except.bind_eq_ok.mp hx
  obtain rfl := require_eq_ok.mp hx
  obtain ⟨v', rfl, hv', hread, htext⟩ := sums_eq_ok.mp htext
  obtain ⟨hfile, -⟩ := readRegular_eq_ok.mp hlist
  rw [hsums, h.sums_file, Option.some.injEq, DirEntry.file.injEq] at hfile
  subst hfile
  rw [Py.decodeAscii_encodeAscii h.encoded, Except.ok.injEq, htext] at hwritten
  obtain ⟨hnames, hdigests⟩ := sumText_inj (isPlain_listedNames h.valid) (isPlain_listedNames hv') hwritten
  intro name hname
  obtain ⟨content, hcontent⟩ := h.readable name hname
  obtain ⟨content', hcontent'⟩ := hread name (hnames ▸ hname)
  have hdigest := hdigests name hname
  rw [contentOf_eq hcontent, contentOf_eq hcontent'] at hdigest
  have hfile := (readRegular_eq_ok.mp hcontent).1
  have hfile' := (readRegular_eq_ok.mp hcontent').1
  rw [hfile, hfile', hinj (Or.inl ⟨name, hfile⟩) (Or.inr ⟨name, hfile'⟩) hdigest]

end BundleTools

open BundleTools in
/-- The directory `write_bundle` leaves verifies; any directory with the same checksum
list that verifies has the same manifest, the same assets and so the same version;
and no other file is looked at. The digests are taken to tell the files of the two
directories apart, and the manifest to be read back as it was written. -/
theorem bundle_pinned (tools : BundleTools) {directory written : Directory} {version revision image chart : Py.Str}
    (hwrite : tools.writeBundle directory version revision image chart = .ok written)
    (hround : ∀ record data, tools.manifest directory (.str version) (.str revision) (.str image) (.str chart) =
      .ok record → tools.manifestBytes record = .ok data → tools.loads data = .ok record) :
    tools.verify written = .ok () ∧
    (∃ names, assetNames (.str version) = .ok names ∧
      ∀ x : Directory, x sumsName = written sumsName → Set.InjOn tools.hexdigest (contents written ∪ contents x) →
        tools.verify x = .ok () → (∀ name ∈ manifestName :: names, x name = written name) ∧
          tools.recordedVersion x = some (.str version)) ∧
    ∀ x y : Directory, (∀ name ∈ consulted (tools.recordedVersion x), x name = y name) →
      tools.verify x = tools.verify y := by
  obtain ⟨data, sums, h⟩ := wrote hwrite
  have hloads := hround _ _ h.manifest h.bytes
  refine ⟨h.verify hloads, ⟨assets version, assetNames_eq_ok.mpr ⟨version, rfl, h.valid, rfl⟩, ?_⟩, fun x y hxy => ?_⟩
  · intro x hsums hinj hx
    have hsame := h.agrees hsums hinj hx
    refine ⟨fun name hname => hsame name ?_, ?_⟩
    · rw [mem_listedNames, List.mem_append]
      rcases List.mem_cons.mp hname with rfl | hname
      · exact Or.inr List.mem_cons_self
      · exact Or.inl hname
    · have hlisted : manifestName ∈ listedNames version := by simp [mem_listedNames]
      obtain ⟨content, hcontent⟩ := h.readable manifestName hlisted
      have hread : readRegular x manifestName = .ok content := by
        rw [readRegular_eq_ok, hsame manifestName hlisted]
        exact readRegular_eq_ok.mp hcontent
      have hfile := (readRegular_eq_ok.mp hcontent).1
      rw [h.manifest_file, Option.some.injEq, DirEntry.file.injEq] at hfile
      subst hfile
      simp only [recordedVersion, hread, Except.ok_bind, hloads]
      rfl
  · exact verify_congr hxy

/-! ### A small release

Its contents are written as numbers where they are not text. -/

/-- The bytes of a number, the highest first. -/
def bytesOf (length n : ℕ) : Bytes :=
  (List.range length).map fun i => UInt8.ofNat (n / 256 ^ (length - 1 - i) % 256)

/-- The hexadecimal digits of a digest. -/
def digestOf (n : ℕ) : Py.Str := (List.range 64).map fun i => Py.hexDigit (n / 16 ^ (63 - i) % 16)

def sampleVersion : Py.Str := lit "0.5.0"

/-- A header alone, for a machine. -/
def sampleElf (machine : UInt8) : Bytes :=
  [127, 69, 76, 70, 2, 1] ++ List.replicate 12 0 ++ [machine, 0] ++ List.replicate 44 0

def sampleElfDigest (machine : UInt8) : Py.Str :=
  digestOf (if machine = 62 then 0x175f7c04d8aba899227b47bb38b83e24dff845172c703589e27b398b6d4989f6
    else 0x6c86bf9edbe9ca8986850357a936a45855a98b64425cd8f864a896fcd6bacc88)

/-- The three members in a compressed archive, for each machine. -/
def sampleArchive (machine : UInt8) : Bytes :=
  if machine = 62 then
    bytesOf 48 0x1f8b08000000000002ffedd4b10a82501480e15b4fd20b1859a65b1065244884ba344ade41100dbd595bafdead160bda ++
      bytesOf 48 0xca08ff6f3997b3dce93fbeb77037a12bbe69a4d996759fdaebd49cc6fbb6b71dcb11839168c1b15271a9bf14dd94a57b ++
      bytesOf 48 0x995752a09ba2b5172c8ded3c887686ffb805e1509dd54ffb374d6b3aa5ff36e485d217a022848eaae363a64e7199c8dc ++
      bytesOf 48 0x9055611ccaa24e13597eba7f4707fdae7ff3e916dcfa1fdb9331fdb7e1e2faab7eafb999110500000000000000000000 ++
      bytesOf 11 0xfca12b17b1a2d400280000
  else
    bytesOf 48 0x1f8b08000000000002ffedd4cb0a82401480e1a927e9050c352feb28a34022d44d4ba95908a2a1d365d763f57a4db5b1 ++
      bytesOf 48 0xa05d19e1ff6dce7036b3fa4fb89804cb3810df646a9ee3dca7f63a35bff1beed3ddff1c5c0142dd8d72aadf497a29bf2 ++
      bytesOf 48 0x6c238b5a0a7453325f445363358e92b5113e6e413c5427f5d3fe2dcb715dfa6f43512a7d016a42e8a843bacfd531adb6 ++
      bytesOf 48 0xb230645d1abbaa3c645b597dba7f5f07fdae7febe916dcfab7bd914dff6d3807e1acdf6b6e2e44010000000000000000 ++
      bytesOf 13 0x00007fe80ad15852e800280000

def sampleMembers (machine : UInt8) : List (Except Exc TarEntry) :=
  [.ok ⟨lit "LICENSE", true, 7, 0o644, some (.ok (bytesOf 7 0x6c6963656e7365))⟩,
    .ok ⟨lit "THIRD-PARTY-LICENSES.txt", true, 7, 0o644, some (.ok (bytesOf 7 0x6e6f7469636573))⟩,
    .ok ⟨lit "vaultwarden-eso-provider", true, 64, 0o755, some (.ok (sampleElf machine))⟩]

def sampleReadiness : Value :=
  .dict [(lit "schemaVersion", .int 2), (lit "targetVersion", .str sampleVersion),
    (lit "releaseScope", .str (lit "vaultwarden-only")),
    (lit "cloud", .dict [(lit "status", .str (lit "deferred")), (lit "issue", .int 75)])]

def sampleSbom (arch : String) (machine : UInt8) : Value :=
  .dict [(lit "spdxVersion", .str (lit "SPDX-2.3")), (lit "SPDXID", .str (lit "SPDXRef-DOCUMENT")),
    (lit "name", .str (lit "provider-linux-" ++ lit arch)),
    (lit "packages", .list [
      .dict [(lit "SPDXID", .str (lit "SPDXRef-ProviderBinary")), (lit "versionInfo", .str sampleVersion),
        (lit "checksums", .list [.dict [(lit "algorithm", .str (lit "SHA256")),
          (lit "checksumValue", .str (sampleElfDigest machine))]])],
      .dict [(lit "SPDXID", .str (lit "SPDXRef-Source"))]])]

/-- A value as `json.dumps(.., indent=2)` writes it. -/
def dumpedBytes (v : Value) : Bytes := (Py.dumps (fun _ => []) 0 v).map UInt8.ofNat

/-- The assets, with their digests. -/
def sampleFiles : List (Py.Str × Bytes × Py.Str) :=
  [(chartName sampleVersion, bytesOf 5 0x6368617274,
      digestOf 0xcc57fc1903e444cf6a726490b43b27ee9f87facc037f86872201847c565b45fb),
    (lit "THIRD-PARTY-LICENSES.txt", bytesOf 7 0x6e6f7469636573,
      digestOf 0x7367ab9a454559025d4d8ee2241d74682674f0e62c344695d23cfb2f080dd0a9),
    (lit "release-readiness.json", dumpedBytes sampleReadiness,
      digestOf 0xb795c0d0f91ced28088ff26f0adbb93580fe8a56a54ae213b93f798e485dafea),
    (archiveName sampleVersion (lit "amd64"), sampleArchive 62,
      digestOf 0x4a45c12dc122445832ae075b7fcbcae957fa9460c5bb0442fd3196bc9fcd24fb),
    (sbomName (lit "amd64"), dumpedBytes (sampleSbom "amd64" 62),
      digestOf 0x63c5628f7c457f0da18fe1c2060e6c19b124154bef474478f0a6d86af4f15eff),
    (archiveName sampleVersion (lit "arm64"), sampleArchive 183,
      digestOf 0xfde007a1bb319837e762f8fe03feda2b7e663ac88217861852e2c7c8654e7f0c),
    (sbomName (lit "arm64"), dumpedBytes (sampleSbom "arm64" 183),
      digestOf 0xec6677057ab62da1dfcf212a3bb11cf6cb6e90169e16ca5356be406b15705403)]

def sampleRevision : Py.Str := List.replicate 40 97

def sampleImage : Py.Str := lit "sha256:" ++ List.replicate 64 98

def sampleChart : Py.Str := lit "sha256:" ++ List.replicate 64 99

def sampleRecord : Value :=
  BundleTools.manifestRecord (.str sampleVersion) (.str sampleRevision) (.str sampleImage) (.str sampleChart)
    (sampleFiles.map fun file =>
      .dict [(lit "name", .str file.1), (lit "sha256", .str file.2.2), (lit "bytes", .int file.2.1.length)])

def sampleManifestBytes : Bytes := (Py.dumps (fun _ => []) 0 sampleRecord ++ [10]).map UInt8.ofNat

def sampleDigests : List (Bytes × Py.Str) :=
  sampleFiles.map Prod.snd ++
    [(sampleElf 62, sampleElfDigest 62), (sampleElf 183, sampleElfDigest 183),
      (bytesOf 7 0x6c6963656e7365, digestOf 0xcc1d3b0234846714b0aeda6cc34b057b4305bb83dd447fb88f816efeb59a4e96),
      (sampleManifestBytes, digestOf 0x6ffbf342b7ca6c0f58d0b5973dbc35956f4f8d38a6e9b3f00feecb0b234de3f9)]

def sampleHexdigest (data : Bytes) : Py.Str :=
  ((sampleDigests.find? (·.1 = data)).map Prod.snd).getD (digestOf 0)

theorem sampleDigests_hex : ∀ digest ∈ sampleDigests.map Prod.snd, (digest.length == 64 && digest.all Py.isHexLower) = true :=
  List.all_eq_true.mp (by decide)

theorem sampleHexdigest_hex (data : Bytes) :
    (sampleHexdigest data).length = 64 ∧ (sampleHexdigest data).all Py.isHexLower = true := by
  have hmem : sampleHexdigest data ∈ digestOf 0 :: sampleDigests.map Prod.snd := by
    unfold sampleHexdigest
    cases hfind : sampleDigests.find? (·.1 = data) with
    | none => exact List.mem_cons_self
    | some entry => exact List.mem_cons_of_mem _ (List.mem_map_of_mem (List.mem_of_find?_eq_some hfind))
  rcases List.mem_cons.mp hmem with h | h
  · rw [h]
    exact ⟨by decide, by decide⟩
  · simpa using sampleDigests_hex _ h

/-- SHA-256, `json.loads` and `tarfile` on what this release holds. -/
def sampleTools : BundleTools where
  hexdigest := sampleHexdigest
  hexdigest_length data := (sampleHexdigest_hex data).1
  hexdigest_hex data := (sampleHexdigest_hex data).2
  loads data :=
    if data = dumpedBytes sampleReadiness then .ok sampleReadiness
    else if data = dumpedBytes (sampleSbom "amd64" 62) then .ok (sampleSbom "amd64" 62)
    else if data = dumpedBytes (sampleSbom "arm64" 183) then .ok (sampleSbom "arm64" 183)
    else if data = sampleManifestBytes then .ok sampleRecord
    else .error .jsonDecodeError
  untar data :=
    if data = sampleArchive 62 then sampleMembers 62
    else if data = sampleArchive 183 then sampleMembers 183
    else [.error .other]
  floatRepr _ := []

def sampleDirectory : Directory := fun name => (sampleFiles.lookup name).map fun file => .file file.1

theorem sampleRows : sampleTools.assetRows sampleDirectory sampleVersion = sampleFiles.map fun file =>
    .dict [(lit "name", .str file.1), (lit "sha256", .str file.2.2), (lit "bytes", .int file.2.1.length)] := by
  have hrows : (assets sampleVersion).map (fun name =>
      (name, sampleHexdigest (contentOf sampleDirectory name), (contentOf sampleDirectory name).length)) =
      sampleFiles.map fun file => (file.1, file.2.2, file.2.1.length) := by
    decide +kernel
  have hvalues := congrArg (List.map fun row : Py.Str × Py.Str × ℕ =>
    Value.dict [(lit "name", .str row.1), (lit "sha256", .str row.2.1), (lit "bytes", .int row.2.2)]) hrows
  rw [List.map_map, List.map_map] at hvalues
  exact hvalues

theorem bundle_pinned_sample :
    ∃ written, sampleTools.writeBundle sampleDirectory sampleVersion sampleRevision sampleImage sampleChart =
      .ok written ∧ sampleTools.verify written = .ok () := by
  have hok : (sampleTools.writeBundle sampleDirectory sampleVersion sampleRevision sampleImage sampleChart).isOk =
      true := by
    decide +kernel
  cases hwrite : sampleTools.writeBundle sampleDirectory sampleVersion sampleRevision sampleImage sampleChart with
  | error e => simp [hwrite, Except.isOk, Except.toBool] at hok
  | ok written =>
    refine ⟨written, rfl, (bundle_pinned sampleTools hwrite fun record data hmanifest hdata => ?_).1⟩
    obtain ⟨rows, hrows, rfl⟩ := BundleTools.manifest_eq_ok hmanifest
    obtain ⟨_, hv, -, rfl⟩ := BundleTools.inventory_eq_ok hrows
    obtain rfl := Value.str.inj hv
    rw [sampleRows] at hdata ⊢
    have hascii : Py.IsAscii (Py.dumps (fun _ => []) 0 sampleRecord ++ [10]) :=
      (Py.isAscii_dumps (fun _ => Py.isAscii_nil) 0 sampleRecord).append (Py.IsAscii.cons (by omega) Py.isAscii_nil)
    have hbytes : data = sampleManifestBytes := Except.ok.inj (hdata.symm.trans (Py.encodeUtf8_ascii hascii))
    have hloads : sampleTools.loads sampleManifestBytes = .ok sampleRecord := by
      have hne : sampleManifestBytes ≠ dumpedBytes sampleReadiness ∧
          sampleManifestBytes ≠ dumpedBytes (sampleSbom "amd64" 62) ∧
          sampleManifestBytes ≠ dumpedBytes (sampleSbom "arm64" 183) := by
        decide
      simp only [sampleTools, if_neg hne.1, if_neg hne.2.1, if_neg hne.2.2, if_true]
    rw [hbytes]
    exact hloads

end Bweso
