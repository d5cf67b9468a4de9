import Bweso.Spec.ImageIdentity

/-! What an accepted pair of image references says about the registry: one
configuration for the native platform, reached from both through objects that
were all checked against their digests. -/

namespace Bweso

open Py

/-! ### Objects and hops -/

/-- The bytes of an object, checked against the digest they were asked by. -/
structure Content.Verified (content : Content) (digest : Py.Str) (raw : Bytes) (manifest : Dict) : Prop where
  size : raw.length ≤ 1024 * 1024
  hash : lit "sha256:" ++ content.hexdigest raw = digest
  parsed : content.loads raw = .ok (.dict manifest)

/-- The configuration of the native platform. -/
structure IsConfig (arch : Py.Str) (manifest : Dict) : Prop where
  architecture : manifest.lookup (lit "architecture") = some (.str arch)
  os : manifest.lookup (lit "os") = some (.str (lit "linux"))

/-- A descriptor of the native platform. -/
def NativeItem (arch : Py.Str) (item : Dict) : Prop :=
  ∃ platform, item.lookup (lit "platform") = some (.dict platform) ∧
    platform.lookup (lit "architecture") = some (.str arch) ∧ platform.lookup (lit "os") = some (.str (lit "linux"))

def PlatformlessItem (item : Dict) : Prop := item.lookup (lit "platform") = none

/-- `item` stands in `manifests`, and no other one with the property does. -/
def Unique (manifest : Dict) (P : Dict → Prop) (item : Dict) : Prop :=
  ∃ pre post, manifest.lookup (lit "manifests") = some (.list (pre ++ .dict item :: post)) ∧ P item ∧
    ∀ v ∈ pre ++ post, ∃ other, v = .dict other ∧ ¬ P other

/-- An object names `next` by the `digest` member of `d`. -/
def Names (d : Dict) (next : Py.Str) : Prop :=
  ∃ s, d.lookup (lit "digest") = some (.str s) ∧ canonicalDigest s = .ok next

/-- How one object leads to the next. -/
inductive Hop (arch : Py.Str) (manifest : Dict) (next : Py.Str) : Prop
  | config {config : Dict} (hconfig : manifest.lookup (lit "config") = some (.dict config)) (hnext : Names config next)
  | native {item : Dict} (hitem : Unique manifest (NativeItem arch) item) (hnext : Names item next)
  | platformless {item : Dict} (hitem : Unique manifest PlatformlessItem item) (hnext : Names item next)
      (hnone : ∀ items, manifest.lookup (lit "manifests") = some (.list items) →
        ∀ v ∈ items, ∃ other, v = .dict other ∧ ¬ NativeItem arch other)

/-- From `digest` to the configuration `last` in a number of hops, every object on
the way verified. -/
inductive Content.Chain (content : Content) (arch : Py.Str) (last : Py.Str) : ℕ → Py.Str → Prop
  | stop {raw : Bytes} {manifest : Dict} (h : content.Verified last raw manifest) (hconfig : IsConfig arch manifest) :
      Chain content arch last 0 last
  | hop {n : ℕ} {digest next : Py.Str} {raw : Bytes} {manifest : Dict} (h : content.Verified digest raw manifest)
      (hhop : Hop arch manifest next) (hrest : Chain content arch last n next) : Chain content arch last (n + 1) digest

/-! ### One object -/

theorem any_eq_str {v? : Option Value} {s : Py.Str} : v?.any (·.eq (.str s)) = true ↔ v? = some (.str s) := by
  cases v? with
  | none => simp
  | some v => rw [Option.any_some, Value.eq_str, Option.some.injEq]

theorem isNative_eq_true {arch : Py.Str} {v : Value} :
    isNative arch v = .ok true ↔ ∃ item, v = .dict item ∧ NativeItem arch item := by
  cases v
  case dict item =>
    unfold isNative NativeItem
    cases hp : item.lookup (lit "platform") with
    | none => simp [hp]
    | some platform => cases platform <;> simp [hp, any_eq_str]
  all_goals simp [isNative]

theorem isNative_ok {arch : Py.Str} {v : Value} {b : Bool} (h : isNative arch v = .ok b) : ∃ item, v = .dict item := by
  cases v
  case dict item => exact ⟨item, rfl⟩
  all_goals cases h

theorem canonicalDigestOf_eq_ok {v : Value} {next : Py.Str} :
    canonicalDigestOf v = .ok next ↔ ∃ s, v = .str s ∧ canonicalDigest s = .ok next := by
  cases v <;> simp [canonicalDigestOf]

theorem itemDigest_dict {item : Dict} {next : Py.Str} (h : itemDigest (.dict item) = .ok next) : Names item next := by
  unfold itemDigest at h
  cases hd : item.lookup (lit "digest") with
  | none => simp [hd] at h
  | some digest =>
    simp only [hd] at h
    obtain ⟨s, rfl, hs⟩ := canonicalDigestOf_eq_ok.mp h
    exact ⟨s, hd, hs⟩

/-- A filter that leaves one item. -/
theorem filter_eq_singleton {p : Value → Bool} {xs : List Value} {x : Value} (h : xs.filter p = [x]) :
    ∃ pre post, xs = pre ++ x :: post ∧ p x = true ∧ ∀ v ∈ pre ++ post, p v = false := by
  obtain ⟨pre, post, rfl, hpre, hx, hpost⟩ := List.filter_eq_cons_iff.mp h
  refine ⟨pre, post, rfl, hx, fun v hv => ?_⟩
  rcases List.mem_append.mp hv with hv | hv
  · simpa using hpre v hv
  · simpa using List.filter_eq_nil_iff.mp hpost v hv

/-- Only a list has objects for items. -/
theorem iter_eq_list {v x : Value} {xs : List Value} (h : iter v = .ok xs) (hx : x ∈ xs)
    (hdicts : ∀ x ∈ xs, ∃ item, x = .dict item) : v = .list xs := by
  obtain ⟨item, rfl⟩ := hdicts x hx
  cases v
  case list items => rw [Except.ok.inj h]
  case dict members =>
    obtain rfl := Except.ok.inj h
    obtain ⟨kv, -, hkv⟩ := List.mem_map.mp hx
    cases hkv
  case str s =>
    obtain rfl := Except.ok.inj h
    obtain ⟨c, -, hc⟩ := List.mem_map.mp hx
    cases hc
  all_goals cases h

theorem isPlatformless_dict {item : Dict} : isPlatformless (.dict item) = true ↔ PlatformlessItem item := by
  simp [isPlatformless, PlatformlessItem]

theorem manifests_eq {manifest : Dict} {x : Value} {xs : List Value}
    (h : (manifest.lookup (lit "manifests")).getD (.list []) = .list xs) (hx : x ∈ xs) :
    manifest.lookup (lit "manifests") = some (.list xs) := by
  cases hm : manifest.lookup (lit "manifests") with
  | none =>
    rw [hm, Option.getD_none, Value.list.injEq] at h
    rw [← h] at hx
    cases hx
  | some v =>
    rw [hm, Option.getD_some] at h
    rw [h]

theorem nextOfIndex_hop {arch next : Py.Str} {manifest : Dict} (h : nextOfIndex arch manifest = .ok next) :
    Hop arch manifest next := by
  unfold nextOfIndex at h
  obtain ⟨xs, hiter, h⟩ := Except.bind_eq_ok.mp h
  obtain ⟨natives, hnatives, h⟩ := Except.bind_eq_ok.mp h
  obtain ⟨htried, rfl⟩ := filter_eq_ok hnatives
  have hdicts : ∀ x ∈ xs, ∃ item, x = .dict item := by
    intro x hx
    obtain ⟨keep, hkeep⟩ := htried x hx
    exact isNative_ok hkeep
  have hlist : ∀ x ∈ xs, manifest.lookup (lit "manifests") = some (.list xs) :=
    fun x hx => manifests_eq (iter_eq_list hiter hx hdicts) hx
  -- the rest of the list, by a property the filter decides
  have hunique : ∀ {p : Value → Bool} {P : Dict → Prop} {item : Value}, (∀ d, p (.dict d) = true ↔ P d) →
      xs.filter p = [item] → ∃ d, item = .dict d ∧ Unique manifest P d := by
    intro p P item hp hfilter
    obtain ⟨pre, post, rfl, hitem, hrest⟩ := filter_eq_singleton hfilter
    obtain ⟨d, rfl⟩ := hdicts item (by simp)
    refine ⟨d, rfl, pre, post, hlist (.dict d) (by simp), (hp d).mp hitem, fun v hv => ?_⟩
    obtain ⟨other, rfl⟩ := hdicts v (by simp at hv ⊢; tauto)
    exact ⟨other, rfl, fun hother => by simpa [(hp other).mpr hother] using hrest _ hv⟩
  have hnative : ∀ d, decide (isNative arch (.dict d) = .ok true) = true ↔ NativeItem arch d := by
    intro d
    rw [decide_eq_true_iff, isNative_eq_true]
    simp
  dsimp only at h
  split at h
  · rename_i item hmatches
    split at hmatches
    · rename_i hcond
      rw [Bool.and_eq_true, List.isEmpty_iff] at hcond
      obtain ⟨d, rfl, hd⟩ := hunique (fun d => isPlatformless_dict) hmatches
      refine .platformless hd (itemDigest_dict h) fun items hitems v hv => ?_
      obtain ⟨pre, post, hpost, -⟩ := hd
      obtain rfl : xs = items := by
        have hxs := hlist (.dict d) (List.mem_of_mem_filter (by rw [hmatches]; simp))
        rw [hxs] at hitems
        simpa using hitems
      obtain ⟨other, rfl⟩ := hdicts v hv
      refine ⟨other, rfl, fun hother => ?_⟩
      have hnone := List.filter_eq_nil_iff.mp hcond.1 _ hv
      exact hnone ((hnative other).mpr hother)
    · obtain ⟨d, rfl, hd⟩ := hunique hnative hmatches
      exact .native hd (itemDigest_dict h)
  · cases h

theorem nextDigest_none {arch : Py.Str} {manifest : Dict} (h : nextDigest arch manifest = .ok none) :
    IsConfig arch manifest := by
  unfold nextDigest at h
  split at h
  · rename_i architecture os harch hos
    split at h
    · cases h
    · rename_i hcond
      simp only [Bool.or_eq_true, Bool.not_eq_true', not_or, Bool.not_eq_false, Value.eq_str] at hcond
      exact ⟨hcond.1 ▸ harch, hcond.2 ▸ hos⟩
  · split at h
    · split at h
      · obtain ⟨_, -, h⟩ := Except.map_eq_ok.mp h
        cases h
      · obtain ⟨_, -, h⟩ := Except.map_eq_ok.mp h
        cases h
    · obtain ⟨_, -, h⟩ := Except.map_eq_ok.mp h
      cases h

theorem nextDigest_some {arch next : Py.Str} {manifest : Dict} (h : nextDigest arch manifest = .ok (some next)) :
    Hop arch manifest next := by
  have index : (nextOfIndex arch manifest).map some = .ok (some next) → Hop arch manifest next := by
    intro hindex
    obtain ⟨next', hnext, hsome⟩ := Except.map_eq_ok.mp hindex
    obtain rfl := Option.some.inj hsome
    exact nextOfIndex_hop hnext
  unfold nextDigest at h
  split at h
  · split at h
    · cases h
    · cases h
  · split at h
    · rename_i config hconfig
      split at h
      · rename_i digest hdigest
        obtain ⟨next', hnext, hsome⟩ := Except.map_eq_ok.mp h
        obtain rfl := Option.some.inj hsome
        obtain ⟨s, rfl, hs⟩ := canonicalDigestOf_eq_ok.mp hnext
        exact .config hconfig ⟨s, hdigest, hs⟩
      · exact index h
    · exact index h

/-! ### The loop -/

variable {σ : Type} {content : Content} {fetch : Fetch σ} {arch : Py.Str} {st st' : Loaded σ}

/-- Whatever is in the cache was verified. -/
def Content.Sound (content : Content) (st : Loaded σ) : Prop :=
  ∀ digest manifest, st.cache.lookup digest = some manifest → ∃ raw, content.Verified digest raw manifest

theorem load_sound {digest : Py.Str} {manifest : Dict} (hst : content.Sound st)
    (h : content.load fetch st digest = .ok (manifest, st')) :
    content.Sound st' ∧ ∃ raw, content.Verified digest raw manifest := by
  unfold Content.load at h
  cases hcached : st.cache.lookup digest with
  | some cached =>
    simp only [hcached, Except.ok.injEq, Prod.mk.injEq] at h
    obtain ⟨rfl, rfl⟩ := h
    exact ⟨hst, hst digest cached hcached⟩
  | none =>
    simp only [hcached] at h
    obtain ⟨⟨raw, registry⟩, -, h⟩ := Except.bind_eq_ok.mp h
    dsimp only at h
    split at h
    · cases h
    · rename_i hcheck
      obtain ⟨hsize, hhash⟩ := not_or.mp hcheck
      obtain ⟨value, hloads, h⟩ := Except.bind_eq_ok.mp h
      cases value
      case dict parsed =>
        simp only [Except.ok.injEq, Prod.mk.injEq] at h
        obtain ⟨rfl, rfl⟩ := h
        have hverified : content.Verified digest raw parsed := ⟨not_lt.mp hsize, not_not.mp hhash, hloads⟩
        refine ⟨fun d m hm => ?_, raw, hverified⟩
        rw [List.lookup_cons] at hm
        split at hm
        · rename_i heq
          obtain rfl := eq_of_beq heq
          obtain rfl := Option.some.inj hm
          exact ⟨raw, hverified⟩
        · exact hst d m hm
      all_goals cases h

theorem follow_sound {turns : ℕ} {current last : Py.Str} (hst : content.Sound st)
    (h : content.follow fetch arch turns st current = .ok (last, st')) :
    content.Sound st' ∧ ∃ n, n < turns ∧ content.Chain arch last n current := by
  induction turns generalizing st current with
  | zero => cases h
  | succ turns ih =>
    unfold Content.follow at h
    obtain ⟨⟨manifest, st₁⟩, hload, h⟩ := Except.bind_eq_ok.mp h
    obtain ⟨hst₁, raw, hverified⟩ := load_sound hst hload
    obtain ⟨next?, hnext, h⟩ := Except.bind_eq_ok.mp h
    cases next? with
    | none =>
      simp only [Except.ok.injEq, Prod.mk.injEq] at h
      obtain ⟨rfl, rfl⟩ := h
      exact ⟨hst₁, 0, turns.succ_pos, .stop hverified (nextDigest_none hnext)⟩
    | some next =>
      obtain ⟨hst', n, hn, hchain⟩ := ih hst₁ h
      exact ⟨hst', n + 1, Nat.succ_lt_succ hn, .hop hverified (nextDigest_some hnext) hchain⟩

/-- The configuration at the end of a chain. -/
theorem Content.Chain.config {last digest : Py.Str} {n : ℕ} (h : content.Chain arch last n digest) :
    ∃ raw manifest, content.Verified last raw manifest ∧ IsConfig arch manifest := by
  induction h with
  | stop h hconfig => exact ⟨_, _, h, hconfig⟩
  | hop _ _ _ ih => exact ih

/-- Whatever the registry answers, two references that pass lead in at most four
hops each to one native configuration, and every object on the way has the digest
it was asked by. -/
theorem image_identity_sound (content : Content) (fetch : Fetch σ) (registry : σ) (observed expected arch : Py.Str)
    (h : content.verifyNativeImage fetch registry observed expected arch = .ok ()) :
    ∃ d raw manifest, content.Verified d raw manifest ∧ IsConfig arch manifest ∧
      ∀ reference ∈ [observed, expected], ∃ start n, canonicalDigest reference = .ok start ∧ n ≤ 4 ∧
        content.Chain arch d n start := by
  unfold Content.verifyNativeImage at h
  rw [Except.mapError_eq_ok] at h
  obtain ⟨⟨running, st₁⟩, hobserved, h⟩ := Except.bind_eq_ok.mp h
  obtain ⟨⟨built, st₂⟩, hexpected, h⟩ := Except.bind_eq_ok.mp h
  dsimp only at h
  split at h
  · cases h
  · rename_i hsame
    obtain rfl := not_not.mp hsame
    have hempty : content.Sound (⟨[], registry⟩ : Loaded σ) := by
      intro d m hm
      cases hm
    obtain ⟨start₁, hstart₁, hfollow₁⟩ := Except.bind_eq_ok.mp hobserved
    obtain ⟨hst₁, n₁, hn₁, hchain₁⟩ := follow_sound hempty hfollow₁
    obtain ⟨start₂, hstart₂, hfollow₂⟩ := Except.bind_eq_ok.mp hexpected
    obtain ⟨-, n₂, hn₂, hchain₂⟩ := follow_sound hst₁ hfollow₂
    obtain ⟨raw, manifest, hverified, hconfig⟩ := hchain₁.config
    refine ⟨running, raw, manifest, hverified, hconfig, fun reference hr => ?_⟩
    simp only [List.mem_cons, List.not_mem_nil, or_false] at hr
    rcases hr with rfl | rfl
    · exact ⟨start₁, n₁, hstart₁, Nat.le_of_lt_succ hn₁, hchain₁⟩
    · exact ⟨start₂, n₂, hstart₂, Nat.le_of_lt_succ hn₂, hchain₂⟩

/-! ### An imported image -/

/-- The configuration and the manifest of an image, as `json.dumps` writes them. -/
def sampleConfigDigest : String := "sha256:872572c6ae7ee95dcb30b87ddb1fdd79a919128990373e39a1d689237fa14f05"

def sampleConfig : Bytes := asBytes "\x7b\"architecture\": \"arm64\", \"os\": \"linux\"\x7d".toList

def sampleManifestDigest : String := "sha256:27150183c7e99cd23c63c94f8ce03284f03f8c6ba5292c3d30a386e94aa05205"

def sampleManifest : Bytes :=
  asBytes ("\x7b\"config\": \x7b\"digest\": \"".toList ++ sampleConfigDigest.toList ++ "\"\x7d\x7d".toList)

/-- SHA-256 and `json.loads` on these two objects. -/
def sampleContent : Content where
  hexdigest raw :=
    if raw = sampleConfig then (lit sampleConfigDigest).drop 7
    else if raw = sampleManifest then (lit sampleManifestDigest).drop 7
    else []
  loads raw :=
    if raw = sampleConfig then
      .ok (.dict [(lit "architecture", .str (lit "arm64")), (lit "os", .str (lit "linux"))])
    else if raw = sampleManifest then
      .ok (.dict [(lit "config", .dict [(lit "digest", .str (lit sampleConfigDigest))])])
    else .error .jsonDecodeError

def sampleFetch : Fetch Unit := fun _ digest =>
  if digest = lit sampleConfigDigest then .ok (sampleConfig, ())
  else if digest = lit sampleManifestDigest then .ok (sampleManifest, ())
  else .error .keyError

def sampleReference : Py.Str := lit "docker-pullable://docker.io/library/import@" ++ lit sampleManifestDigest

theorem image_identity_sound_imported : ∃ d raw manifest, sampleContent.Verified d raw manifest ∧
    IsConfig (lit "arm64") manifest ∧ ∀ reference ∈ [sampleReference, lit sampleConfigDigest],
      ∃ start n, canonicalDigest reference = .ok start ∧ n ≤ 4 ∧ sampleContent.Chain (lit "arm64") d n start := by
  apply image_identity_sound sampleContent sampleFetch ()
  decide +kernel

end Bweso
