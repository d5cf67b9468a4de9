import Bweso.Sanity.Crypto
import Bweso.Spec.Auth

/-! What the two loops over an auth policy compute: the loading loop with its
accumulators, and the matching loop that keeps the last match. -/

namespace Bweso

/-! ### Tokens and entries -/

/-- The load-time token check. -/
def ValidToken (token : Str) : Prop :=
  minScopedTokenBytes ≤ (asBytes token).length ∧ (asBytes token).length ≤ maxScopedTokenBytes ∧
    ∀ b ∈ asBytes token, isAsciiGraphic b = true

theorem validateScopedToken_eq_ok {token : Str} {index : ℕ} {u : Unit} :
    validateScopedToken token index = .ok u ↔ ValidToken token := by
  unfold validateScopedToken ValidToken
  by_cases hlen : (asBytes token).length < minScopedTokenBytes ∨
      maxScopedTokenBytes < (asBytes token).length
  · simp only [hlen, if_true]
    refine ⟨fun h => ?_, fun hiff => ?_⟩
    · exact absurd h (by simp)
    · obtain ⟨h1, h2, -⟩ := hiff
      omega
  · simp only [hlen, if_false]
    rw [not_or, not_lt, not_lt] at hlen
    by_cases hall : (asBytes token).all isAsciiGraphic = true
    · simp only [hall, Bool.not_true, Bool.false_eq_true, if_false, true_iff]
      exact ⟨hlen.1, hlen.2, List.all_eq_true.mp hall⟩
    · simp only [Bool.not_eq_true _ |>.mp hall, Bool.not_false, if_true, reduceCtorEq, false_iff]
      rintro ⟨-, -, h⟩
      exact hall (List.all_eq_true.mpr h)

theorem normalizeEntries_eq_ok {index : ℕ} {field : Str} {entries normalized : List Str} :
    normalizeEntries index field entries = .ok normalized ↔
      (∀ e ∈ entries, trim e ≠ []) ∧ normalized = entries.map trim := by
  induction entries generalizing normalized with
  | nil => simp [normalizeEntries, eq_comm]
  | cons e entries ih =>
    unfold normalizeEntries
    by_cases he : trim e = []
    · simp [he]
    · simp only [List.isEmpty_iff, he, if_false, Except.pure_eq_ok, Except.bind_eq_ok, ih,
        List.forall_mem_cons, List.map_cons, Except.ok.injEq]
      refine ⟨fun hiff => ?_, fun hiff => ?_⟩
      · obtain ⟨_, ⟨h, rfl⟩, rfl⟩ := hiff
        exact ⟨⟨he, h⟩, rfl⟩
      · obtain ⟨⟨-, h⟩, rfl⟩ := hiff
        exact ⟨_, ⟨h, rfl⟩, rfl⟩

section
variable (prim : Primitives)

/-- The digests of a list of tokens. -/
def digests (tokens : List Str) : List TokenDigest := tokens.map (TokenDigest.new prim)

/-- No two of the texts share a digest. -/
def NoCollision (texts : List Str) : Prop :=
  ∀ a ∈ texts, ∀ b ∈ texts, TokenDigest.new prim a = TokenDigest.new prim b → a = b

variable {prim}

theorem NoCollision.nodup_digests {texts : List Str} (h : NoCollision prim texts) :
    (digests prim texts).Nodup ↔ texts.Nodup := by
  constructor
  · exact List.Nodup.of_map _
  · exact List.Nodup.map_on h

theorem insertTokens_eq_ok {index : ℕ} {tokens : List Str} {seen ds seen' : List TokenDigest} :
    insertTokens prim index tokens seen = .ok (ds, seen') ↔
      (∀ t ∈ tokens, ValidToken t) ∧ (digests prim tokens).Nodup ∧
      (∀ d ∈ digests prim tokens, d ∉ seen) ∧
      ds = digests prim tokens ∧ seen' = (digests prim tokens).reverse ++ seen := by
  induction tokens generalizing seen ds seen' with
  | nil => simp [insertTokens, digests, eq_comm]
  | cons t tokens ih =>
    unfold insertTokens
    simp only [Except.bind_eq_ok, validateScopedToken_eq_ok]
    by_cases hs : TokenDigest.new prim t ∈ seen
    · simp [hs, digests]
    · simp only [hs, if_false, Except.pure_eq_ok, Except.bind_eq_ok, Prod.exists, ih,
        Except.ok.injEq, Prod.mk.injEq, digests, List.map_cons, List.nodup_cons, List.forall_mem_cons,
        List.reverse_cons, List.append_assoc, List.singleton_append, not_false_eq_true, true_and]
      refine ⟨fun h => ?_, fun h => ?_⟩
      · obtain ⟨_, hv, _, _, ⟨hvs, hnd, hdis, rfl, rfl⟩, rfl, rfl⟩ := h
        refine ⟨⟨hv, hvs⟩, ⟨fun hm => ?_, hnd⟩, fun d hd => ?_, rfl, rfl⟩
        · exact hdis _ hm List.mem_cons_self
        · exact fun hm => hdis d hd (List.mem_cons_of_mem _ hm)
      · obtain ⟨⟨hv, hvs⟩, ⟨hnot, hnd⟩, hdis, rfl, rfl⟩ := h
        refine ⟨(), hv, _, _, ⟨hvs, hnd, fun d hd hm => ?_, rfl, rfl⟩, rfl, rfl⟩
        rcases List.mem_cons.mp hm with rfl | hm
        · exact hnot hd
        · exact hdis d hd hm

/-! ### Loading -/

/-- What the loading loop asks of one capability. -/
structure RawCapability.WellFormed (c : RawCapability) : Prop where
  name_ne : trim c.name ≠ []
  name_trimmed : trim c.name = c.name
  tokens_ne : c.tokens ≠ []
  tokens : ∀ t ∈ c.tokens, ValidToken t
  keys : ∀ e ∈ c.allowedKeys, trim e ≠ []
  prefixes : ∀ e ∈ c.allowedKeyPrefixes, trim e ≠ []
  entries_ne : c.allowedKeys ≠ [] ∨ c.allowedKeyPrefixes ≠ []

/-- The trimmed allow-list of a capability. -/
def RawCapability.rules (c : RawCapability) : PolicyRules :=
  .allowList (c.allowedKeys.map trim) (c.allowedKeyPrefixes.map trim)

variable (prim) in
def RawCapability.load (c : RawCapability) : ScopedCapability :=
  { tokens := digests prim c.tokens, selectorRules := c.rules }

/-- One turn of the loading loop: the capability's own checks, those against the
ones before it, and then the rest. -/
theorem buildCapabilities_cons {c : RawCapability} {rest : List RawCapability} {index : ℕ}
    {names : List Str} {seen : List TokenDigest} {total : ℕ} {out : List ScopedCapability} :
    buildCapabilities prim (c :: rest) index names seen total = .ok out ↔
      c.WellFormed ∧ c.name ∉ names ∧ total + c.tokens.length ≤ maxAuthTokens ∧
      (digests prim c.tokens).Nodup ∧ (∀ d ∈ digests prim c.tokens, d ∉ seen) ∧
      ∃ loaded, buildCapabilities prim rest (index + 1) (c.name :: names)
          ((digests prim c.tokens).reverse ++ seen) (total + c.tokens.length) = .ok loaded ∧
        out = c.load prim :: loaded := by
  rw [buildCapabilities]
  simp only [Except.throw_bind, Except.guard_eq_ok, Except.bind_eq_ok, Prod.exists, insertTokens_eq_ok,
    normalizeEntries_eq_ok, Except.pure_eq_ok, Except.ok.injEq, blank_iff, List.isEmpty_iff, not_not,
    not_lt, Bool.and_eq_true, not_and_or]
  constructor
  · rintro ⟨hne, htrim, hname, htok, htotal, _, _, ⟨hv, hnd, hdis, rfl, rfl⟩, _, ⟨hk, rfl⟩, _, ⟨hp, rfl⟩,
      hent, loaded, hload, rfl⟩
    rw [List.map_eq_nil_iff, List.map_eq_nil_iff] at hent
    exact ⟨⟨hne, htrim, htok, hv, hk, hp, hent⟩, hname, htotal, hnd, hdis, loaded, hload, rfl⟩
  · rintro ⟨hwf, hname, htotal, hnd, hdis, loaded, hload, rfl⟩
    refine ⟨hwf.name_ne, hwf.name_trimmed, hname, hwf.tokens_ne, htotal, _, _,
      ⟨hwf.tokens, hnd, hdis, rfl, rfl⟩, _, ⟨hwf.keys, rfl⟩, _, ⟨hwf.prefixes, rfl⟩, ?_, loaded, hload, rfl⟩
    rw [List.map_eq_nil_iff, List.map_eq_nil_iff]
    exact hwf.entries_ne

/-- The whole loop, from the accumulators of the capabilities before. -/
theorem buildCapabilities_eq_ok {caps : List RawCapability} {index : ℕ} {names : List Str}
    {seen : List TokenDigest} {total : ℕ} {out : List ScopedCapability} (ht : total ≤ maxAuthTokens) :
    buildCapabilities prim caps index names seen total = .ok out ↔
      (∀ c ∈ caps, c.WellFormed) ∧ (caps.map RawCapability.name).Nodup ∧
      (∀ c ∈ caps, c.name ∉ names) ∧
      total + (caps.flatMap RawCapability.tokens).length ≤ maxAuthTokens ∧
      (digests prim (caps.flatMap RawCapability.tokens)).Nodup ∧
      (∀ d ∈ digests prim (caps.flatMap RawCapability.tokens), d ∉ seen) ∧
      out = caps.map (RawCapability.load prim) := by
  induction caps generalizing index names seen total out with
  | nil => simp [buildCapabilities, digests, ht, eq_comm]
  | cons c rest ih =>
    rw [buildCapabilities_cons]
    simp only [digests, List.flatMap_cons, List.map_append, List.length_append, List.forall_mem_cons,
      List.map_cons, List.nodup_cons, List.nodup_append', List.forall_mem_append]
    refine ⟨fun h => ?_, fun h => ?_⟩
    · obtain ⟨hwf, hname, htotal, hnd, hdis, loaded, hload, rfl⟩ := h
      obtain ⟨hwfs, hnames, hout, hsum, hnds, hdiss, rfl⟩ := (ih htotal).mp hload
      refine ⟨⟨hwf, hwfs⟩, ⟨fun hm => ?_, hnames⟩, ⟨hname, fun c' hc' hm => ?_⟩, by omega,
        ⟨hnd, hnds, fun d hd hd' => ?_⟩, ⟨hdis, fun d hd hm => ?_⟩, rfl⟩
      · obtain ⟨c', hc', hn⟩ := List.mem_map.mp hm
        exact hout c' hc' (hn ▸ List.mem_cons_self)
      · exact hout c' hc' (List.mem_cons_of_mem _ hm)
      · exact hdiss d hd' (List.mem_append_left _ (List.mem_reverse.mpr hd))
      · exact hdiss d hd (List.mem_append_right _ hm)
    · obtain ⟨⟨hwf, hwfs⟩, ⟨hnot, hnames⟩, ⟨hname, hout⟩, hsum, ⟨hnd, hnds, hdisj⟩, ⟨hdis, hdiss⟩, rfl⟩ := h
      have htotal : total + c.tokens.length ≤ maxAuthTokens := by omega
      refine ⟨hwf, hname, htotal, hnd, hdis, _, (ih htotal).mpr ⟨hwfs, hnames, fun c' hc' hm => ?_,
        by omega, hnds, fun d hd hm => ?_, rfl⟩, rfl⟩
      · rcases List.mem_cons.mp hm with heq | hm
        · exact hnot (heq ▸ List.mem_map_of_mem hc')
        · exact hout c' hc' hm
      · rcases List.mem_append.mp hm with hm | hm
        · exact hdisj (List.mem_reverse.mp hm) hd
        · exact hdiss d hd hm

/-- What loading asks of a policy; distinct tokens show as distinct digests. -/
structure RawAuthPolicy.Loads (prim : Primitives) (p : RawAuthPolicy) : Prop where
  version : p.version = 1
  capabilities_ne : p.capabilities ≠ []
  capabilities_le : p.capabilities.length ≤ maxAuthCapabilities
  wellFormed : ∀ c ∈ p.capabilities, c.WellFormed
  names : (p.capabilities.map RawCapability.name).Nodup
  tokens_le : p.tokens.length ≤ maxAuthTokens
  digests : (digests prim p.tokens).Nodup

theorem tryFrom_eq_ok {p : RawAuthPolicy} {rules : ScopedAuthRules} :
    ScopedAuthRules.tryFrom prim p = .ok rules ↔
      p.Loads prim ∧ rules = ⟨p.capabilities.map (RawCapability.load prim)⟩ := by
  simp only [ScopedAuthRules.tryFrom, Except.throw_bind, Except.guard_eq_ok, Except.bind_eq_ok,
    buildCapabilities_eq_ok (Nat.zero_le _), Except.pure_eq_ok, Except.ok.injEq, not_not, not_lt,
    List.isEmpty_iff, List.not_mem_nil, not_false_eq_true, implies_true, true_and, Nat.zero_add]
  refine ⟨fun hiff => ?_, fun hiff => ?_⟩
  · obtain ⟨hv, hne, hle, _, ⟨hwf, hnames, htok, hnd, rfl⟩, rfl⟩ := hiff
    exact ⟨⟨hv, hne, hle, hwf, hnames, htok, hnd⟩, rfl⟩
  · obtain ⟨h, rfl⟩ := hiff
    exact ⟨h.version, h.capabilities_ne, h.capabilities_le, _,
      ⟨h.wellFormed, h.names, h.tokens_le, h.digests, rfl⟩, rfl⟩

/-- Loading a file succeeds exactly on valid UTF-8 within the limit that parses
to a policy that loads. -/
theorem read_eq_ok {fromStr : Str → Option RawAuthPolicy} {file : FileRead} {rules : ScopedAuthRules} :
    ScopedAuthRules.read prim fromStr file = .ok rules ↔ ∃ contents raw,
      file = .contents (asBytes contents) ∧ (asBytes contents).length ≤ maxAuthPolicyFileBytes ∧
      fromStr contents = some raw ∧ ScopedAuthRules.tryFrom prim raw = .ok rules := by
  cases file with
  | openFailed => simp [ScopedAuthRules.read]
  | readFailed => simp [ScopedAuthRules.read]
  | contents bytes =>
    simp only [ScopedAuthRules.read, FileRead.contents.injEq]
    refine ⟨fun h => ?_, ?_⟩
    · cases hd : fromUtf8 (bytes.take (maxAuthPolicyFileBytes + 1)) with
      | none => simp [hd] at h
      | some contents =>
        simp only [hd, Except.guard_eq_ok, not_lt] at h
        obtain ⟨hlen, h⟩ := h
        cases hraw : fromStr contents with
        | none => simp [hraw] at h
        | some raw =>
          rw [hraw] at h
          exact ⟨contents, raw, (fromUtf8_take hlen).mp hd, hlen, hraw, h⟩
    · rintro ⟨contents, raw, hb, hlen, hraw, h⟩
      rw [(fromUtf8_take hlen).mpr hb]
      simp [not_lt.mpr hlen, hraw, h]

end

/-! ### Matching -/

/-- Comparing against every token of one capability. -/
theorem matchTokens_eq (supplied : TokenDigest) (capability : ScopedCapability)
    (tokens : List TokenDigest) (found : Option ScopedCapability) :
    tokens.foldl (fun found expected => if expected = supplied then some capability else found) found =
      if supplied ∈ tokens then some capability else found := by
  induction tokens generalizing found with
  | nil => simp
  | cons t tokens ih =>
    rw [List.foldl_cons, ih]
    by_cases ht : t = supplied
    · simp [ht]
    · simp [ht, Ne.symm ht]

/-- The double loop keeps the last capability that has the supplied digest. -/
theorem matchCapability_eq (supplied : TokenDigest) (capabilities : List ScopedCapability) :
    matchCapability supplied capabilities =
      (capabilities.filter fun c => supplied ∈ c.tokens).getLast? := by
  unfold matchCapability
  simp only [matchTokens_eq]
  induction capabilities using List.reverseRecOn with
  | nil => rfl
  | append_singleton cs c ih =>
    rw [List.foldl_append, List.filter_append, ih]
    by_cases hc : supplied ∈ c.tokens
    · simp [hc]
    · simp [hc]

theorem matchCapability_some {supplied : TokenDigest} {capabilities : List ScopedCapability}
    {c : ScopedCapability} (h : matchCapability supplied capabilities = some c) :
    c ∈ capabilities ∧ supplied ∈ c.tokens := by
  rw [matchCapability_eq] at h
  simpa using List.mem_of_mem_getLast? h

theorem matchCapability_none {supplied : TokenDigest} {capabilities : List ScopedCapability} :
    matchCapability supplied capabilities = none ↔ ∀ c ∈ capabilities, supplied ∉ c.tokens := by
  rw [matchCapability_eq]
  simp

/-- A token whose digest no loaded capability has is turned away. -/
theorem authorize_absent {prim : Primitives} {raw : RawAuthPolicy} {rules : ScopedAuthRules} {token : Str}
    (hload : ScopedAuthRules.tryFrom prim raw = .ok rules) (hNC : NoCollision prim (token :: raw.tokens))
    (habsent : token ∉ raw.tokens) : (ScopedAuthPolicy.mk rules).authorize prim token = none := by
  obtain ⟨-, rfl⟩ := tryFrom_eq_ok.mp hload
  have hnone : matchCapability (TokenDigest.new prim token)
      (raw.capabilities.map (RawCapability.load prim)) = none := by
    rw [matchCapability_none]
    intro loaded hloaded hm
    obtain ⟨c, hc, rfl⟩ := List.mem_map.mp hloaded
    obtain ⟨t, htc, heq⟩ := List.mem_map.mp hm
    have ht : t ∈ raw.tokens := List.mem_flatMap.mpr ⟨c, hc, htc⟩
    have := hNC t (List.mem_cons_of_mem _ ht) token List.mem_cons_self heq
    exact habsent (this ▸ ht)
  simp [ScopedAuthPolicy.authorize, ScopedAuthRules.authorize, hnone]

/-! ### Known tokens -/

/-- A capability with the token of thirty-two `a`s. -/
def oneCapability : RawCapability where
  name := "app-a".toList
  tokens := [List.replicate 32 'a']
  allowedKeys := ["id:item-a".toList]
  allowedKeyPrefixes := []

def onePolicy : RawAuthPolicy := { version := 1, capabilities := [oneCapability] }

/-- Its text, as `serde_json` reads it. -/
def onePolicyText : Str :=
  ["\x7b\"version\":1,", "\"capabilities\":[\x7b", "\"name\":\"app-a\",", "\"tokens\":[\"",
    "aaaaaaaaaaaaaaaaaaaaaaaaaaaaaaaa", "\"],\"allowedKeys\":", "[\"id:item-a\"]\x7d]\x7d"].flatMap String.toList

def onePolicyFromStr (s : Str) : Option RawAuthPolicy := if s = onePolicyText then some onePolicy else none

theorem onePolicy_tryFrom : ScopedAuthRules.tryFrom vectors.primitives onePolicy =
    .ok ⟨[oneCapability.load vectors.primitives]⟩ := by
  decide

theorem onePolicy_read : ScopedAuthRules.read vectors.primitives onePolicyFromStr
    (.contents (asBytes onePolicyText)) = .ok ⟨[oneCapability.load vectors.primitives]⟩ :=
  read_eq_ok.mpr ⟨onePolicyText, onePolicy, rfl, by decide +kernel, by simp [onePolicyFromStr], onePolicy_tryFrom⟩

end Bweso
