import Bweso.Sanity.Api
import Bweso.Spec.Endpoint

/-! Base URLs: which of them are accepted over which transport, and where the
requests of a fetch then go. -/

namespace Bweso

/-! ### Host texts -/

theorem isDigit_of_mem_toDigits {n : ℕ} {ch : Char} (h : ch ∈ Nat.toDigits 10 n) : ch.isDigit = true :=
  Nat.isDigit_of_mem_toDigits (by decide) (by decide) h

/-- The four numbers of a dotted text can be read back. -/
theorem splitOn_text (addr : Ipv4Addr) : addr.text.splitOn '.' =
    [addr.a, addr.b, addr.c, addr.d].map fun n => Nat.toDigits 10 n.toNat := by
  unfold Ipv4Addr.text
  apply List.splitOn_intercalate
  · intro l hl hdot
    obtain ⟨n, -, rfl⟩ := List.mem_map.mp hl
    exact absurd (isDigit_of_mem_toDigits hdot) (by decide)
  · simp

theorem text_injective {addr addr' : Ipv4Addr} (h : addr.text = addr'.text) : addr = addr' := by
  have hsplit := splitOn_text addr
  rw [h, splitOn_text] at hsplit
  simp only [List.map_cons, List.map_nil, List.cons.injEq, and_true] at hsplit
  obtain ⟨ha, hb, hc, hd⟩ := hsplit
  obtain ⟨a, b, c, d⟩ := addr
  rw [Ipv4Addr.mk.injEq]
  exact ⟨UInt8.toNat_inj.mp (Text.toDigits_injective ha.symm), UInt8.toNat_inj.mp (Text.toDigits_injective hb.symm),
    UInt8.toNat_inj.mp (Text.toDigits_injective hc.symm), UInt8.toNat_inj.mp (Text.toDigits_injective hd.symm)⟩

theorem text_localhost : Ipv4Addr.localhost.text = "127.0.0.1".toList := by decide

/-- A dotted text begins with a digit. -/
theorem text_cons (addr : Ipv4Addr) : ∃ ch rest, addr.text = ch :: rest ∧ ch.isDigit = true := by
  have hne : Nat.toDigits 10 addr.a.toNat ≠ [] := Nat.toDigits_ne_nil
  obtain ⟨ch, rest, hcons⟩ := List.exists_cons_of_ne_nil hne
  have hdigit : ch.isDigit = true := isDigit_of_mem_toDigits (by rw [hcons]; exact List.mem_cons_self)
  refine ⟨ch, rest ++ '.' :: ['.'].intercalate ([addr.b, addr.c, addr.d].map fun n => Nat.toDigits 10 n.toNat),
    ?_, hdigit⟩
  simp [Ipv4Addr.text, List.intercalate, hcons]

/-! ### Accepted transports -/

/-- The three local hosts. -/
def LoopbackHost (host : Option Host) : Prop :=
  host = some (.domain "localhost".toList) ∨ host = some (.ipv4 .localhost) ∨ host = some (.ipv6 .localhost)

section
variable (c : UrlCrate)

/-- HTTPS, or HTTP to the local machine. -/
def TransportSecure (u : Url) : Prop := u.scheme = https ∨ u.scheme = http ∧ LoopbackHost (c.host u)

/-- HTTP to the IPv6 loopback address. -/
def Ipv6LoopbackOverHttp (u : Url) : Prop := u.scheme = http ∧ c.host u = some (.ipv6 .localhost)

end

section
variable {c : UrlCrate} (hc : c.DocumentedHosts) {raw : Str} {u : Url} (hparse : c.parse raw = some u)
include hc hparse

/-- The string comparison finds the two local hosts that are written without brackets. -/
theorem isLocalhost_iff (hscheme : u.scheme = http) :
    (u.host.getD [] == "localhost".toList || u.host.getD [] == "127.0.0.1".toList ||
        u.host.getD [] == "::1".toList) = true ↔
      LoopbackHost (c.host u) ∧ c.host u ≠ some (.ipv6 .localhost) := by
  rw [hc.hostStr raw u hparse]
  simp only [Bool.or_eq_true, beq_iff_eq, LoopbackHost]
  cases hhost : c.host u with
  | none => simp
  | some host =>
    cases host with
    | domain name =>
      obtain ⟨hcolon, hnum⟩ := hc.domain raw u name hparse hscheme hhost
      have h1 : name ≠ "127.0.0.1".toList := by
        rw [← text_localhost]
        exact hnum .localhost
      have h2 : name ≠ "::1".toList := by
        rintro rfl
        exact hcolon List.mem_cons_self
      simp only [Option.map_some, Option.getD_some, Host.str, h1, h2, or_false, Option.some.injEq, Host.domain.injEq]
      simp
    | ipv4 addr =>
      obtain ⟨ch, rest, htext, hdigit⟩ := text_cons addr
      have h1 : addr.text ≠ "localhost".toList := by
        intro h
        rw [htext] at h
        cases h
        exact absurd hdigit (by decide)
      have h2 : addr.text ≠ "::1".toList := by
        intro h
        rw [htext] at h
        cases h
        exact absurd hdigit (by decide)
      have h3 : addr.text = "127.0.0.1".toList ↔ addr = .localhost := by
        rw [← text_localhost]
        exact ⟨text_injective, congrArg _⟩
      simp only [Option.map_some, Option.getD_some, Host.str, h1, h2, h3, false_or, or_false]
      simp
    | ipv6 addr => simp [Host.str]

theorem parseNamed_eq (fieldName : Str) :
    BitwardenEndpoint.parseNamed c raw fieldName = .ok ⟨u⟩ ∧
      (TransportSecure c u ∧ ¬ Ipv6LoopbackOverHttp c u) ∨
    BitwardenEndpoint.parseNamed c raw fieldName = .error .insecureEndpoint ∧
      ¬ (TransportSecure c u ∧ ¬ Ipv6LoopbackOverHttp c u) := by
  have hblank : (requireNonEmpty raw fieldName).mapError BitwardenClientError.validation = .ok () := by
    simp [requireNonEmpty, hc.notBlank raw u hparse, Except.mapError]
  have hdistinct : http ≠ https := by decide
  unfold BitwardenEndpoint.parseNamed
  rw [hblank]
  simp only [Except.ok_bind, hparse]
  by_cases hs : u.scheme = https
  · left
    refine ⟨by simp [hs], Or.inl hs, fun h => hdistinct (h.1.symm.trans hs)⟩
  · by_cases hh : u.scheme = http
    · have hiff := isLocalhost_iff hc hparse hh
      by_cases hl : LoopbackHost (c.host u) ∧ c.host u ≠ some (.ipv6 .localhost)
      · left
        have hlocal := hiff.mpr hl
        refine ⟨?_, Or.inr ⟨hh, hl.1⟩, fun h => hl.2 h.2⟩
        simp only [hh, hlocal]
        simp
      · right
        have hlocal := mt hiff.mp hl
        rw [Bool.not_eq_true] at hlocal
        refine ⟨?_, fun h => hl ⟨?_, fun he => h.2 ⟨hh, he⟩⟩⟩
        · simp only [hh, hlocal]
          simp [hdistinct]
        · exact (h.1.resolve_left hs).2
    · right
      refine ⟨by simp [hs, hh], fun h => ?_⟩
      rcases h.1 with h | h
      · exact hs h
      · exact hh h.1

/-- The rule, of the way one URL was answered. -/
theorem parseNamed_rule_iff (fieldName : Str) :
    ((BitwardenEndpoint.parseNamed c raw fieldName = .ok ⟨u⟩ ↔ TransportSecure c u) ∧
      (¬ TransportSecure c u → BitwardenEndpoint.parseNamed c raw fieldName = .error .insecureEndpoint)) ↔
    ¬ Ipv6LoopbackOverHttp c u := by
  rcases parseNamed_eq hc hparse fieldName with ⟨h, hs, hn⟩ | ⟨h, hs⟩
  · simp [h, hs, hn]
  · rw [h]
    refine ⟨fun hrule hbad => ?_, fun hn => ?_⟩
    · -- the IPv6 loopback address is secure, yet the URL was rejected
      exact absurd (hrule.1.mpr (Or.inr ⟨hbad.1, Or.inr (Or.inr hbad.2)⟩)) (by simp)
    · have hinsecure : ¬ TransportSecure c u := fun hsec => hs ⟨hsec, hn⟩
      simp [hinsecure]

end

section
variable {c : UrlCrate} (hc : c.DocumentedHosts) {rawIdentity rawApi : Str} {identity api : Url}
  (hidentity : c.parse rawIdentity = some identity) (hapi : c.parse rawApi = some api)
include hc hidentity hapi

theorem parseSplit_eq :
    BitwardenEndpoints.parseSplit c rawIdentity rawApi =
        .ok ⟨normalizeEndpointBase c identity, normalizeEndpointBase c api⟩ ∧
      ((TransportSecure c identity ∧ ¬ Ipv6LoopbackOverHttp c identity) ∧
        TransportSecure c api ∧ ¬ Ipv6LoopbackOverHttp c api) ∨
    BitwardenEndpoints.parseSplit c rawIdentity rawApi = .error .insecureEndpoint ∧
      ¬ ((TransportSecure c identity ∧ ¬ Ipv6LoopbackOverHttp c identity) ∧
        TransportSecure c api ∧ ¬ Ipv6LoopbackOverHttp c api) := by
  unfold BitwardenEndpoints.parseSplit
  rcases parseNamed_eq hc hidentity "identity_url".toList with ⟨h, hs⟩ | ⟨h, hs⟩
  · rcases parseNamed_eq hc hapi "api_url".toList with ⟨h', hs'⟩ | ⟨h', hs'⟩
    · rw [h, h']
      exact Or.inl ⟨rfl, hs, hs'⟩
    · rw [h, h']
      exact Or.inr ⟨rfl, fun hboth => hs' hboth.2⟩
  · rw [h]
    exact Or.inr ⟨rfl, fun hboth => hs hboth.1⟩

theorem parseSplit_rule_iff :
    (((∃ endpoints, BitwardenEndpoints.parseSplit c rawIdentity rawApi = .ok endpoints) ↔
        TransportSecure c identity ∧ TransportSecure c api) ∧
      (¬ (TransportSecure c identity ∧ TransportSecure c api) →
        BitwardenEndpoints.parseSplit c rawIdentity rawApi = .error .insecureEndpoint)) ↔
    (TransportSecure c identity → TransportSecure c api →
      ¬ Ipv6LoopbackOverHttp c identity ∧ ¬ Ipv6LoopbackOverHttp c api) := by
  rcases parseSplit_eq hc hidentity hapi with ⟨h, ⟨hs, hn⟩, hs', hn'⟩ | ⟨h, hs⟩
  · simp [h, hs, hs', hn, hn']
  · rw [h]
    refine ⟨fun hrule hsi hsa => ?_, fun hn => ?_⟩
    · obtain ⟨endpoints, he⟩ := hrule.1.mpr ⟨hsi, hsa⟩
      exact absurd he (by simp)
    · have hinsecure : ¬ (TransportSecure c identity ∧ TransportSecure c api) :=
        fun hsec => hs ⟨⟨hsec.1, (hn hsec.1 hsec.2).1⟩, hsec.2, (hn hsec.1 hsec.2).2⟩
      simp [hinsecure]

end

/-- Endpoints are accepted over HTTPS or over HTTP to the local machine, and
otherwise rejected as insecure, for exactly the URLs that are not HTTP to the
IPv6 loopback address. -/
theorem transport_rule_iff (c : UrlCrate) (hc : c.DocumentedHosts) :
    (∀ raw u fieldName, c.parse raw = some u →
      (((BitwardenEndpoint.parseNamed c raw fieldName = .ok ⟨u⟩ ↔ TransportSecure c u) ∧
        (¬ TransportSecure c u → BitwardenEndpoint.parseNamed c raw fieldName = .error .insecureEndpoint)) ↔
      ¬ Ipv6LoopbackOverHttp c u)) ∧
    (∀ raw u, c.parse raw = some u →
      (((BitwardenEndpoint.parse c raw = .ok ⟨u⟩ ↔ TransportSecure c u) ∧
        (¬ TransportSecure c u → BitwardenEndpoint.parse c raw = .error .insecureEndpoint)) ↔
      ¬ Ipv6LoopbackOverHttp c u)) ∧
    (∀ rawIdentity rawApi identity api, c.parse rawIdentity = some identity → c.parse rawApi = some api →
      ((((∃ endpoints, BitwardenEndpoints.parseSplit c rawIdentity rawApi = .ok endpoints) ↔
          TransportSecure c identity ∧ TransportSecure c api) ∧
        (¬ (TransportSecure c identity ∧ TransportSecure c api) →
          BitwardenEndpoints.parseSplit c rawIdentity rawApi = .error .insecureEndpoint)) ↔
      (TransportSecure c identity → TransportSecure c api →
        ¬ Ipv6LoopbackOverHttp c identity ∧ ¬ Ipv6LoopbackOverHttp c api))) :=
  ⟨fun _ _ fieldName h => parseNamed_rule_iff hc h fieldName, fun _ _ h => parseNamed_rule_iff hc h _,
    fun _ _ _ _ hi ha => parseSplit_rule_iff hc hi ha⟩

/-! ### A small instance of the crate -/

def ipv6LoopbackText : Str := "http://[::1]:8080".toList

def baseText : Str := "https://vault.example.test/base//?x=1#top".toList

def ipv6LoopbackUrl : Url :=
  { scheme := http, authority := "[::1]:8080".toList, host := some "[::1]".toList, path := "/".toList
    query := none, fragment := none, cannotBeABase := false }

def baseUrl : Url :=
  { vectorUrl with path := "/base//".toList, query := some "x=1".toList, fragment := some "top".toList }

/-- The crate on two URLs. -/
def twoUrls : UrlCrate where
  parse raw :=
    if raw = ipv6LoopbackText then some ipv6LoopbackUrl else if raw = baseText then some baseUrl else none
  host u := if u = ipv6LoopbackUrl then some (.ipv6 .localhost) else u.host.map .domain
  ipv6Text _ := "::1".toList
  setPath u path := { u with path := if path = [] then "/".toList else path }
  pathChar := Char.isAlphanum

theorem twoUrls_parse {raw : Str} {u : Url} (h : twoUrls.parse raw = some u) :
    raw = ipv6LoopbackText ∧ u = ipv6LoopbackUrl ∨ raw = baseText ∧ u = baseUrl := by
  simp only [twoUrls] at h
  split_ifs at h with h1 h2
  · exact Or.inl ⟨h1, (Option.some.inj h).symm⟩
  · exact Or.inr ⟨h2, (Option.some.inj h).symm⟩

theorem twoUrls_documentedHosts : twoUrls.DocumentedHosts where
  notBlank raw u h := by
    rcases twoUrls_parse h with ⟨rfl, -⟩ | ⟨rfl, -⟩ <;> decide
  hostStr raw u h := by
    rcases twoUrls_parse h with ⟨-, rfl⟩ | ⟨-, rfl⟩ <;> decide
  domain raw u name h hscheme hhost := by
    rcases twoUrls_parse h with ⟨-, rfl⟩ | ⟨-, rfl⟩
    · exact absurd hhost (by simp [twoUrls])
    · exact absurd hscheme (by decide)

/-- An HTTP URL of the IPv6 loopback address is rejected. -/
theorem parse_rejects_ipv6_loopback :
    twoUrls.DocumentedHosts ∧ twoUrls.parse ipv6LoopbackText = some ipv6LoopbackUrl ∧
    TransportSecure twoUrls ipv6LoopbackUrl ∧
    BitwardenEndpoint.parse twoUrls ipv6LoopbackText = .error .insecureEndpoint :=
  ⟨twoUrls_documentedHosts, by decide, Or.inr ⟨rfl, Or.inr (Or.inr (by decide))⟩, by decide⟩

/-- An HTTPS base URL follows the rule. -/
theorem transport_rule_base :
    (BitwardenEndpoint.parse twoUrls baseText = .ok ⟨baseUrl⟩ ↔ TransportSecure twoUrls baseUrl) ∧
    (¬ TransportSecure twoUrls baseUrl → BitwardenEndpoint.parse twoUrls baseText = .error .insecureEndpoint) :=
  ((transport_rule_iff twoUrls twoUrls_documentedHosts).2.1 baseText baseUrl (by decide)).mpr
    fun h => absurd h.1 (by decide)

end Bweso
