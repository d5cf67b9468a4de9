import Bweso.Proofs.Scoped

/-! The legacy token: which tokens startup accepts, and with which of them a
client can then authenticate. -/

namespace Bweso

/-! ### What startup resolves -/

/-- The token that the configuration names: the value as given, or the text of
the file without its trailing line ends. -/
inductive ResolvedToken : Option Str → Option FileRead → Str → Prop
  | value (t : Str) : ResolvedToken (some t) none t
  | file (contents : Str) : ResolvedToken none (some (.contents (asBytes contents))) (trimEndNewlines contents)

theorem readOptionalSecret_eq_some {value : Option Str} {file : Option FileRead} {name t : Str} :
    readOptionalSecret value file name = .ok (some t) ↔ ResolvedToken value file t ∧ trim t ≠ [] := by
  refine ⟨fun h => ?_, fun ⟨h, ht⟩ => ?_⟩
  · cases value with
    | some v =>
      cases file with
      | some f => exact absurd h (by simp [readOptionalSecret])
      | none =>
        simp only [readOptionalSecret, Except.guard_eq_ok, Except.ok.injEq, Option.some.injEq] at h
        obtain ⟨hb, rfl⟩ := h
        exact ⟨.value v, mt (blank_iff v).mpr hb⟩
    | none =>
      cases file with
      | none => exact absurd h (by simp [readOptionalSecret])
      | some f =>
        cases f with
        | openFailed => exact absurd h (by simp [readOptionalSecret, FileRead.toStr])
        | readFailed => exact absurd h (by simp [readOptionalSecret, FileRead.toStr])
        | contents bytes =>
          cases hc : fromUtf8 bytes with
          | none => simp [readOptionalSecret, FileRead.toStr, hc] at h
          | some contents =>
            simp only [readOptionalSecret, FileRead.toStr, hc, Except.guard_eq_ok, Except.ok.injEq,
              Option.some.injEq] at h
            obtain ⟨hb, rfl⟩ := h
            rw [← asBytes_of_fromUtf8 hc]
            exact ⟨.file contents, mt (blank_iff _).mpr hb⟩
  · have hb : blank t = false := Bool.eq_false_iff.mpr (mt (blank_iff t).mp ht)
    cases h with
    | value => simp [readOptionalSecret, hb]
    | file contents =>
      simp [readOptionalSecret, FileRead.toStr, hb]

section
variable {prim : Primitives} {fromStr : Str → Option RawAuthPolicy} {token : Option Str}
  {tokenFile scopedPolicyFile : Option FileRead} {insecure : Bool} {digest : TokenDigest}

/-- Legacy mode keeps the digest of the resolved token. -/
theorem fromConfig_legacy
    (h : WebhookAuth.fromConfig prim fromStr token tokenFile scopedPolicyFile insecure = .ok (.legacy digest)) :
    ∃ t, ResolvedToken token tokenFile t ∧ trim t ≠ [] ∧ digest = TokenDigest.new prim t := by
  simp only [WebhookAuth.fromConfig, Except.throw_bind, Except.bind_eq_ok, Except.mapError_eq_ok,
    Except.guard_eq_ok] at h
  obtain ⟨resolved, hresolved, -, h⟩ := h
  cases resolved with
  | some t =>
    obtain ⟨ht, hne⟩ := readOptionalSecret_eq_some.mp hresolved
    exact ⟨t, ht, hne, (WebhookAuth.legacy.inj (Except.ok.inj h)).symm⟩
  | none =>
    cases scopedPolicyFile with
    | some file =>
      simp only [Except.bind_eq_ok] at h
      obtain ⟨policy, -, h⟩ := h
      exact absurd h (by simp)
    | none =>
      cases insecure with
      | true => exact absurd h (by simp)
      | false => exact absurd h (by simp)

theorem ResolvedToken.unique {t t' : Str} (h : ResolvedToken token tokenFile t)
    (h' : ResolvedToken token tokenFile t') : t = t' := by
  cases h with
  | value => cases h'; rfl
  | file contents =>
    generalize hb : asBytes contents = bytes at h'
    cases h' with
    | file contents' => rw [asBytes_injective hb]

end

/-! ### What a client can send -/

theorem graphic_of_visible {b : UInt8} (h : visible b = true) (hws : isAsciiWhitespace b = false) :
    isAsciiGraphic b = true := by
  have table : ∀ n < 256, visible (UInt8.ofNat n) = true → isAsciiWhitespace (UInt8.ofNat n) = false →
      isAsciiGraphic (UInt8.ofNat n) = true := by
    decide +kernel
  have := table b.toNat b.toNat_lt
  rw [UInt8.ofNat_toNat] at this
  exact this h hws

theorem headerValueValid_of_visible {value : Bytes} (h : ∀ b ∈ value, visible b = true) :
    headerValueValid value = true := by
  have table : ∀ n < 256, visible (UInt8.ofNat n) = true →
      ((32 ≤ UInt8.ofNat n && UInt8.ofNat n != 127) || UInt8.ofNat n == 9) = true := by
    decide +kernel
  refine List.all_eq_true.mpr fun b hb => ?_
  have := table b.toNat b.toNat_lt
  rw [UInt8.ofNat_toNat] at this
  exact this (h b hb)

/-- A request with one `Authorization` header for this token. -/
def bearerRequest (token : Str) : HeaderMap := [("authorization".toList, asBytes ("Bearer ".toList ++ token))]

/-- The bearer header of a token is read back exactly for graphic tokens. -/
theorem bearerToken_bearerRequest {t s : Str} (h : bearerToken (bearerRequest t) = some s) :
    s = t ∧ ∀ b ∈ asBytes t, isAsciiGraphic b = true := by
  obtain ⟨value, scheme, hall, hstr, hspace, -, -, hws⟩ := bearerToken_eq_some.mp h
  have hvalue : asBytes ("Bearer ".toList ++ t) = value := by
    simpa [HeaderMap.getAll, bearerRequest] using hall
  obtain ⟨hbytes, hvis⟩ := headerToStr_eq_some.mp hstr
  have hraw : "Bearer".toList ++ ' ' :: t = scheme ++ ' ' :: s := asBytes_injective (hvalue.trans hbytes)
  have hcut : splitOnce ' ' (scheme ++ ' ' :: s) = some ("Bearer".toList, t) := by
    rw [← hraw]
    exact splitOnce_eq_some.mpr ⟨rfl, by decide⟩
  obtain ⟨-, rfl⟩ : scheme = "Bearer".toList ∧ s = t := by
    have hself : splitOnce ' ' (scheme ++ ' ' :: s) = some (scheme, s) := splitOnce_eq_some.mpr ⟨rfl, hspace⟩
    rw [hself, Option.some.injEq, Prod.mk.injEq] at hcut
    exact hcut
  refine ⟨rfl, fun b hb => ?_⟩
  apply graphic_of_visible
  · apply hvis
    rw [asBytes_append, ← List.singleton_append, asBytes_append]
    simp [hb]
  · exact hws b hb

/-- A client with the token gets in, and with no other token. -/
structure LegacyUsable (prim : Primitives) (auth : WebhookAuth) (t : Str) : Prop where
  wellFormed : ∀ header ∈ bearerRequest t, headerValueValid header.2 = true
  authorized : auth.authorize prim (bearerRequest t) = some .global
  others : ∀ headers, bearerToken headers ≠ some t →
    (∀ s, bearerToken headers = some s → NoCollision prim [t, s]) → auth.authorize prim headers = none

theorem authorize_legacy_eq_some {prim : Primitives} {digest : TokenDigest} {headers : HeaderMap}
    {scope : AuthorizedScope} :
    (WebhookAuth.legacy digest).authorize prim headers = some scope ↔
      scope = .global ∧ ∃ s, bearerToken headers = some s ∧ digest = TokenDigest.new prim s := by
  simp only [WebhookAuth.authorize, Option.bind_eq_bind, Option.bind_eq_some_iff, Option.ite_none_right_eq_some,
    Option.some.injEq]
  refine ⟨fun h => ?_, fun h => ?_⟩
  · obtain ⟨s, hs, hd, hscope⟩ := h
    exact ⟨hscope.symm, s, hs, hd⟩
  · obtain ⟨hscope, s, hs, hd⟩ := h
    exact ⟨s, hs, hd, hscope.symm⟩

theorem legacy_others {prim : Primitives} {t : Str} {headers : HeaderMap} (hother : bearerToken headers ≠ some t)
    (hNC : ∀ s, bearerToken headers = some s → NoCollision prim [t, s]) :
    (WebhookAuth.legacy (TokenDigest.new prim t)).authorize prim headers = none := by
  rw [Option.eq_none_iff_forall_ne_some]
  intro scope h
  obtain ⟨-, s, hs, hd⟩ := authorize_legacy_eq_some.mp h
  have heq : t = s := hNC s hs t (by simp) s (by simp) hd
  exact hother (by rw [hs, heq])

/-- An accepted legacy token is usable exactly when all its bytes are graphic
ASCII characters. -/
theorem legacy_usable_iff (prim : Primitives) (fromStr : Str → Option RawAuthPolicy) (token : Option Str)
    (tokenFile scopedPolicyFile : Option FileRead) (insecure : Bool) (digest : TokenDigest) (t : Str)
    (hconfig : WebhookAuth.fromConfig prim fromStr token tokenFile scopedPolicyFile insecure = .ok (.legacy digest))
    (ht : ResolvedToken token tokenFile t) :
    LegacyUsable prim (.legacy digest) t ↔ ∀ b ∈ asBytes t, isAsciiGraphic b = true := by
  obtain ⟨t', ht', hblank, rfl⟩ := fromConfig_legacy hconfig
  obtain rfl := ht.unique ht'
  refine ⟨fun h => ?_, fun h => ?_⟩
  · obtain ⟨-, s, hs, -⟩ := authorize_legacy_eq_some.mp h.authorized
    exact (bearerToken_bearerRequest hs).2
  · have hne : t ≠ [] := by
      rintro rfl
      exact hblank rfl
    have hbearer : bearerToken (bearerRequest t) = some t :=
      (bearerToken_graphic hne h).mpr ⟨_, "Bearer".toList, rfl, rfl, by decide⟩
    obtain ⟨value, scheme, hall, hstr, -⟩ := bearerToken_eq_some.mp hbearer
    refine ⟨fun header hheader => ?_, ?_, fun headers hother hNC => legacy_others hother hNC⟩
    · have hvalue : asBytes ("Bearer ".toList ++ t) = value := by
        simpa [HeaderMap.getAll, bearerRequest] using hall
      rw [List.mem_singleton.mp hheader, hvalue]
      obtain ⟨rfl, hvis⟩ := headerToStr_eq_some.mp hstr
      exact headerValueValid_of_visible hvis
    · exact authorize_legacy_eq_some.mpr ⟨rfl, t, hbearer, rfl⟩

/-- A token of 32 letters from a file that ends in a line feed. -/
theorem legacy_usable_file :
    LegacyUsable vectors.primitives (.legacy (TokenDigest.new vectors.primitives (List.replicate 32 'a')))
      (trimEndNewlines (List.replicate 32 'a' ++ ['\n'])) :=
  (legacy_usable_iff vectors.primitives onePolicyFromStr none
    (some (.contents (asBytes (List.replicate 32 'a' ++ ['\n'])))) none false _ _ (by decide)
    (.file (List.replicate 32 'a' ++ ['\n']))).mpr (by decide +kernel)

/-- A token with a space in it starts the provider and authenticates nobody. -/
theorem legacy_token_unusable :
    WebhookAuth.fromConfig vectors.primitives onePolicyFromStr (some "pass word".toList) none none false =
      .ok (.legacy (TokenDigest.new vectors.primitives "pass word".toList)) ∧
    (WebhookAuth.legacy (TokenDigest.new vectors.primitives "pass word".toList)).authorize vectors.primitives
      (bearerRequest "pass word".toList) = none := by
  decide

end Bweso
