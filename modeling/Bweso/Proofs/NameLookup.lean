import Bweso.Sanity.Api

/-! A lookup by name reads the whole vault before it selects an item, and what
it selects does not depend on the order of the vault. -/

namespace Bweso

variable {prim : Primitives} {userKey : AuthenticatedSymmetricKey}

/-- One servable cipher carries the name, and `d` is its decryption. -/
def NamedOnce (prim : Primitives) (userKey : AuthenticatedSymmetricKey) (name : Str) (ciphers : List EncryptedCipher)
    (d : DecryptedCipher) : Prop :=
  ∃ pre c post, ciphers = pre ++ c :: post ∧ c.Servable ∧ c.decrypt prim userKey = .ok d ∧ d.name = some name ∧
    ∀ c' ∈ pre ++ post, c'.Servable → ∀ d', c'.decrypt prim userKey = .ok d' → d'.name ≠ some name

theorem namedItems_append (name : Str) (cs cs' : List EncryptedCipher) :
    namedItems prim userKey name (cs ++ cs') =
      namedItems prim userKey name cs ++ namedItems prim userKey name cs' :=
  List.filterMap_append

theorem namedItems_eq_singleton {name : Str} {cs : List EncryptedCipher} {d : DecryptedCipher} :
    namedItems prim userKey name cs = [d] ↔ NamedOnce prim userKey name cs d := by
  refine ⟨fun h => ?_, fun hiff => ?_⟩
  · have hmem : d ∈ namedItems prim userKey name cs := by
      rw [h]
      exact List.mem_singleton_self d
    obtain ⟨c, hc, hserv, hdec, hname⟩ := mem_namedItems.mp hmem
    obtain ⟨pre, post, rfl⟩ := List.append_of_mem hc
    refine ⟨pre, c, post, rfl, hserv, hdec, hname, ?_⟩
    rw [namedItems_append, namedItems_cons_ok hserv hdec, if_pos hname] at h
    -- the one item is that of `c`, so the ciphers around it give none
    have hlen := congrArg List.length h
    simp only [List.length_append, List.length_cons, List.length_nil] at hlen
    have hpre : (namedItems prim userKey name pre).length = 0 := by omega
    have hpost : (namedItems prim userKey name post).length = 0 := by omega
    rw [← namedItems_eq_nil, namedItems_append, List.length_eq_zero_iff.mp hpre, List.length_eq_zero_iff.mp hpost]
    rfl
  · obtain ⟨pre, c, post, rfl, hserv, hdec, hname, hothers⟩ := hiff
    rw [← namedItems_eq_nil, namedItems_append, List.append_eq_nil_iff] at hothers
    rw [namedItems_append, namedItems_cons_ok hserv hdec, if_pos hname, hothers.1, hothers.2]
    rfl

theorem namedItems_perm {name : Str} {cs cs' : List EncryptedCipher} (h : cs'.Perm cs) :
    (namedItems prim userKey name cs').Perm (namedItems prim userKey name cs) :=
  h.filterMap _

theorem allDecrypt_perm {cs cs' : List EncryptedCipher} (h : cs'.Perm cs) :
    AllDecrypt prim userKey cs' ↔ AllDecrypt prim userKey cs := by
  simp only [AllDecrypt, h.mem_iff]

theorem hasShared_eq_true {cs : List EncryptedCipher} :
    hasShared cs = true ↔ ∃ c ∈ cs, c.deletedDate = none ∧ c.organizationId ≠ none := by
  simp [hasShared, Option.isSome_iff_ne_none]

theorem hasShared_perm {cs cs' : List EncryptedCipher} (h : cs'.Perm cs) : hasShared cs' = hasShared cs := by
  rw [Bool.eq_iff_iff, hasShared_eq_true, hasShared_eq_true]
  simp only [h.mem_iff]

theorem ScanError.perm {cs cs' : List EncryptedCipher} {name : Str} {e : BitwardenClientError} (h : cs'.Perm cs)
    (he : ScanError prim userKey cs' (namedItems prim userKey name cs') e) :
    ScanError prim userKey cs (namedItems prim userKey name cs) e := by
  rcases he with ⟨c, hc, hrest⟩ | ⟨htwo, he⟩
  · exact Or.inl ⟨c, h.mem_iff.mp hc, hrest⟩
  · exact Or.inr ⟨(namedItems_perm h).length_eq ▸ htwo, he⟩

/-- In a vault that decrypts, the order of the ciphers does not show. -/
theorem resolveByName_perm {s s' : SyncResponse} {n : Str} (h : s'.ciphers.Perm s.ciphers)
    (hall : AllDecrypt prim userKey s.ciphers) :
    resolveSyncedCipherByName prim s' userKey n = resolveSyncedCipherByName prim s userKey n := by
  have hitems : (namedItems prim userKey n s'.ciphers).Perm (namedItems prim userKey n s.ciphers) :=
    namedItems_perm h
  have hall' := (allDecrypt_perm h).mpr hall
  by_cases hone : (namedItems prim userKey n s.ciphers).length ≤ 1
  · have heq : namedItems prim userKey n s'.ciphers = namedItems prim userKey n s.ciphers := by
      generalize namedItems prim userKey n s.ciphers = items at hitems hone
      match items with
      | [] => exact hitems.eq_nil
      | [d] => exact hitems.eq_singleton
      | _ :: _ :: _ => simp at hone
    rw [resolveByName_complete hall hone, resolveByName_complete hall' (by rw [heq]; exact hone), heq,
      hasShared_perm h]
  · have hambiguous : ∀ {t : SyncResponse}, AllDecrypt prim userKey t.ciphers →
        2 ≤ (namedItems prim userKey n t.ciphers).length →
        resolveSyncedCipherByName prim t userKey n = .error (.api .ambiguousCipherName) := by
      intro t ht htwo
      obtain ⟨e, he, herr⟩ := resolveByName_fails (s := t) fun _ => htwo
      rcases herr with ⟨c, hc, hserv, e', hdec, -⟩ | ⟨-, rfl⟩
      · obtain ⟨d, hd⟩ := ht c hc hserv
        rw [hdec] at hd
        cases hd
      · exact he
    rw [hambiguous hall (by omega), hambiguous hall' (by rw [hitems.length_eq]; omega)]

/-- A lookup by name finds an item when every servable cipher decrypts and one of
them carries the name; it reports a shared vault or absence when they all
decrypt and none does. Every other vault is an ambiguity or a decryption error.
Reordering the vault changes nothing but, where some item does not decrypt,
which of its errors is reported. -/
theorem name_lookup_exact (prim : Primitives) (userKey : AuthenticatedSymmetricKey) (s : SyncResponse) (n : Str) :
    (∀ d, resolveSyncedCipherByName prim s userKey n = .ok d ↔
      AllDecrypt prim userKey s.ciphers ∧ NamedOnce prim userKey n s.ciphers d) ∧
    (resolveSyncedCipherByName prim s userKey n = .error (.api .unsupportedSharedItem) ↔
      AllDecrypt prim userKey s.ciphers ∧ namedItems prim userKey n s.ciphers = [] ∧
        ∃ c ∈ s.ciphers, c.deletedDate = none ∧ c.organizationId ≠ none) ∧
    (resolveSyncedCipherByName prim s userKey n = .error (.api .cipherNotFound) ↔
      AllDecrypt prim userKey s.ciphers ∧ namedItems prim userKey n s.ciphers = [] ∧
        ¬ ∃ c ∈ s.ciphers, c.deletedDate = none ∧ c.organizationId ≠ none) ∧
    (∀ e, resolveSyncedCipherByName prim s userKey n = .error e →
      e = .api .unsupportedSharedItem ∨ e = .api .cipherNotFound ∨
        ScanError prim userKey s.ciphers (namedItems prim userKey n s.ciphers) e) ∧
    (∀ s', s'.ciphers.Perm s.ciphers →
      resolveSyncedCipherByName prim s' userKey n = resolveSyncedCipherByName prim s userKey n ∨
      ¬ AllDecrypt prim userKey s.ciphers ∧
        ∃ e e', resolveSyncedCipherByName prim s userKey n = .error e ∧
          resolveSyncedCipherByName prim s' userKey n = .error e' ∧
          ScanError prim userKey s.ciphers (namedItems prim userKey n s.ciphers) e ∧
          ScanError prim userKey s.ciphers (namedItems prim userKey n s.ciphers) e') := by
  refine ⟨fun d => ?_, ?_, ?_, ?_, ?_⟩
  · rw [resolveByName_eq_ok, namedItems_eq_singleton]
  · rw [resolveByName_absent (by simp), ← hasShared_eq_true]
    cases hasShared s.ciphers <;> simp
  · rw [resolveByName_absent (by simp), ← hasShared_eq_true]
    cases hasShared s.ciphers <;> simp
  · intro e he
    rcases resolveByName_cases prim userKey s n with ⟨e', he', herr, -⟩ | ⟨-, ⟨-, he'⟩ | ⟨d, -, hd⟩⟩
    · rw [he] at he'
      obtain rfl := Except.error.inj he'
      exact Or.inr (Or.inr herr)
    · rw [he] at he'
      obtain rfl := Except.error.inj he'
      cases hasShared s.ciphers with
      | true => exact Or.inl rfl
      | false => exact Or.inr (Or.inl rfl)
    · rw [he] at hd
      cases hd
  · intro s' hperm
    by_cases hall : AllDecrypt prim userKey s.ciphers
    · exact Or.inl (resolveByName_perm hperm hall)
    · obtain ⟨e, he, herr⟩ := resolveByName_fails fun h => absurd h hall
      obtain ⟨e', he', herr'⟩ := resolveByName_fails fun h => absurd ((allDecrypt_perm hperm).mp h) hall
      exact Or.inr ⟨hall, e, e', he, he', herr, herr'.perm hperm⟩

/-- A note whose text is not in the encrypted format. -/
def malformedNote (notes : String) : EncryptedCipher := { vectorCipher with notes := some notes.toList }

/-- Two items that do not decrypt, and none of the name: the order decides which
error is reported. -/
theorem name_lookup_reports_by_order :
    [malformedNote "x.y", malformedNote "plain"].Perm [malformedNote "plain", malformedNote "x.y"] ∧
    namedItems vectors.primitives (Fixture.halves vectorUserKey) "db".toList
      [malformedNote "plain", malformedNote "x.y"] = [] ∧
    resolveSyncedCipherByName vectors.primitives ⟨[malformedNote "plain", malformedNote "x.y"]⟩
      (Fixture.halves vectorUserKey) "db".toList = .error (.cipher (.crypto .legacyNoMacDisabled)) ∧
    resolveSyncedCipherByName vectors.primitives ⟨[malformedNote "x.y", malformedNote "plain"]⟩
      (Fixture.halves vectorUserKey) "db".toList = .error (.cipher (.crypto .invalidEncryptionTypeHeader)) := by
  refine ⟨List.Perm.swap _ _ _, rfl, rfl, rfl⟩

end Bweso
