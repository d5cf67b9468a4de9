import Bweso.Sanity.Crypto
import Bweso.Spec.Api
import Bweso.Spec.Fixture

/-! What the lookup finds and how it can fail, and which errors a fetch cannot
return. -/

namespace Bweso

/-! ### Errors of a fetch -/

theorem endpointUrl_error {base : Url} {segments : List Str} {e : BitwardenApiError}
    (h : endpointUrl base segments = .error e) : e = .invalidBaseUrl := by
  unfold endpointUrl at h
  split_ifs at h
  exact (Except.error.inj h).symm

theorem collectBody_error {endpoint : Str} {limit : ℕ} {chunks : List Bytes} {body : Bytes}
    {e : BitwardenApiError} (h : collectBody endpoint limit chunks body = .error e) :
    e = .responseTooLarge endpoint limit := by
  induction chunks generalizing body with
  | nil => simp [collectBody] at h
  | cons chunk rest ih =>
    simp only [collectBody] at h
    split_ifs at h
    · exact (Except.error.inj h).symm
    · exact ih h

theorem decodeJson_error {α : Type} {fromSlice : Bytes → Option α} {endpoint : Str} {reply : HttpReply}
    {e : BitwardenApiError} (h : decodeJson fromSlice endpoint reply = .error e) :
    e = .http ∨ (∃ status, e = .httpStatus endpoint status) ∨
      e = .responseTooLarge endpoint maxUpstreamResponseBytes ∨ e = .invalidJson endpoint := by
  cases reply with
  | transportError => exact Or.inl (Except.error.inj h).symm
  | response status chunks complete =>
    simp only [decodeJson] at h
    split_ifs at h
    · simp only [decodeJsonBody, Except.bind_eq_error] at h
      rcases h with h | ⟨body, -, h⟩
      · exact Or.inr (Or.inr (Or.inl (collectBody_error h)))
      · cases complete with
        | false => exact Or.inl (Except.error.inj h).symm
        | true =>
          cases hs : fromSlice body with
          | none =>
            simp only [Bool.not_true, Bool.false_eq_true, if_false, hs] at h
            exact Or.inr (Or.inr (Or.inr (Except.error.inj h).symm))
          | some a => simp [hs] at h
    · exact Or.inr (Or.inl ⟨status, (Except.error.inj h).symm⟩)

theorem kdfFromParts_error {kdfType iterations : ℕ} {memory parallelism : Option ℕ} {e : BitwardenApiError}
    (h : kdfFromParts kdfType iterations memory parallelism = .error e) :
    (∃ p, e = .missingKdfParameter p) ∨ e = .unsupportedKdfType kdfType := by
  unfold kdfFromParts at h
  split at h
  · simp at h
  · cases memory with
    | none => exact Or.inl ⟨_, (Except.error.inj h).symm⟩
    | some m =>
      cases parallelism with
      | none => exact Or.inl ⟨_, (Except.error.inj h).symm⟩
      | some p => simp at h
  · exact Or.inr (Except.error.inj h).symm

theorem unlockDataTryFrom_error {r : MasterPasswordUnlockResponse} {e : BitwardenApiError}
    (h : MasterPasswordUnlockData.tryFrom r = .error e) :
    e = .missingMasterKeyWrappedUserKey ∨ (∃ p, e = .missingKdfParameter p) ∨
      ∃ kdfType, e = .unsupportedKdfType kdfType := by
  unfold MasterPasswordUnlockData.tryFrom at h
  cases hk : r.masterKeyWrappedUserKey.or r.masterKeyEncryptedUserKey with
  | none =>
    rw [hk] at h
    exact Or.inl (Except.error.inj h).symm
  | some wrapped =>
    simp only [hk, Except.bind_eq_error] at h
    rcases h with h | ⟨kdf, -, h⟩
    · rcases kdfFromParts_error h with h | h
      · exact Or.inr (Or.inl h)
      · exact Or.inr (Or.inr ⟨_, h⟩)
    · simp at h

theorem unlockSession_error {prim : Primitives} {response : TokenResponse} {password : Str} {limit : ℕ}
    {e : BitwardenClientError} (h : unlockSession prim response password limit = .error e) :
    e ≠ .api .cipherNotFound ∧ e ≠ .api .refreshThrottled := by
  unfold unlockSession at h
  cases hu : response.userDecryptionOptions.bind (·.masterPasswordUnlock) with
  | none =>
    rw [hu] at h
    rw [← Except.error.inj h]
    simp
  | some unlock =>
    simp only [hu, Except.bind_eq_error, Except.mapError_eq_error] at h
    rcases h with ⟨e', h, rfl⟩ | ⟨_, -, ⟨e', -, rfl⟩ | ⟨_, -, ⟨e', -, rfl⟩ | ⟨_, -, h⟩⟩⟩
    · rcases unlockDataTryFrom_error h with rfl | ⟨_, rfl⟩ | ⟨_, rfl⟩ <;> simp
    · simp
    · simp
    · simp at h

theorem decodeJson_ne {α : Type} {fromSlice : Bytes → Option α} {endpoint : Str} {reply : HttpReply}
    {e : BitwardenApiError} (h : decodeJson fromSlice endpoint reply = .error e) :
    e ≠ .cipherNotFound ∧ e ≠ .refreshThrottled := by
  rcases decodeJson_error h with rfl | ⟨_, rfl⟩ | rfl | rfl <;> simp

theorem loginWithApiKey_error {cfg : ClientConfig} {up : Upstream} {e : BitwardenClientError}
    (h : loginWithApiKey cfg up = .error e) : e ≠ .api .cipherNotFound ∧ e ≠ .api .refreshThrottled := by
  unfold loginWithApiKey at h
  simp only [Except.bind_eq_error, Except.mapError_eq_error] at h
  rcases h with ⟨e', h, rfl⟩ | ⟨url, -, ⟨e', h, rfl⟩ | ⟨response, -, h⟩⟩
  · rw [endpointUrl_error h]
    simp
  · simpa using decodeJson_ne h
  · cases hu : up.unlockTask with
    | false =>
      simp only [hu, Bool.not_false, if_true, Except.throw_bind, Except.error.injEq] at h
      simp [← h]
    | true =>
      simp only [hu, Bool.not_true, Bool.false_eq_true, if_false] at h
      exact unlockSession_error h

theorem sync_error {cfg : ClientConfig} {up : Upstream} {session : BitwardenSession}
    {e : BitwardenClientError} (h : sync cfg up session = .error e) :
    e ≠ .api .cipherNotFound ∧ e ≠ .api .refreshThrottled := by
  unfold sync at h
  simp only [Except.bind_eq_error, Except.mapError_eq_error] at h
  rcases h with ⟨e', h, rfl⟩ | ⟨url, -, ⟨e', h, rfl⟩⟩
  · rw [endpointUrl_error h]
    simp
  · simpa using decodeJson_ne h

/-- A failed fetch never says that an item is missing or that it was put off. -/
theorem fetchVault_error {cfg : ClientConfig} {up : Upstream} {e : BitwardenClientError}
    (h : fetchVault cfg up = .error e) : e ≠ .api .cipherNotFound ∧ e ≠ .api .refreshThrottled := by
  unfold fetchVault at h
  simp only [Except.bind_eq_error] at h
  rcases h with h | ⟨session, -, h | ⟨response, -, h⟩⟩
  · exact loginWithApiKey_error h
  · exact sync_error h
  · simp at h

/-! ### Selectors -/

theorem tryFrom_key {r : RemoteRef} {selector : BitwardenSelector}
    (h : BitwardenSelector.tryFrom r = .ok selector) : selector.key = trim r.key := by
  unfold BitwardenSelector.tryFrom at h
  simp only [Except.throw_bind, Except.bind_eq_ok, Except.guard_eq_ok, Except.pure_eq_ok,
    Except.ok.injEq] at h
  obtain ⟨_, -, -, _, -, _, -, rfl⟩ := h
  rfl

theorem selectorProperty_error {property : Option Str} {e : BitwardenClientError}
    (h : selectorProperty property = .error e) : ∃ v, e = .validation v := by
  cases property with
  | none => simp [selectorProperty] at h
  | some p =>
    simp only [selectorProperty, Except.bind_eq_error, Except.mapError_eq_error] at h
    rcases h with ⟨v, -, rfl⟩ | ⟨_, -, h⟩
    · exact ⟨v, rfl⟩
    · simp at h

theorem validateSelectorKey_error {key : Str} {e : BitwardenClientError}
    (h : validateSelectorKey key = .error e) : (∃ v, e = .validation v) ∨ e = .unprefixedSelectorKey := by
  unfold validateSelectorKey at h
  split at h
  · obtain ⟨v, -, rfl⟩ := Except.mapError_eq_error.mp h
    exact Or.inl ⟨v, rfl⟩
  · exact Or.inr (Except.error.inj h).symm

/-- A selector is rejected for its own shape. -/
theorem selectorTryFrom_error {r : RemoteRef} {e : BitwardenClientError}
    (h : BitwardenSelector.tryFrom r = .error e) :
    (∃ v, e = .validation v) ∨ e = .unsupportedVersionSelector ∨ e = .unprefixedSelectorKey := by
  unfold BitwardenSelector.tryFrom at h
  simp only [Except.bind_eq_error, Except.mapError_eq_error] at h
  rcases h with ⟨v, -, rfl⟩ | ⟨_, -, h⟩
  · exact Or.inl ⟨v, rfl⟩
  · by_cases hv : (r.version.any fun v => !blank v) = true
    · rw [if_pos hv] at h
      exact Or.inr (Or.inl (Except.error.inj h).symm)
    · rw [if_neg hv] at h
      simp only [Except.bind_eq_error] at h
      rcases h with h | ⟨_, -, h | ⟨_, -, h⟩⟩
      · exact Or.inl (selectorProperty_error h)
      · rcases validateSelectorKey_error h with h | h
        · exact Or.inl h
        · exact Or.inr (Or.inr h)
      · simp at h

/-! ### Decryption and lookup -/

theorem fromKey_id {key x : Str} : CipherLookup.fromKey key = .ok (.id x) ↔ key = "id:".toList ++ x := by
  unfold CipherLookup.fromKey
  refine ⟨fun h => ?_, fun h => ?_⟩
  · cases hi : stripPrefix key "id:".toList with
    | some y =>
      simp only [hi, Except.ok.injEq, CipherLookup.id.injEq] at h
      exact stripPrefix_eq_some.mp (h ▸ hi)
    | none =>
      cases hn : stripPrefix key "name:".toList <;>
        simp only [hi, hn, Except.ok.injEq, reduceCtorEq] at h
  · rw [stripPrefix_eq_some.mpr h]

theorem fromKey_name {key n : Str} : CipherLookup.fromKey key = .ok (.name n) ↔ key = "name:".toList ++ n := by
  unfold CipherLookup.fromKey
  refine ⟨fun h => ?_, fun h => ?_⟩
  · cases hi : stripPrefix key "id:".toList with
    | some y => simp only [hi, Except.ok.injEq, reduceCtorEq] at h
    | none =>
      cases hn : stripPrefix key "name:".toList with
      | none => simp only [hi, hn, reduceCtorEq] at h
      | some y =>
        simp only [hi, hn, Except.ok.injEq, CipherLookup.name.injEq] at h
        exact stripPrefix_eq_some.mp (h ▸ hn)
  · have hi : stripPrefix key "id:".toList = none := by
      rw [h]
      rfl
    rw [hi, stripPrefix_eq_some.mpr h]

section
variable {prim : Primitives} {userKey : AuthenticatedSymmetricKey}

theorem decrypt_keeps {c : EncryptedCipher} {d : DecryptedCipher} (h : c.decrypt prim userKey = .ok d) :
    d.id = c.id ∧ d.organizationId = c.organizationId := by
  unfold EncryptedCipher.decrypt at h
  simp only [Except.bind_eq_ok, Except.pure_eq_ok, Except.ok.injEq] at h
  obtain ⟨_, -, _, -, _, -, _, -, _, -, _, -, rfl⟩ := h
  exact ⟨rfl, rfl⟩

/-- A cipher the provider may serve: not in the trash and not shared. -/
def EncryptedCipher.Servable (c : EncryptedCipher) : Prop := c.deletedDate = none ∧ c.organizationId = none

instance (c : EncryptedCipher) : Decidable c.Servable :=
  inferInstanceAs (Decidable (c.deletedDate = none ∧ c.organizationId = none))

/-- No undeleted cipher is shared, fails to decrypt, or carries the name. -/
def NameAbsent (prim : Primitives) (userKey : AuthenticatedSymmetricKey) (name : Str)
    (ciphers : List EncryptedCipher) : Prop :=
  ∀ c ∈ ciphers, c.deletedDate = none → c.organizationId = none ∧
    ∃ d, c.decrypt prim userKey = .ok d ∧ d.name ≠ some name

/-- One turn of the scan, on a cipher that is neither deleted nor shared. -/
theorem scanByName_servable {c : EncryptedCipher} {cs : List EncryptedCipher} {name : Str}
    {nameMatch : Option DecryptedCipher} {shared : Bool} (hc : c.Servable) :
    scanByName prim userKey name (c :: cs) nameMatch shared =
      (c.decrypt prim userKey).mapError BitwardenClientError.cipher >>= fun decrypted =>
        if decrypted.name = some name then
          if nameMatch.isSome then .error (.api .ambiguousCipherName)
          else scanByName prim userKey name cs (some decrypted) shared
        else scanByName prim userKey name cs nameMatch shared := by
  simp [scanByName, hc.1, hc.2]

theorem scanByName_deleted {c : EncryptedCipher} {cs : List EncryptedCipher} {name date : Str}
    {nameMatch : Option DecryptedCipher} {shared : Bool} (hc : c.deletedDate = some date) :
    scanByName prim userKey name (c :: cs) nameMatch shared =
      scanByName prim userKey name cs nameMatch shared := by
  simp [scanByName, hc]

theorem scanByName_shared {c : EncryptedCipher} {cs : List EncryptedCipher} {name org : Str}
    {nameMatch : Option DecryptedCipher} {shared : Bool} (hd : c.deletedDate = none)
    (ho : c.organizationId = some org) :
    scanByName prim userKey name (c :: cs) nameMatch shared =
      scanByName prim userKey name cs nameMatch true := by
  simp [scanByName, hd, ho]

/-- Every servable cipher decrypts. -/
def AllDecrypt (prim : Primitives) (userKey : AuthenticatedSymmetricKey) (ciphers : List EncryptedCipher) : Prop :=
  ∀ c ∈ ciphers, c.Servable → ∃ d, c.decrypt prim userKey = .ok d

/-- The decryption of a servable cipher that carries the name. -/
def namedItem (prim : Primitives) (userKey : AuthenticatedSymmetricKey) (name : Str) (c : EncryptedCipher) :
    Option DecryptedCipher :=
  if c.Servable then (c.decrypt prim userKey).toOption.filter fun d => d.name = some name else none

/-- The servable ciphers of that name, decrypted, in vault order. -/
def namedItems (prim : Primitives) (userKey : AuthenticatedSymmetricKey) (name : Str)
    (ciphers : List EncryptedCipher) : List DecryptedCipher :=
  ciphers.filterMap (namedItem prim userKey name)

/-- An undeleted cipher of the vault belongs to an organization. -/
def hasShared (ciphers : List EncryptedCipher) : Bool :=
  ciphers.any fun c => c.deletedDate.isNone && c.organizationId.isSome

/-- An error a scan of these ciphers may end with: that of a servable cipher that
does not decrypt, or the ambiguity of two items of the name. -/
def ScanError (prim : Primitives) (userKey : AuthenticatedSymmetricKey) (ciphers : List EncryptedCipher)
    (found : List DecryptedCipher) (e : BitwardenClientError) : Prop :=
  (∃ c ∈ ciphers, c.Servable ∧ ∃ e', c.decrypt prim userKey = .error e' ∧ e = .cipher e') ∨
    2 ≤ found.length ∧ e = .api .ambiguousCipherName

theorem mem_namedItems {name : Str} {cs : List EncryptedCipher} {d : DecryptedCipher} :
    d ∈ namedItems prim userKey name cs ↔
      ∃ c ∈ cs, c.Servable ∧ c.decrypt prim userKey = .ok d ∧ d.name = some name := by
  simp only [namedItems, List.mem_filterMap]
  refine exists_congr fun c => and_congr_right fun _ => ?_
  unfold namedItem
  split_ifs with hc
  · cases c.decrypt prim userKey with
    | error e => simp [Except.toOption, hc]
    | ok d' =>
      simp only [Except.toOption, Option.filter_some, Option.ite_none_right_eq_some, decide_eq_true_eq,
        Option.some.injEq, Except.ok.injEq, hc, true_and]
      refine ⟨fun h => ?_, fun h => ?_⟩
      · obtain ⟨hn, rfl⟩ := h
        exact ⟨rfl, hn⟩
      · obtain ⟨rfl, hn⟩ := h
        exact ⟨hn, rfl⟩
  · simp [hc]

theorem namedItems_cons_ok {name : Str} {c : EncryptedCipher} {cs : List EncryptedCipher} {d : DecryptedCipher}
    (hc : c.Servable) (hd : c.decrypt prim userKey = .ok d) :
    namedItems prim userKey name (c :: cs) =
      if d.name = some name then d :: namedItems prim userKey name cs else namedItems prim userKey name cs := by
  have hitem : namedItem prim userKey name c = if d.name = some name then some d else none := by
    rw [namedItem, if_pos hc, hd]
    simp [Except.toOption, Option.filter_some]
  unfold namedItems
  rw [List.filterMap_cons, hitem]
  split_ifs <;> rfl

theorem namedItems_cons_skip {name : Str} {c : EncryptedCipher} {cs : List EncryptedCipher} (hc : ¬ c.Servable) :
    namedItems prim userKey name (c :: cs) = namedItems prim userKey name cs := by
  rw [namedItems, List.filterMap_cons, namedItem, if_neg hc]
  rfl

/-- A scan over a vault that decrypts, with at most one item of the name, runs to
its end. -/
theorem scanByName_complete {name : Str} {cs : List EncryptedCipher} {nameMatch : Option DecryptedCipher}
    {shared : Bool} (hall : AllDecrypt prim userKey cs)
    (hone : (nameMatch.toList ++ namedItems prim userKey name cs).length ≤ 1) :
    scanByName prim userKey name cs nameMatch shared =
      .ok ((nameMatch.toList ++ namedItems prim userKey name cs).head?, shared || hasShared cs) := by
  induction cs generalizing nameMatch shared with
  | nil => cases nameMatch <;> simp [scanByName, namedItems, hasShared]
  | cons c cs ih =>
    have hrest : AllDecrypt prim userKey cs := fun x hx => hall x (by simp [hx])
    cases hd : c.deletedDate with
    | some date =>
      have hskip : ¬ c.Servable := fun h => by simp [h.1] at hd
      rw [namedItems_cons_skip hskip] at hone ⊢
      rw [scanByName_deleted hd, ih hrest hone]
      simp [hasShared, hd]
    | none =>
      cases ho : c.organizationId with
      | some org =>
        have hskip : ¬ c.Servable := fun h => by simp [h.2] at ho
        rw [namedItems_cons_skip hskip] at hone ⊢
        rw [scanByName_shared hd ho, ih hrest hone]
        simp [hasShared, hd, ho]
      | none =>
        obtain ⟨d, hdec⟩ := hall c (by simp) ⟨hd, ho⟩
        have hshared : hasShared (c :: cs) = hasShared cs := by simp [hasShared, ho]
        rw [scanByName_servable ⟨hd, ho⟩, hdec, hshared]
        rw [namedItems_cons_ok ⟨hd, ho⟩ hdec] at hone ⊢
        simp only [Except.mapError, Except.ok_bind]
        split_ifs at hone ⊢ with hname hsome
        · -- a second match would make two
          obtain ⟨m, rfl⟩ := Option.isSome_iff_exists.mp hsome
          simp at hone
        · rw [Option.not_isSome_iff_eq_none] at hsome
          subst hsome
          exact ih hrest hone
        · exact ih hrest hone

/-- In every other vault the scan stops, and not for want of an item. -/
theorem scanByName_fails {name : Str} {cs : List EncryptedCipher} {nameMatch : Option DecryptedCipher} {shared : Bool}
    (h : AllDecrypt prim userKey cs → 2 ≤ (nameMatch.toList ++ namedItems prim userKey name cs).length) :
    ∃ e, scanByName prim userKey name cs nameMatch shared = .error e ∧
      ScanError prim userKey cs (nameMatch.toList ++ namedItems prim userKey name cs) e := by
  induction cs generalizing nameMatch shared with
  | nil =>
    have := h (fun c hc => by simp at hc)
    cases nameMatch <;> simp [namedItems] at this
  | cons c cs ih =>
    have hmono : ∀ {found e}, ScanError prim userKey cs found e → ScanError prim userKey (c :: cs) found e := by
      rintro found e (⟨x, hx, hrest⟩ | hamb)
      · exact Or.inl ⟨x, List.mem_cons_of_mem _ hx, hrest⟩
      · exact Or.inr hamb
    by_cases hserv : c.Servable
    · rw [scanByName_servable hserv]
      cases hdec : c.decrypt prim userKey with
      | error e => exact ⟨.cipher e, rfl, Or.inl ⟨c, by simp, hserv, e, hdec, rfl⟩⟩
      | ok d =>
        rw [namedItems_cons_ok hserv hdec] at h ⊢
        have hrest : AllDecrypt prim userKey cs → AllDecrypt prim userKey (c :: cs) := by
          intro hall x hx hx'
          rcases List.mem_cons.mp hx with rfl | hx
          · exact ⟨d, hdec⟩
          · exact hall x hx hx'
        simp only [Except.mapError, Except.ok_bind]
        split_ifs at h ⊢ with hname hsome
        · obtain ⟨m, rfl⟩ := Option.isSome_iff_exists.mp hsome
          exact ⟨_, rfl, Or.inr ⟨by simp, rfl⟩⟩
        · rw [Option.not_isSome_iff_eq_none] at hsome
          subst hsome
          obtain ⟨e, he, herr⟩ := @ih (some d) shared fun hall => h (hrest hall)
          exact ⟨e, he, hmono herr⟩
        · obtain ⟨e, he, herr⟩ := @ih nameMatch shared fun hall => h (hrest hall)
          exact ⟨e, he, hmono herr⟩
    · rw [namedItems_cons_skip hserv] at h ⊢
      have hrest : AllDecrypt prim userKey cs → AllDecrypt prim userKey (c :: cs) := by
        intro hall x hx hx'
        rcases List.mem_cons.mp hx with rfl | hx
        · exact absurd hx' hserv
        · exact hall x hx hx'
      have hstep : ∃ shared', scanByName prim userKey name (c :: cs) nameMatch shared =
          scanByName prim userKey name cs nameMatch shared' := by
        cases hd : c.deletedDate with
        | some date => exact ⟨shared, scanByName_deleted hd⟩
        | none =>
          cases ho : c.organizationId with
          | some org => exact ⟨true, scanByName_shared hd ho⟩
          | none => exact absurd ⟨hd, ho⟩ hserv
      obtain ⟨shared', hstep⟩ := hstep
      obtain ⟨e, he, herr⟩ := @ih nameMatch shared' fun hall => h (hrest hall)
      exact ⟨e, hstep.trans he, hmono herr⟩

/-- The vault has no cipher for the key, in the only two ways that count. -/
def KeyAbsent (prim : Primitives) (userKey : AuthenticatedSymmetricKey) (ciphers : List EncryptedCipher)
    (key : Str) : Prop :=
  (∃ x, key = "id:".toList ++ x ∧ ¬ ∃ c ∈ ciphers, c.id = x ∧ c.deletedDate = none) ∨
    ∃ n, key = "name:".toList ++ n ∧ NameAbsent prim userKey n ciphers

theorem findCipherById_eq_ok {s : SyncResponse} {x : Str} {c : EncryptedCipher}
    (h : findCipherById s x = .ok c) : c ∈ s.ciphers ∧ c.id = x ∧ c.deletedDate = none := by
  unfold findCipherById at h
  cases hf : s.ciphers.find? fun c => c.id == x && c.deletedDate.isNone with
  | none => simp [hf] at h
  | some c' =>
    simp only [hf, Except.ok.injEq] at h
    subst h
    have hp := List.find?_some hf
    simp only [Bool.and_eq_true, beq_iff_eq, Option.isNone_iff_eq_none] at hp
    exact ⟨List.mem_of_find?_eq_some hf, hp.1, hp.2⟩

theorem findCipherById_eq_error {s : SyncResponse} {x : Str} {e : BitwardenApiError} :
    findCipherById s x = .error e ↔
      e = .cipherNotFound ∧ ¬ ∃ c ∈ s.ciphers, c.id = x ∧ c.deletedDate = none := by
  unfold findCipherById
  cases hf : s.ciphers.find? fun c => c.id == x && c.deletedDate.isNone with
  | none =>
    rw [List.find?_eq_none] at hf
    have habsent : ¬ ∃ c ∈ s.ciphers, c.id = x ∧ c.deletedDate = none := by
      intro ⟨c, hc, hid, hd⟩
      exact hf c hc (by simp [hid, hd])
    exact ⟨fun h => ⟨(Except.error.inj h).symm, habsent⟩, fun h => by rw [h.1]⟩
  | some c =>
    have hp := List.find?_some hf
    simp only [Bool.and_eq_true, beq_iff_eq, Option.isNone_iff_eq_none] at hp
    have hfound : ∃ c ∈ s.ciphers, c.id = x ∧ c.deletedDate = none :=
      ⟨c, List.mem_of_find?_eq_some hf, hp⟩
    simp [hfound]

theorem resolveById_notFound {s : SyncResponse} {x : Str} :
    resolveSyncedCipherById prim s userKey x = .error (.api .cipherNotFound) ↔
      ¬ ∃ c ∈ s.ciphers, c.id = x ∧ c.deletedDate = none := by
  unfold resolveSyncedCipherById
  simp only [Except.bind_eq_error, Except.mapError_eq_error, findCipherById_eq_error]
  refine ⟨fun h => ?_, fun h => Or.inl ⟨_, ⟨rfl, h⟩, rfl⟩⟩
  rcases h with ⟨e, ⟨-, habsent⟩, -⟩ | ⟨c, -, h⟩
  · exact habsent
  · split_ifs at h
    · simp at h
    · obtain ⟨e, -, h⟩ := Except.mapError_eq_error.mp h
      simp at h

/-- A lookup by name in a vault that decrypts, with at most one item of the name. -/
theorem resolveByName_complete {s : SyncResponse} {n : Str} (hall : AllDecrypt prim userKey s.ciphers)
    (hone : (namedItems prim userKey n s.ciphers).length ≤ 1) :
    resolveSyncedCipherByName prim s userKey n =
      match (namedItems prim userKey n s.ciphers).head? with
      | some d => .ok d
      | none => .error (.api (if hasShared s.ciphers then .unsupportedSharedItem else .cipherNotFound)) := by
  have hscan := @scanByName_complete prim userKey n s.ciphers none false hall hone
  rw [resolveSyncedCipherByName, hscan, Except.ok_bind]
  cases hasShared s.ciphers <;> rfl

theorem resolveByName_fails {s : SyncResponse} {n : Str}
    (h : AllDecrypt prim userKey s.ciphers → 2 ≤ (namedItems prim userKey n s.ciphers).length) :
    ∃ e, resolveSyncedCipherByName prim s userKey n = .error e ∧
      ScanError prim userKey s.ciphers (namedItems prim userKey n s.ciphers) e := by
  obtain ⟨e, he, herr⟩ := @scanByName_fails prim userKey n s.ciphers none false h
  refine ⟨e, ?_, herr⟩
  rw [resolveSyncedCipherByName, he, Except.error_bind]

/-- A name lookup fails on the way, or ends with no item or with one. -/
theorem resolveByName_cases (prim : Primitives) (userKey : AuthenticatedSymmetricKey) (s : SyncResponse) (n : Str) :
    (∃ e, resolveSyncedCipherByName prim s userKey n = .error e ∧
        ScanError prim userKey s.ciphers (namedItems prim userKey n s.ciphers) e ∧
        (AllDecrypt prim userKey s.ciphers → 2 ≤ (namedItems prim userKey n s.ciphers).length)) ∨
      AllDecrypt prim userKey s.ciphers ∧
        (namedItems prim userKey n s.ciphers = [] ∧ resolveSyncedCipherByName prim s userKey n =
            .error (.api (if hasShared s.ciphers then .unsupportedSharedItem else .cipherNotFound)) ∨
          ∃ d, namedItems prim userKey n s.ciphers = [d] ∧ resolveSyncedCipherByName prim s userKey n = .ok d) := by
  by_cases hscan : AllDecrypt prim userKey s.ciphers → 2 ≤ (namedItems prim userKey n s.ciphers).length
  · obtain ⟨e, he, herr⟩ := resolveByName_fails hscan
    exact Or.inl ⟨e, he, herr, hscan⟩
  · obtain ⟨hall, hlen⟩ := Classical.not_imp.mp hscan
    rw [resolveByName_complete hall (by omega)]
    refine Or.inr ⟨hall, ?_⟩
    generalize namedItems prim userKey n s.ciphers = items at hlen
    match items with
    | [] => exact Or.inl ⟨rfl, rfl⟩
    | [d] => exact Or.inr ⟨d, rfl, rfl⟩
    | _ :: _ :: _ => simp at hlen

theorem resolveByName_eq_ok {s : SyncResponse} {n : Str} {d : DecryptedCipher} :
    resolveSyncedCipherByName prim s userKey n = .ok d ↔
      AllDecrypt prim userKey s.ciphers ∧ namedItems prim userKey n s.ciphers = [d] := by
  rcases resolveByName_cases prim userKey s n with
    ⟨e, he, -, htwo⟩ | ⟨hall, ⟨hitems, he⟩ | ⟨d', hitems, hd⟩⟩
  · simp only [he, reduceCtorEq, false_iff, not_and]
    intro hall hitems
    simpa [hitems] using htwo hall
  · simp [he, hitems]
  · simp [hd, hitems, hall]

/-- The one error of a lookup that ran to its end without a match. -/
theorem resolveByName_absent {s : SyncResponse} {n : Str} {e : BitwardenApiError} (he : e ≠ .ambiguousCipherName) :
    resolveSyncedCipherByName prim s userKey n = .error (.api e) ↔
      AllDecrypt prim userKey s.ciphers ∧ namedItems prim userKey n s.ciphers = [] ∧
        e = if hasShared s.ciphers then .unsupportedSharedItem else .cipherNotFound := by
  rcases resolveByName_cases prim userKey s n with
    ⟨e', he', herr, htwo⟩ | ⟨hall, ⟨hitems, he'⟩ | ⟨d, hitems, hd⟩⟩
  · have hne : e' ≠ .api e := by
      rintro rfl
      rcases herr with ⟨_, -, -, _, -, h⟩ | ⟨-, h⟩
      · cases h
      · exact he (BitwardenClientError.api.inj h)
    simp only [he', Except.error.injEq, hne, false_iff, not_and]
    intro hall hitems
    simpa [hitems] using htwo hall
  · simp only [he', hitems, Except.error.injEq, BitwardenClientError.api.injEq, hall, true_and]
    exact eq_comm
  · simp [hd, hitems]

theorem hasShared_eq_false {cs : List EncryptedCipher} :
    hasShared cs = false ↔ ∀ c ∈ cs, c.deletedDate = none → c.organizationId = none := by
  simp [hasShared]

theorem namedItems_eq_nil {name : Str} {cs : List EncryptedCipher} :
    namedItems prim userKey name cs = [] ↔
      ∀ c ∈ cs, c.Servable → ∀ d, c.decrypt prim userKey = .ok d → d.name ≠ some name := by
  rw [List.eq_nil_iff_forall_not_mem]
  simp only [mem_namedItems]
  constructor
  · intro h c hc hserv d hdec hname
    exact h d ⟨c, hc, hserv, hdec, hname⟩
  · rintro h d ⟨c, hc, hserv, hdec, hname⟩
    exact h c hc hserv d hdec hname

theorem nameAbsent_iff {n : Str} {cs : List EncryptedCipher} :
    NameAbsent prim userKey n cs ↔
      AllDecrypt prim userKey cs ∧ namedItems prim userKey n cs = [] ∧ hasShared cs = false := by
  rw [namedItems_eq_nil, hasShared_eq_false]
  constructor
  · intro h
    refine ⟨fun c hc hserv => ?_, fun c hc hserv d hdec => ?_, fun c hc hd => (h c hc hd).1⟩
    · obtain ⟨-, d, hdec, -⟩ := h c hc hserv.1
      exact ⟨d, hdec⟩
    · obtain ⟨-, d', hdec', hname⟩ := h c hc hserv.1
      rw [hdec] at hdec'
      rwa [Except.ok.inj hdec']
  · rintro ⟨hall, hnone, hshared⟩ c hc hd
    have hserv : c.Servable := ⟨hd, hshared c hc hd⟩
    obtain ⟨d, hdec⟩ := hall c hc hserv
    exact ⟨hserv.2, d, hdec, hnone c hc hserv d hdec⟩

theorem resolveByName_notFound {s : SyncResponse} {n : Str} :
    resolveSyncedCipherByName prim s userKey n = .error (.api .cipherNotFound) ↔
      NameAbsent prim userKey n s.ciphers := by
  rw [resolveByName_absent (by simp), nameAbsent_iff]
  cases hasShared s.ciphers <;> simp

theorem resolveSyncedCipher_notFound {s : SyncResponse} {key : Str} :
    resolveSyncedCipher prim s userKey key = .error (.api .cipherNotFound) ↔
      KeyAbsent prim userKey s.ciphers key := by
  unfold resolveSyncedCipher KeyAbsent
  refine ⟨fun h => ?_, fun h => ?_⟩
  · rcases Except.bind_eq_error.mp h with h | ⟨lookup, hkey, h⟩
    · unfold CipherLookup.fromKey at h
      split at h
      · simp at h
      · split at h <;> simp at h
    · cases lookup with
      | id x => exact Or.inl ⟨x, fromKey_id.mp hkey, resolveById_notFound.mp h⟩
      | name n => exact Or.inr ⟨n, fromKey_name.mp hkey, resolveByName_notFound.mp h⟩
  · rcases h with ⟨x, hkey, h⟩ | ⟨n, hkey, h⟩
    · rw [fromKey_id.mpr hkey]
      exact resolveById_notFound.mpr h
    · rw [fromKey_name.mpr hkey]
      exact resolveByName_notFound.mpr h

/-- What is found for a key is one servable cipher, with that id or that name. -/
theorem resolveSyncedCipher_ok {s : SyncResponse} {key : Str} {d : DecryptedCipher}
    (h : resolveSyncedCipher prim s userKey key = .ok d) :
    ∃ c ∈ s.ciphers, c.Servable ∧ c.decrypt prim userKey = .ok d ∧
      (key = "id:".toList ++ c.id ∨ ∃ n, d.name = some n ∧ key = "name:".toList ++ n) := by
  obtain ⟨lookup, hkey, h⟩ := Except.bind_eq_ok.mp h
  cases lookup with
  | id x =>
    unfold resolveSyncedCipherById at h
    simp only [Except.throw_bind, Except.bind_eq_ok, Except.mapError_eq_ok, Except.guard_eq_ok,
      Option.not_isSome_iff_eq_none] at h
    obtain ⟨c, hfind, horg, hdec⟩ := h
    obtain ⟨hmem, hid, hdel⟩ := findCipherById_eq_ok hfind
    exact ⟨c, hmem, ⟨hdel, horg⟩, hdec, Or.inl (by rw [hid]; exact fromKey_id.mp hkey)⟩
  | name n =>
    have hmem : d ∈ namedItems prim userKey n s.ciphers := by
      rw [(resolveByName_eq_ok.mp h).2]
      exact List.mem_singleton_self d
    obtain ⟨c, hc, hserv, hdec, hname⟩ := mem_namedItems.mp hmem
    exact ⟨c, hc, hserv, hdec, Or.inr ⟨n, hname, fromKey_name.mp hkey⟩⟩

/-- The document a decrypted cipher gives for a selector: the property under the
keys `value` and its own name, or the whole item. -/
def Extracts (d : DecryptedCipher) (selector : BitwardenSelector) (document : SecretDocument) : Prop :=
  match selector.property with
  | some property => ∃ value, d.extractProperty property = .ok value ∧
      document = propertyDocument property value
  | none => d.toSecretDocument = .ok document

theorem resolveFromSync_ok {s : SyncResponse} {selector : BitwardenSelector} {document : SecretDocument}
    (h : resolveFromSync prim s userKey selector = .ok document) :
    ∃ c ∈ s.ciphers, c.Servable ∧ ∃ d, c.decrypt prim userKey = .ok d ∧
      (selector.key = "id:".toList ++ c.id ∨ ∃ n, d.name = some n ∧ selector.key = "name:".toList ++ n) ∧
      Extracts d selector document := by
  obtain ⟨d, hd, h⟩ := Except.bind_eq_ok.mp h
  obtain ⟨c, hmem, hserv, hdec, hkey⟩ := resolveSyncedCipher_ok hd
  refine ⟨c, hmem, hserv, d, hdec, hkey, ?_⟩
  have horg : d.organizationId = none := by rw [(decrypt_keeps hdec).2, hserv.2]
  simp only [horg, Option.isSome_none, Bool.false_eq_true, if_false] at h
  unfold Extracts
  cases hp : selector.property with
  | some property =>
    simp only [hp, Except.bind_eq_ok, Except.mapError_eq_ok, Except.pure_eq_ok, Except.ok.injEq] at h
    obtain ⟨value, hv, rfl⟩ := h
    exact ⟨value, hv, rfl⟩
  | none =>
    simp only [hp, Except.mapError_eq_ok] at h
    exact h

/-- Of all the ways a resolve on a vault can fail, not-found is the absence of
the key. -/
theorem resolveFromSync_notFound {s : SyncResponse} {selector : BitwardenSelector} :
    resolveFromSync prim s userKey selector = .error (.api .cipherNotFound) ↔
      KeyAbsent prim userKey s.ciphers selector.key := by
  rw [← resolveSyncedCipher_notFound]
  unfold resolveFromSync
  refine ⟨fun h => ?_, fun h => ?_⟩
  · rcases Except.bind_eq_error.mp h with h | ⟨d, hd, h⟩
    · exact h
    · split_ifs at h
      · simp at h
      · cases hp : selector.property with
        | some property =>
          simp only [hp, Except.bind_eq_error, Except.mapError_eq_error] at h
          rcases h with ⟨e, -, h⟩ | ⟨value, -, h⟩ <;> simp at h
        | none =>
          simp only [hp, Except.mapError_eq_error] at h
          obtain ⟨e, -, h⟩ := h
          simp at h
  · rw [h]
    rfl

end

/-! ### The account of the test vectors -/

def vectorUrl : Url :=
  { scheme := "https".toList, authority := "vault.example.test".toList, host := some "vault.example.test".toList
    path := "/".toList, query := none, fragment := none, cannotBeABase := false }

/-- A token response, shortened to the fields the provider reads. -/
def vectorTokenText : Str :=
  ["\x7b\"access_token\":\"token\",", "\"expires_in\":3600,", "\"token_type\":\"Bearer\",",
    "\"UserDecryptionOptions\":\x7b", "\"MasterPasswordUnlock\":\x7b", "\"Kdf\":\x7b\"KdfType\":0,",
    "\"Iterations\":5000\x7d,", "\"MasterKeyWrappedUserKey\":\""].flatMap String.toList ++ vectorWrappedKey ++
    "\",\"Salt\":\"user@example.test\"\x7d\x7d\x7d".toList

def vectorTokenResponse : TokenResponse where
  accessToken := "token".toList
  expiresIn := some 3600
  tokenType := some "Bearer".toList
  userDecryptionOptions := some ⟨some
    { kdf := ⟨0, 5000, none, none⟩
      masterKeyWrappedUserKey := some vectorWrappedKey
      masterKeyEncryptedUserKey := none
      salt := "user@example.test".toList }⟩

def vectorSyncText : Str :=
  "\x7b\"ciphers\":[\x7b\"id\":\"item-a\",\"type\":2,\"notes\":\"".toList ++ vectorSecret ++
    "\"\x7d]\x7d".toList

def vectorConfig : ClientConfig where
  endpoints := ⟨vectorUrl, vectorUrl⟩
  auth := ⟨"user.id".toList, "secret".toList, "correct horse".toList⟩
  device := ⟨21, "device".toList, "provider".toList⟩
  argon2MemoryLimitMib := 128
  prim := vectors.primitives
  serde :=
    { tokenResponse := fun body => if body = asBytes vectorTokenText then some vectorTokenResponse else none
      syncResponse := fun body => if body = asBytes vectorSyncText then some ⟨[vectorCipher]⟩ else none }

def vectorUpstream : Upstream where
  token _ _ := .response 200 [asBytes vectorTokenText] true
  unlockTask := true
  sync _ _ := .response 200 [asBytes vectorSyncText] true

def vectorSession : BitwardenSession :=
  ⟨"token".toList, some 3600, "Bearer".toList, Fixture.halves vectorUserKey⟩

theorem fetchVault_vector : fetchVault vectorConfig vectorUpstream = .ok (vectorSession, ⟨[vectorCipher]⟩) := by
  decide +kernel

end Bweso
