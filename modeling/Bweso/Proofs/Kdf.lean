import Bweso.Proofs.Body
import Bweso.Proofs.Fixture
import Bweso.Spec.Kdf

/-! KDF parameters chosen by the upstream: which of them reach a derivation when
a session is unlocked, and which of them `prelogin` hands on. -/

namespace Bweso

/-! ### Bounds -/

/-- The prelogin bounds, as inequalities. -/
def KdfConfig.InBounds : KdfConfig → Prop
  | .pbkdf2Sha256 iterations => 5000 ≤ iterations ∧ iterations ≤ 2000000
  | .argon2id iterations memoryMib parallelism =>
    (2 ≤ iterations ∧ iterations ≤ 10) ∧ (16 ≤ memoryMib ∧ memoryMib ≤ 1024) ∧ 1 ≤ parallelism ∧ parallelism ≤ 16

theorem validateForPrelogin_eq_ok {kdf : KdfConfig} {u : Unit} :
    kdf.validateForPrelogin = .ok u ↔ kdf.InBounds := by
  cases kdf with
  | pbkdf2Sha256 iterations => exact validateKdfBounds_eq_ok
  | argon2id iterations memoryMib parallelism =>
    simp only [KdfConfig.validateForPrelogin, Except.bind_eq_ok, validateKdfBounds_eq_ok, exists_const,
      KdfConfig.InBounds]

theorem validateForPrelogin_error {kdf : KdfConfig} (h : ¬ kdf.InBounds) :
    ∃ e, kdf.validateForPrelogin = .error e := by
  cases hv : kdf.validateForPrelogin with
  | error e => exact ⟨e, rfl⟩
  | ok u => exact absurd (validateForPrelogin_eq_ok.mp hv) h

theorem validateKdfBounds_ne_invalid {parameter : Str} {actual minimum maximum : ℕ} :
    validateKdfBounds parameter actual minimum maximum ≠ .error .invalidArgon2Parameters := by
  unfold validateKdfBounds
  split_ifs <;> simp

theorem validateForPrelogin_ne_invalid (kdf : KdfConfig) :
    kdf.validateForPrelogin ≠ .error .invalidArgon2Parameters := by
  cases kdf with
  | pbkdf2Sha256 iterations => exact validateKdfBounds_ne_invalid
  | argon2id iterations memoryMib parallelism =>
    simp only [KdfConfig.validateForPrelogin, ne_eq, Except.bind_eq_error, not_or, not_exists, not_and]
    exact ⟨validateKdfBounds_ne_invalid, fun _ _ => ⟨validateKdfBounds_ne_invalid, fun _ _ =>
      validateKdfBounds_ne_invalid⟩⟩

/-- Parameters in bounds are converted to KiB without overflow. -/
theorem checkedMulU32_inBounds {iterations memoryMib parallelism : ℕ}
    (h : (KdfConfig.argon2id iterations memoryMib parallelism).InBounds) :
    checkedMulU32 memoryMib 1024 = some (memoryMib * 1024) := by
  obtain ⟨-, hmem, -⟩ := h
  rw [checkedMulU32, if_pos (by omega)]

theorem AcceptsDocumentedParams.inBounds {new : ℕ → ℕ → ℕ → Option Argon2Params}
    (hnew : AcceptsDocumentedParams new) {iterations memoryMib parallelism : ℕ}
    (h : (KdfConfig.argon2id iterations memoryMib parallelism).InBounds) :
    new (memoryMib * 1024) iterations parallelism = some ⟨memoryMib * 1024, iterations, parallelism⟩ := by
  obtain ⟨hiter, hmem, hpar⟩ := h
  apply hnew <;> omega

theorem acceptsDocumentedParams_new : AcceptsDocumentedParams Argon2Params.new := by
  intro m t p hm ht hp hp'
  rw [Argon2Params.new, if_pos ⟨hm, ht, hp, hp'⟩]

/-! ### Deriving the master key -/

section
variable (prim : Primitives) {new : ℕ → ℕ → ℕ → Option Argon2Params}

/-- The one call a derivation with these inputs makes. -/
def kdfCall (password salt : Str) : KdfConfig → KdfCall
  | .pbkdf2Sha256 iterations =>
    .pbkdf2 (asBytes password) (asBytes (normalizeMasterPasswordSalt prim salt)) iterations
  | .argon2id iterations memoryMib parallelism =>
    .argon2id ⟨memoryMib * 1024, iterations, parallelism⟩ (asBytes password)
      (prim.sha256 (asBytes (normalizeMasterPasswordSalt prim salt))).toList

open Recording

theorem deriveMasterKeyRecorded_outside {password salt : Str} {kdf : KdfConfig}
    (h : ¬ (password ≠ [] ∧ kdf.InBounds)) :
    ∃ e, deriveMasterKey prim password salt kdf = .error e ∧
      Returns (deriveMasterKeyRecorded prim new password salt kdf) (.error e) [] := by
  unfold deriveMasterKey deriveMasterKeyRecorded
  by_cases hp : password = []
  · subst hp
    exact ⟨.emptyPassword, rfl, returns_throw _⟩
  · obtain ⟨e, he⟩ := validateForPrelogin_error fun hb => h ⟨hp, hb⟩
    simp only [List.isEmpty_iff, hp, if_false, he]
    exact ⟨e, rfl, (returns_silent _).bind_error⟩

theorem deriveMasterKeyRecorded_inside (hnew : AcceptsDocumentedParams new) {password salt : Str}
    {kdf : KdfConfig} (hp : password ≠ []) (hb : kdf.InBounds) :
    Returns (deriveMasterKeyRecorded prim new password salt kdf) (deriveMasterKey prim password salt kdf)
      [kdfCall prim password salt kdf] := by
  have hv : kdf.validateForPrelogin = .ok () := validateForPrelogin_eq_ok.mpr hb
  unfold deriveMasterKey deriveMasterKeyRecorded
  simp only [List.isEmpty_iff, hp, if_false, hv, Except.ok_bind]
  refine (returns_silent _).bind ?_
  cases kdf with
  | pbkdf2Sha256 iterations => exact (returns_record _ _).bind (returns_pure _)
  | argon2id iterations memoryMib parallelism =>
    simp only [checkedMulU32_inBounds hb, hnew.inBounds hb, acceptsDocumentedParams_new.inBounds hb]
    refine (returns_record _ _).bind ?_
    cases prim.argon2id _ _ _ with
    | none => exact returns_throw _
    | some derived => exact returns_pure _

theorem deriveMasterKey_ne_invalid {password salt : Str} {kdf : KdfConfig} :
    deriveMasterKey prim password salt kdf ≠ .error .invalidArgon2Parameters := by
  intro h
  unfold deriveMasterKey at h
  by_cases hp : password = []
  · subst hp
    exact absurd h (by simp)
  · simp only [List.isEmpty_iff, hp, if_false, Except.bind_eq_error] at h
    rcases h with h | ⟨u, hv, h⟩
    · exact validateForPrelogin_ne_invalid kdf h
    · have hb := validateForPrelogin_eq_ok.mp hv
      cases kdf with
      | pbkdf2Sha256 iterations => exact absurd h (by simp)
      | argon2id iterations memoryMib parallelism =>
        simp only [checkedMulU32_inBounds hb, acceptsDocumentedParams_new.inBounds hb] at h
        cases ha : prim.argon2id ⟨memoryMib * 1024, iterations, parallelism⟩ (asBytes password)
            (prim.sha256 (asBytes (normalizeMasterPasswordSalt prim salt))).toList with
        | none => simp [ha] at h
        | some derived => simp [ha] at h

/-! ### Unlocking a session -/

theorem unwrapUserKey_ne_invalid {masterKey : MasterKey} {wrapped : Str} :
    unwrapUserKeyWithMasterKey prim masterKey wrapped ≠ .error .invalidArgon2Parameters := by
  intro h
  obtain ⟨key⟩ := masterKey
  rw [unwrapUserKeyWithMasterKey, stretchMasterKey_wrapping] at h
  simp only [Except.ok_bind, Except.bind_eq_error, Except.mapError_eq_error] at h
  rcases h with ⟨e, -, h⟩ | ⟨_, -, ⟨e, -, h⟩ | ⟨_, -, e, -, h⟩⟩ <;> cases h

theorem unlockUserKey_ne_invalid {data : MasterPasswordUnlockData} {password : Str} :
    data.unlockUserKey prim password ≠ .error .invalidArgon2Parameters := by
  intro h
  simp only [MasterPasswordUnlockData.unlockUserKey, Except.bind_eq_error] at h
  rcases h with h | ⟨_, -, h⟩
  · exact deriveMasterKey_ne_invalid prim h
  · exact unwrapUserKey_ne_invalid prim h

theorem unlockSession_ne_invalid {response : TokenResponse} {password : Str} {limit : ℕ} :
    unlockSession prim response password limit ≠ .error (.keyDerivation .invalidArgon2Parameters) := by
  intro h
  unfold unlockSession at h
  cases hu : response.userDecryptionOptions.bind (·.masterPasswordUnlock) with
  | none =>
    rw [hu] at h
    exact absurd h (by simp)
  | some unlock =>
    simp only [hu, Except.bind_eq_error, Except.mapError_eq_error] at h
    rcases h with ⟨e, -, h⟩ | ⟨data, -, ⟨e, hbudget, h⟩ | ⟨_, -, ⟨e, hkey, h⟩ | ⟨_, -, h⟩⟩⟩
    · exact absurd h (by simp)
    · cases h
      unfold checkArgon2Budget at hbudget
      split at hbudget
      · split_ifs at hbudget
        exact absurd hbudget (by simp)
      · exact absurd hbudget (by simp)
    · cases h
      exact unlockUserKey_ne_invalid prim hkey
    · exact absurd h (by simp)

/-- Every parameter its KDF type needs is there, and all are in bounds and within
the operator's limit. -/
def TokenKdfResponse.InBounds (limit : ℕ) (kdf : TokenKdfResponse) : Prop :=
  (kdf.kdfType = 0 ∧ 5000 ≤ kdf.iterations ∧ kdf.iterations ≤ 2000000) ∨
  (kdf.kdfType = 1 ∧ ∃ memoryMib parallelism, kdf.memory = some memoryMib ∧ kdf.parallelism = some parallelism ∧
    (2 ≤ kdf.iterations ∧ kdf.iterations ≤ 10) ∧ (16 ≤ memoryMib ∧ memoryMib ≤ min limit 1024) ∧
    1 ≤ parallelism ∧ parallelism ≤ 16)

/-- What a response and a password must be for a derivation to run. -/
def Derivable (limit : ℕ) (password : Str) (response : TokenResponse) : Prop :=
  password ≠ [] ∧ ∃ unlock, response.userDecryptionOptions.bind (·.masterPasswordUnlock) = some unlock ∧
    (unlock.masterKeyWrappedUserKey.or unlock.masterKeyEncryptedUserKey).isSome ∧ unlock.kdf.InBounds limit

theorem checkArgon2Budget_eq_ok {iterations memoryMib parallelism limit : ℕ} {u : Unit} :
    checkArgon2Budget (.argon2id iterations memoryMib parallelism) limit = .ok u ↔ memoryMib ≤ limit := by
  simp only [checkArgon2Budget]
  split_ifs <;> simp <;> omega

/-- The checks a configuration passes on its way to the derivation. -/
theorem inBounds_iff {limit : ℕ} {kdf : TokenKdfResponse} :
    kdf.InBounds limit ↔
      ∃ config, kdfFromParts kdf.kdfType kdf.iterations kdf.memory kdf.parallelism = .ok config ∧
        checkArgon2Budget config limit = .ok () ∧ config.InBounds := by
  obtain ⟨kdfType, iterations, memory, parallelism⟩ := kdf
  refine ⟨fun h => ?_, fun ⟨config, hparts, hbudget, hb⟩ => ?_⟩
  · rcases h with ⟨rfl, h⟩ | ⟨rfl, m, p, rfl, rfl, hiter, hmem, hpar⟩
    · exact ⟨.pbkdf2Sha256 iterations, rfl, rfl, h⟩
    · obtain ⟨hmin, hmax⟩ := hmem
      rw [le_min_iff] at hmax
      exact ⟨.argon2id iterations m p, rfl, checkArgon2Budget_eq_ok.mpr hmax.1, hiter, ⟨hmin, hmax.2⟩, hpar⟩
  · dsimp only [kdfFromParts] at hparts
    split at hparts
    · cases hparts
      exact Or.inl ⟨rfl, hb⟩
    · cases memory with
      | none => exact absurd hparts (by simp)
      | some m =>
        cases parallelism with
        | none => exact absurd hparts (by simp)
        | some p =>
          cases hparts
          obtain ⟨hiter, ⟨hmin, hmax⟩, hpar⟩ := hb
          have hlimit := checkArgon2Budget_eq_ok.mp hbudget
          exact Or.inr ⟨rfl, m, p, rfl, rfl, hiter, ⟨hmin, le_min hlimit hmax⟩, hpar⟩
    · exact absurd hparts (by simp)

theorem unlockDataTryFrom_eq_ok {unlock : MasterPasswordUnlockResponse} {data : MasterPasswordUnlockData}
    (h : MasterPasswordUnlockData.tryFrom unlock = .ok data) :
    (unlock.masterKeyWrappedUserKey.or unlock.masterKeyEncryptedUserKey).isSome ∧
      kdfFromParts unlock.kdf.kdfType unlock.kdf.iterations unlock.kdf.memory unlock.kdf.parallelism =
        .ok data.kdf := by
  unfold MasterPasswordUnlockData.tryFrom at h
  cases hw : unlock.masterKeyWrappedUserKey.or unlock.masterKeyEncryptedUserKey with
  | none => simp [hw] at h
  | some wrapped =>
    simp only [hw, Except.bind_eq_ok] at h
    obtain ⟨kdf, hparts, h⟩ := h
    cases h
    exact ⟨rfl, hparts⟩

theorem unlockUserKeyRecorded_outside {data : MasterPasswordUnlockData} {password : Str}
    (h : ¬ (password ≠ [] ∧ data.kdf.InBounds)) :
    ∃ e, data.unlockUserKey prim password = .error e ∧
      Returns (unlockUserKeyRecorded prim new data password) (.error e) [] := by
  obtain ⟨e, he, hr⟩ := @deriveMasterKeyRecorded_outside prim new password data.salt data.kdf h
  refine ⟨e, ?_, hr.bind_error⟩
  rw [MasterPasswordUnlockData.unlockUserKey, he]
  rfl

theorem unlockUserKeyRecorded_inside (hnew : AcceptsDocumentedParams new) {data : MasterPasswordUnlockData}
    {password : Str} (hp : password ≠ []) (hb : data.kdf.InBounds) :
    Returns (unlockUserKeyRecorded prim new data password) (data.unlockUserKey prim password)
      [kdfCall prim password data.salt data.kdf] := by
  apply (deriveMasterKeyRecorded_inside prim hnew hp hb).bind_silent
  intro masterKey
  exact returns_silent _

/-- Outside the bounds nothing is derived and the unlock fails. -/
theorem unlockSessionRecorded_outside {response : TokenResponse} {password : Str} {limit : ℕ}
    (h : ¬ Derivable limit password response) :
    ∃ e, unlockSession prim response password limit = .error e ∧
      Returns (unlockSessionRecorded prim new response password limit) (.error e) [] := by
  unfold unlockSession unlockSessionRecorded
  cases hu : response.userDecryptionOptions.bind (·.masterPasswordUnlock) with
  | none => exact ⟨_, rfl, returns_throw _⟩
  | some unlock =>
    dsimp only
    cases hd : MasterPasswordUnlockData.tryFrom unlock with
    | error e => exact ⟨_, rfl, (returns_silent _).bind_error⟩
    | ok data =>
      cases hb : checkArgon2Budget data.kdf limit with
      | error e =>
        refine ⟨.keyDerivation e, ?_, (returns_silent _).bind (?_ : Returns _ _ [])⟩
        · simp only [Except.mapError, Except.ok_bind, hb, Except.error_bind]
        · simp only [hb]
          exact (returns_silent _).bind_error
      | ok u =>
        -- the response is complete and within the budget, so the last check must fail
        have hout : ¬ (password ≠ [] ∧ data.kdf.InBounds) := by
          intro ⟨hp, hin⟩
          obtain ⟨hsome, hparts⟩ := unlockDataTryFrom_eq_ok hd
          exact h ⟨hp, unlock, hu, hsome, inBounds_iff.mpr ⟨_, hparts, hb, hin⟩⟩
        obtain ⟨e, he, hr⟩ := @unlockUserKeyRecorded_outside prim new data password hout
        refine ⟨.keyDerivation e, ?_, (returns_silent _).bind (?_ : Returns _ _ [])⟩
        · simp only [Except.mapError, Except.ok_bind, hb, he, Except.error_bind]
        · simp only [hb]
          refine (returns_silent _).bind (?_ : Returns _ _ [])
          exact (hr.mapError BitwardenClientError.keyDerivation).bind_error

/-- Inside them there is exactly one call, and its answer is used as before. -/
theorem unlockSessionRecorded_inside (hnew : AcceptsDocumentedParams new) {response : TokenResponse}
    {password : Str} {limit : ℕ} (h : Derivable limit password response) :
    ∃ salt kdf, kdf.InBounds ∧ checkArgon2Budget kdf limit = .ok () ∧
      Returns (unlockSessionRecorded prim new response password limit)
        (unlockSession prim response password limit) [kdfCall prim password salt kdf] := by
  obtain ⟨hp, unlock, hu, hsome, hin⟩ := h
  obtain ⟨config, hparts, hbudget, hb⟩ := inBounds_iff.mp hin
  obtain ⟨wrapped, hw⟩ := Option.isSome_iff_exists.mp hsome
  have hd : MasterPasswordUnlockData.tryFrom unlock = .ok ⟨unlock.salt, config, wrapped⟩ := by
    simp [MasterPasswordUnlockData.tryFrom, hw, hparts]
  refine ⟨unlock.salt, config, hb, hbudget, ?_⟩
  have hkey := @unlockUserKeyRecorded_inside prim new hnew ⟨unlock.salt, config, wrapped⟩ password hp hb
  have hplain : unlockSession prim response password limit =
      ((MasterPasswordUnlockData.unlockUserKey prim ⟨unlock.salt, config, wrapped⟩ password).mapError
        .keyDerivation >>= fun userKey => .ok ⟨response.accessToken, response.expiresIn,
          response.tokenType.getD "Bearer".toList, userKey⟩) := by
    unfold unlockSession
    simp only [hu, hd, Except.mapError, Except.ok_bind, hbudget, Except.pure_eq_ok]
  rw [hplain]
  unfold unlockSessionRecorded
  simp only [hu, hd]
  refine (returns_silent _).bind (?_ : Returns _ _ [_])
  simp only [hbudget]
  refine (returns_silent _).bind (?_ : Returns _ _ [_])
  exact (hkey.mapError BitwardenClientError.keyDerivation).bind_silent fun userKey => returns_pure _

/-- Recording changes nothing about the unlock itself. -/
theorem unlockSessionRecorded_result (hnew : AcceptsDocumentedParams new) (response : TokenResponse)
    (password : Str) (limit : ℕ) :
    (unlockSessionRecorded prim new response password limit).outcome.1 =
      unlockSession prim response password limit := by
  by_cases h : Derivable limit password response
  · obtain ⟨_, _, -, -, hr⟩ := unlockSessionRecorded_inside prim hnew h
    rw [hr.outcome]
  · obtain ⟨e, he, hr⟩ := @unlockSessionRecorded_outside prim new _ _ _ h
    rw [hr.outcome, he]

/-- Every call of a run is the one call of a derivation in bounds. -/
theorem call_of_mem_outcome (hnew : AcceptsDocumentedParams new) {response : TokenResponse} {password : Str}
    {limit : ℕ} {call : KdfCall}
    (h : call ∈ (unlockSessionRecorded prim new response password limit).outcome.2) :
    password ≠ [] ∧ ∃ salt kdf, kdf.InBounds ∧ checkArgon2Budget kdf limit = .ok () ∧
      call = kdfCall prim password salt kdf := by
  by_cases hd : Derivable limit password response
  · obtain ⟨salt, kdf, hb, hbudget, hr⟩ := unlockSessionRecorded_inside prim hnew hd
    rw [hr.outcome] at h
    exact ⟨hd.1, salt, kdf, hb, hbudget, List.mem_singleton.mp h⟩
  · obtain ⟨e, -, hr⟩ := @unlockSessionRecorded_outside prim new _ _ _ hd
    rw [hr.outcome] at h
    exact absurd h List.not_mem_nil

end

/-- Key derivation runs only inside the bounds and the operator's limit, with a
password; everything else fails with nothing derived; and no parameter gets as far
as being rejected by `Params::new` or by the conversion to KiB. -/
theorem unlockSession_derives_in_bounds (prim : Primitives) (new : ℕ → ℕ → ℕ → Option Argon2Params)
    (hnew : AcceptsDocumentedParams new) (response : TokenResponse) (password : Str) (limit : ℕ) :
    (∀ pw salt iterations,
      KdfCall.pbkdf2 pw salt iterations ∈ (unlockSessionRecorded prim new response password limit).outcome.2 →
        password ≠ [] ∧ 5000 ≤ iterations ∧ iterations ≤ 2000000) ∧
    (∀ params pw salt,
      KdfCall.argon2id params pw salt ∈ (unlockSessionRecorded prim new response password limit).outcome.2 →
        password ≠ [] ∧ 2 ≤ params.iterations ∧ params.iterations ≤ 10 ∧
        (∃ memoryMib, 16 ≤ memoryMib ∧ memoryMib ≤ min limit 1024 ∧ params.memoryKib = memoryMib * 1024 ∧
          memoryMib * 1024 < 2 ^ 32) ∧
        1 ≤ params.parallelism ∧ params.parallelism ≤ 16) ∧
    (¬ Derivable limit password response →
      (unlockSessionRecorded prim new response password limit).outcome.2 = [] ∧
        ∃ e, (unlockSessionRecorded prim new response password limit).outcome.1 = .error e) ∧
    (Derivable limit password response →
      ∃ call, (unlockSessionRecorded prim new response password limit).outcome.2 = [call]) ∧
    (unlockSessionRecorded prim new response password limit).outcome.1 ≠
      .error (.keyDerivation .invalidArgon2Parameters) := by
  refine ⟨fun pw salt iterations h => ?_, fun params pw salt h => ?_, fun h => ?_, fun h => ?_, ?_⟩
  · obtain ⟨hp, salt', kdf, hb, -, hcall⟩ := call_of_mem_outcome prim hnew h
    cases kdf with
    | pbkdf2Sha256 iterations' =>
      obtain ⟨-, -, rfl⟩ := KdfCall.pbkdf2.inj hcall
      exact ⟨hp, hb⟩
    | argon2id iterations' memoryMib parallelism => exact absurd hcall (by simp [kdfCall])
  · obtain ⟨hp, salt', kdf, hb, hbudget, hcall⟩ := call_of_mem_outcome prim hnew h
    cases kdf with
    | pbkdf2Sha256 iterations' => exact absurd hcall (by simp [kdfCall])
    | argon2id iterations' memoryMib parallelism =>
      obtain ⟨rfl, -, -⟩ := KdfCall.argon2id.inj hcall
      obtain ⟨hiter, hmem, hpar⟩ := hb
      have hlimit := checkArgon2Budget_eq_ok.mp hbudget
      exact ⟨hp, hiter.1, hiter.2, ⟨memoryMib, hmem.1, le_min hlimit hmem.2, rfl, by omega⟩, hpar⟩
  · obtain ⟨e, -, hr⟩ := @unlockSessionRecorded_outside prim new _ _ _ h
    rw [hr.outcome]
    exact ⟨rfl, e, rfl⟩
  · obtain ⟨salt, kdf, -, -, hr⟩ := unlockSessionRecorded_inside prim hnew h
    rw [hr.outcome]
    exact ⟨_, rfl⟩
  · rw [unlockSessionRecorded_result prim hnew]
    exact unlockSession_ne_invalid prim

/-- Argon2id with 64 MiB under a limit of 64 MiB: one call. -/
theorem unlockSession_derives_once :
    ∃ call, (unlockSessionRecorded vectors.primitives Argon2Params.new
      ⟨"token".toList, none, none, some ⟨some ⟨⟨1, 3, some 64, some 4⟩, some "2.x".toList, none, "salt".toList⟩⟩⟩
      "pw".toList 64).outcome.2 = [call] :=
  (unlockSession_derives_in_bounds vectors.primitives Argon2Params.new acceptsDocumentedParams_new _ _ _).2.2.2.1
    ⟨by decide, _, rfl, rfl, Or.inr ⟨rfl, 64, 4, rfl, rfl, by decide, by decide, by decide⟩⟩

/-! ### Prelogin -/

/-- Parameters complete for their type are in bounds. -/
def PreloginResponse.InBounds (r : PreloginResponse) : Prop :=
  (r.kdf = 0 → 5000 ≤ r.kdfIterations ∧ r.kdfIterations ≤ 2000000) ∧
  (r.kdf = 1 → ∀ memoryMib parallelism, r.kdfMemory = some memoryMib → r.kdfParallelism = some parallelism →
    (2 ≤ r.kdfIterations ∧ r.kdfIterations ≤ 10) ∧ (16 ≤ memoryMib ∧ memoryMib ≤ 1024) ∧
      1 ≤ parallelism ∧ parallelism ≤ 16)

theorem kdfConfigTryFrom_inBounds_iff {r : PreloginResponse} :
    (∀ config, KdfConfig.tryFrom r = .ok config → config.InBounds) ↔ r.InBounds := by
  obtain ⟨kdf, iterations, memory, parallelism⟩ := r
  refine ⟨fun h => ⟨?_, ?_⟩, fun h config hc => ?_⟩
  · rintro rfl
    exact h (.pbkdf2Sha256 iterations) rfl
  · rintro rfl m p rfl rfl
    exact h (.argon2id iterations m p) rfl
  · dsimp only [KdfConfig.tryFrom, kdfFromParts] at hc
    split at hc
    · cases hc
      exact h.1 rfl
    · cases memory with
      | none => exact absurd hc (by simp)
      | some m =>
        cases parallelism with
        | none => exact absurd hc (by simp)
        | some p =>
          cases hc
          exact h.2 rfl m p rfl rfl
    · exact absurd hc (by simp)

theorem prelogin_eq_ok {endpoints : BitwardenEndpoints} {fromSlice : Bytes → Option PreloginResponse}
    {post : Url → Str → HttpReply} {email : Str} {config : KdfConfig} :
    prelogin endpoints fromSlice post email = .ok config ↔
      ∃ url, endpointUrl endpoints.identityUrl ["accounts".toList, "prelogin".toList, "password".toList] = .ok url ∧
        ∃ r, (post url email).Carries fromSlice r ∧ KdfConfig.tryFrom r = .ok config := by
  simp only [prelogin, Except.bind_eq_ok, Except.mapError_eq_ok, decodeJson_eq_ok]

/-- What `prelogin` returns passes the prelogin validation exactly when the
response the upstream sent is in bounds: nothing on this path checks them. -/
theorem prelogin_validates_iff (endpoints : BitwardenEndpoints) (fromSlice : Bytes → Option PreloginResponse)
    (post : Url → Str → HttpReply) (email : Str) :
    (∀ config, prelogin endpoints fromSlice post email = .ok config → config.validateForPrelogin = .ok ()) ↔
      ∀ url r, endpointUrl endpoints.identityUrl ["accounts".toList, "prelogin".toList, "password".toList] =
        .ok url → (post url email).Carries fromSlice r → r.InBounds := by
  simp only [prelogin_eq_ok, validateForPrelogin_eq_ok, ← kdfConfigTryFrom_inBounds_iff]
  refine ⟨fun h url r hurl hr config hc => ?_, fun h config hc => ?_⟩
  · exact h config ⟨url, hurl, r, hr, hc⟩
  · obtain ⟨url, hurl, r, hr, hc⟩ := hc
    exact h url r hurl hr config hc

def weakPreloginText : Str := "\x7b\"kdf\":0,\"kdfIterations\":1\x7d".toList

/-- One iteration of PBKDF2 is accepted, though the validation calls it a downgrade. -/
theorem prelogin_accepts_one_iteration :
    prelogin ⟨vectorUrl, vectorUrl⟩
      (fun body => if body = asBytes weakPreloginText then some ⟨0, 1, none, none⟩ else none)
      (fun _ _ => .response 200 [asBytes weakPreloginText] true) "user@example.test".toList =
        .ok (.pbkdf2Sha256 1) ∧
    (KdfConfig.pbkdf2Sha256 1).validateForPrelogin =
      .error (.kdfDowngrade "pbkdf2_iterations".toList 1 5000) := by
  decide

end Bweso
