import Bweso.Proofs.Format
import Bweso.Sanity.Crypto

/-! Decryption of an item is all or nothing: each member it returns was
authenticated under the right key, and the first member that does not open is
the error of the whole. -/

namespace Bweso

section
variable (prim : Primitives)

/-! ### One encrypted string -/

/-- The tag is the keyed hash of what it covers. -/
def EncryptedString.MacVerifies (e : EncryptedString) (key : AuthenticatedSymmetricKey) : Prop :=
  (prim.hmacSha256 key.authenticationKey.toList (e.iv.toList ++ e.data)).toList = e.mac

/-- `s` parses, its tag verifies under the key, and it decrypts to `plain`. -/
def Opens (key : AuthenticatedSymmetricKey) (s : Str) (plain : Bytes) : Prop :=
  ∃ e, EncryptedString.fromStr s = .ok e ∧ e.MacVerifies prim key ∧
    Cbc.decryptPadded prim.aes256 key.encryptionKey e.iv e.data = some plain

/-- `s` opens to the UTF-8 of a text. -/
def OpensText (key : AuthenticatedSymmetricKey) (s text : Str) : Prop :=
  ∃ plain, Opens prim key s plain ∧ fromUtf8 plain = some text

/-- The parse and the decryption of one member. -/
def decryptText (key : AuthenticatedSymmetricKey) (s : Str) : Except CipherError Str :=
  (EncryptedString.fromStr s >>= fun e => e.decryptUtf8 prim key).mapError .crypto

/-! ### Items -/

/-- The key the members are under: the user key, or the 64 bytes the item key
opens to under it. -/
def EncryptedCipher.EffectiveKey (c : EncryptedCipher) (userKey key : AuthenticatedSymmetricKey) : Prop :=
  match c.key with
  | none => key = userKey
  | some wrappedKey => ∃ plain, Opens prim userKey wrappedKey plain ∧ plain.length = 64 ∧
      key.encryptionKey.toList = plain.take 32 ∧ key.authenticationKey.toList = plain.drop 32

structure FieldOpens (key : AuthenticatedSymmetricKey) (e : EncryptedField) (d : DecryptedField) : Prop where
  name : Option.Rel (OpensText prim key) e.name d.name
  value : Option.Rel (OpensText prim key) e.value d.value
  fieldType : d.fieldType = e.fieldType

structure LoginOpens (key : AuthenticatedSymmetricKey) (e : EncryptedLogin) (d : DecryptedLogin) : Prop where
  username : Option.Rel (OpensText prim key) e.username d.username
  password : Option.Rel (OpensText prim key) e.password d.password
  totp : Option.Rel (OpensText prim key) e.totp d.totp

structure SshKeyOpens (key : AuthenticatedSymmetricKey) (e : EncryptedSshKey) (d : DecryptedSshKey) : Prop where
  privateKey : Option.Rel (OpensText prim key) e.privateKey d.privateKey
  publicKey : Option.Rel (OpensText prim key) e.publicKey d.publicKey
  keyFingerprint : Option.Rel (OpensText prim key) e.keyFingerprint d.keyFingerprint

/-- Member by member, `d` is what `c` opens to under one key. -/
structure ItemOpens (key : AuthenticatedSymmetricKey) (c : EncryptedCipher) (d : DecryptedCipher) : Prop where
  id : d.id = c.id
  cipherType : d.cipherType = c.cipherType
  organizationId : d.organizationId = c.organizationId
  name : Option.Rel (OpensText prim key) c.name d.name
  notes : Option.Rel (OpensText prim key) c.notes d.notes
  fields : List.Forall₂ (FieldOpens prim key) c.fields d.fields
  login : Option.Rel (LoginOpens prim key) c.login d.login
  sshKey : Option.Rel (SshKeyOpens prim key) c.sshKey d.sshKey

end

def EncryptedField.members (f : EncryptedField) : List Str := f.name.toList ++ f.value.toList

def EncryptedLogin.members (l : EncryptedLogin) : List Str :=
  l.username.toList ++ (l.password.toList ++ l.totp.toList)

def EncryptedSshKey.members (k : EncryptedSshKey) : List Str :=
  k.privateKey.toList ++ (k.publicKey.toList ++ k.keyFingerprint.toList)

/-- The encrypted texts present in an item, in the order they are decrypted. -/
def EncryptedCipher.members (c : EncryptedCipher) : List Str :=
  c.name.toList ++ (c.notes.toList ++ (c.fields.flatMap EncryptedField.members ++
    (c.login.toList.flatMap EncryptedLogin.members ++ c.sshKey.toList.flatMap EncryptedSshKey.members)))

/-! ### What a decryption that returns has opened -/

variable {prim : Primitives} {key userKey : AuthenticatedSymmetricKey}

theorem verifyMac_eq_ok {e : EncryptedString} {u : Unit} :
    verifyMac prim key.authenticationKey.toList e.iv.toList e.data e.mac = .ok u ↔ e.MacVerifies prim key := by
  unfold verifyMac EncryptedString.MacVerifies
  split_ifs with h
  · simp [h]
  · simp [h]

theorem decryptBytes_eq_ok {e : EncryptedString} {plain : Bytes} :
    e.decryptBytes prim key = .ok plain ↔
      e.MacVerifies prim key ∧ Cbc.decryptPadded prim.aes256 key.encryptionKey e.iv e.data = some plain := by
  unfold EncryptedString.decryptBytes
  simp only [Except.bind_eq_ok, verifyMac_eq_ok]
  cases Cbc.decryptPadded prim.aes256 key.encryptionKey e.iv e.data with
  | none => simp
  | some p => simp

/-- The tag is checked before anything is decrypted, so nothing else shows. -/
theorem decryptBytes_of_not_verifies {e : EncryptedString} (h : ¬ e.MacVerifies prim key) :
    e.decryptBytes prim key = .error .macVerificationFailed := by
  have hmac : verifyMac prim key.authenticationKey.toList e.iv.toList e.data e.mac =
      .error .macVerificationFailed := if_neg h
  rw [EncryptedString.decryptBytes, hmac]
  rfl

theorem opens_iff {s : Str} {plain : Bytes} :
    Opens prim key s plain ↔ ∃ e, EncryptedString.fromStr s = .ok e ∧ e.decryptBytes prim key = .ok plain := by
  simp only [Opens, decryptBytes_eq_ok]

theorem decryptUtf8_eq_ok {e : EncryptedString} {text : Str} :
    e.decryptUtf8 prim key = .ok text ↔ ∃ plain, e.decryptBytes prim key = .ok plain ∧ fromUtf8 plain = some text := by
  unfold EncryptedString.decryptUtf8
  simp only [Except.bind_eq_ok]
  refine exists_congr fun plain => and_congr_right fun _ => ?_
  cases fromUtf8 plain with
  | none => simp
  | some t => simp

theorem decryptText_eq_ok {s text : Str} : decryptText prim key s = .ok text ↔ OpensText prim key s text := by
  simp only [decryptText, OpensText, opens_iff, Except.mapError_eq_ok, Except.bind_eq_ok, decryptUtf8_eq_ok]
  refine ⟨fun h => ?_, fun h => ?_⟩
  · obtain ⟨e, he, plain, hplain, htext⟩ := h
    exact ⟨plain, ⟨e, he, hplain⟩, htext⟩
  · obtain ⟨plain, ⟨e, he, hplain⟩, htext⟩ := h
    exact ⟨e, he, plain, hplain, htext⟩

theorem decryptText_of_not_verifies {s : Str} {e : EncryptedString} (he : EncryptedString.fromStr s = .ok e)
    (h : ¬ e.MacVerifies prim key) : decryptText prim key s = .error (.crypto .macVerificationFailed) := by
  rw [decryptText, he, Except.ok_bind, EncryptedString.decryptUtf8, decryptBytes_of_not_verifies h]
  rfl

theorem decryptOptional_some (s : Str) :
    decryptOptional prim (some s) key = (decryptText prim key s).map some := by
  simp only [decryptOptional, decryptText]
  cases EncryptedString.fromStr s >>= fun e => e.decryptUtf8 prim key <;> rfl

theorem decryptOptional_eq_ok {s text : Option Str} :
    decryptOptional prim s key = .ok text ↔ Option.Rel (OpensText prim key) s text := by
  cases s with
  | none => cases text <;> simp [decryptOptional]
  | some s =>
    rw [decryptOptional_some, Except.map_eq_ok]
    cases text with
    | none => simp
    | some t => simp [decryptText_eq_ok]

theorem decryptField_eq_ok {e : EncryptedField} {d : DecryptedField} :
    e.decrypt prim key = .ok d ↔ FieldOpens prim key e d := by
  simp only [EncryptedField.decrypt, Except.bind_eq_ok, decryptOptional_eq_ok, Except.pure_eq_ok, Except.ok.injEq]
  refine ⟨fun hiff => ?_, fun h => ?_⟩
  · obtain ⟨name, hname, value, hvalue, rfl⟩ := hiff
    exact ⟨hname, hvalue, rfl⟩
  · refine ⟨d.name, h.name, d.value, h.value, ?_⟩
    rw [← h.fieldType]

theorem decryptLogin_eq_ok {e : EncryptedLogin} {d : DecryptedLogin} :
    e.decrypt prim key = .ok d ↔ LoginOpens prim key e d := by
  simp only [EncryptedLogin.decrypt, Except.bind_eq_ok, decryptOptional_eq_ok, Except.pure_eq_ok, Except.ok.injEq]
  refine ⟨fun hiff => ?_, fun h => ?_⟩
  · obtain ⟨username, husername, password, hpassword, totp, htotp, rfl⟩ := hiff
    exact ⟨husername, hpassword, htotp⟩
  · exact ⟨d.username, h.username, d.password, h.password, d.totp, h.totp, rfl⟩

theorem decryptSshKey_eq_ok {e : EncryptedSshKey} {d : DecryptedSshKey} :
    e.decrypt prim key = .ok d ↔ SshKeyOpens prim key e d := by
  simp only [EncryptedSshKey.decrypt, Except.bind_eq_ok, decryptOptional_eq_ok, Except.pure_eq_ok, Except.ok.injEq]
  refine ⟨fun hiff => ?_, fun h => ?_⟩
  · obtain ⟨privateKey, hprivate, publicKey, hpublic, keyFingerprint, hfingerprint, rfl⟩ := hiff
    exact ⟨hprivate, hpublic, hfingerprint⟩
  · exact ⟨d.privateKey, h.privateKey, d.publicKey, h.publicKey, d.keyFingerprint, h.keyFingerprint, rfl⟩

theorem decryptFields_eq_ok {es : List EncryptedField} {ds : List DecryptedField} :
    decryptFields prim key es = .ok ds ↔ List.Forall₂ (FieldOpens prim key) es ds := by
  induction es generalizing ds with
  | nil => cases ds <;> simp [decryptFields]
  | cons e es ih =>
    simp only [decryptFields, Except.bind_eq_ok, decryptField_eq_ok, ih, Except.pure_eq_ok, Except.ok.injEq,
      List.forall₂_cons_left_iff]
    refine ⟨fun h => ?_, fun h => ?_⟩
    · obtain ⟨d, hd, ds, hds, rfl⟩ := h
      exact ⟨d, ds, hd, hds, rfl⟩
    · obtain ⟨d, ds, hd, hds, rfl⟩ := h
      exact ⟨d, hd, ds, hds, rfl⟩

theorem decryptMember_eq_ok {α β : Type} {f : α → Except CipherError β} {R : α → β → Prop}
    (hf : ∀ {a b}, f a = .ok b ↔ R a b) {a : Option α} {b : Option β} :
    decryptMember f a = .ok b ↔ Option.Rel R a b := by
  cases a with
  | none => cases b <;> simp [decryptMember]
  | some a =>
    rw [decryptMember, Except.map_eq_ok]
    cases b with
    | none => simp
    | some b => simp [hf]

theorem AuthenticatedSymmetricKey.ext_iff {k k' : AuthenticatedSymmetricKey} :
    k = k' ↔ k.encryptionKey = k'.encryptionKey ∧ k.authenticationKey = k'.authenticationKey := by
  cases k
  cases k'
  simp

theorem tryFrom_key_eq_ok {plain : Bytes} :
    AuthenticatedSymmetricKey.tryFrom plain = .ok key ↔ plain.length = 64 ∧
      key.encryptionKey.toList = plain.take 32 ∧ key.authenticationKey.toList = plain.drop 32 := by
  unfold AuthenticatedSymmetricKey.tryFrom
  split_ifs with h
  · constructor
    · intro hkey
      cases hkey
      exact ⟨h, rfl, rfl⟩
    · rintro ⟨-, henc, hauth⟩
      rw [Except.ok.injEq, AuthenticatedSymmetricKey.ext_iff]
      exact ⟨Subtype.ext henc.symm, Subtype.ext hauth.symm⟩
  · simp [h]

theorem decryptionKey_eq_ok {c : EncryptedCipher} :
    c.decryptionKey prim userKey = .ok key ↔ c.EffectiveKey prim userKey key := by
  unfold EncryptedCipher.decryptionKey EncryptedCipher.EffectiveKey
  cases c.key with
  | none => simp [eq_comm]
  | some wrappedKey =>
    simp only [Except.mapError_eq_ok, Except.bind_eq_ok, tryFrom_key_eq_ok, opens_iff]
    refine ⟨fun h => ?_, fun h => ?_⟩
    · obtain ⟨e, he, plain, hplain, hkey⟩ := h
      exact ⟨plain, ⟨e, he, hplain⟩, hkey⟩
    · obtain ⟨plain, ⟨e, he, hplain⟩, hkey⟩ := h
      exact ⟨e, he, plain, hplain, hkey⟩

theorem decrypt_eq_ok {c : EncryptedCipher} {d : DecryptedCipher} :
    c.decrypt prim userKey = .ok d ↔ ∃ key, c.EffectiveKey prim userKey key ∧ ItemOpens prim key c d := by
  simp only [EncryptedCipher.decrypt, Except.bind_eq_ok, decryptionKey_eq_ok, decryptOptional_eq_ok,
    decryptFields_eq_ok, decryptMember_eq_ok decryptLogin_eq_ok, decryptMember_eq_ok decryptSshKey_eq_ok,
    Except.pure_eq_ok, Except.ok.injEq]
  refine exists_congr fun key => and_congr_right fun _ => ?_
  refine ⟨fun hiff => ?_, fun h => ?_⟩
  · obtain ⟨name, hname, notes, hnotes, fields, hfields, login, hlogin, sshKey, hsshKey, rfl⟩ := hiff
    exact ⟨rfl, rfl, rfl, hname, hnotes, hfields, hlogin, hsshKey⟩
  · refine ⟨d.name, h.name, d.notes, h.notes, d.fields, h.fields, d.login, h.login, d.sshKey, h.sshKey, ?_⟩
    rw [← h.id, ← h.cipherType, ← h.organizationId]

/-! ### Where a decryption that fails has failed -/

theorem decryptOptional_failsAs (s : Option Str) :
    Except.FailsAs (decryptText prim key) (decryptOptional prim s key) s.toList := by
  cases s with
  | none => exact Except.FailsAs.ok none
  | some s =>
    rw [decryptOptional_some]
    exact (Except.FailsAs.single s).map some

theorem decryptField_failsAs (f : EncryptedField) :
    Except.FailsAs (decryptText prim key) (f.decrypt prim key) f.members := by
  apply (decryptOptional_failsAs f.name).bind
  intro name
  exact (decryptOptional_failsAs f.value).bind_ok _

theorem decryptLogin_failsAs (l : EncryptedLogin) :
    Except.FailsAs (decryptText prim key) (l.decrypt prim key) l.members := by
  apply (decryptOptional_failsAs l.username).bind
  intro username
  apply (decryptOptional_failsAs l.password).bind
  intro password
  exact (decryptOptional_failsAs l.totp).bind_ok _

theorem decryptSshKey_failsAs (k : EncryptedSshKey) :
    Except.FailsAs (decryptText prim key) (k.decrypt prim key) k.members := by
  apply (decryptOptional_failsAs k.privateKey).bind
  intro privateKey
  apply (decryptOptional_failsAs k.publicKey).bind
  intro publicKey
  exact (decryptOptional_failsAs k.keyFingerprint).bind_ok _

theorem decryptFields_failsAs (fs : List EncryptedField) :
    Except.FailsAs (decryptText prim key) (decryptFields prim key fs) (fs.flatMap EncryptedField.members) := by
  induction fs with
  | nil => exact Except.FailsAs.ok []
  | cons f fs ih =>
    rw [List.flatMap_cons]
    apply (decryptField_failsAs f).bind
    intro d
    exact ih.bind_ok _

theorem decryptMember_failsAs {α β : Type} {f : α → Except CipherError β} {members : α → List Str}
    (hf : ∀ a, Except.FailsAs (decryptText prim key) (f a) (members a)) (a : Option α) :
    Except.FailsAs (decryptText prim key) (decryptMember f a) (a.toList.flatMap members) := by
  cases a with
  | none => exact Except.FailsAs.ok none
  | some a =>
    rw [Option.toList_some, List.flatMap_singleton]
    exact (hf a).map some

/-- With its key at hand, an item fails as the first of its members to fail. -/
theorem decrypt_failsAs {c : EncryptedCipher} (hkey : c.decryptionKey prim userKey = .ok key) :
    Except.FailsAs (decryptText prim key) (c.decrypt prim userKey) c.members := by
  rw [EncryptedCipher.decrypt, hkey, Except.ok_bind]
  apply (decryptOptional_failsAs c.name).bind
  intro name
  apply (decryptOptional_failsAs c.notes).bind
  intro notes
  apply (decryptFields_failsAs c.fields).bind
  intro fields
  apply (decryptMember_failsAs decryptLogin_failsAs c.login).bind
  intro login
  exact (decryptMember_failsAs decryptSshKey_failsAs c.sshKey).bind_ok _

theorem decrypt_of_key_error {c : EncryptedCipher} {e : CipherError}
    (hkey : c.decryptionKey prim userKey = .error e) : c.decrypt prim userKey = .error e := by
  rw [EncryptedCipher.decrypt, hkey, Except.error_bind]

theorem decryptionKey_of_not_verifies {c : EncryptedCipher} {wrappedKey : Str} {e : EncryptedString}
    (hc : c.key = some wrappedKey) (he : EncryptedString.fromStr wrappedKey = .ok e)
    (h : ¬ e.MacVerifies prim userKey) :
    c.decryptionKey prim userKey = .error (.crypto .macVerificationFailed) := by
  simp only [EncryptedCipher.decryptionKey, hc, he, Except.ok_bind, decryptBytes_of_not_verifies h]
  rfl

/-- An item that decrypts is opened, member by member, under its effective key.
Otherwise it is an error: its key does not open, or some member does not, and
then the error is that of the first one. A tag that does not verify is always
reported as such. -/
theorem decrypt_authenticated (prim : Primitives) (c : EncryptedCipher) (userKey : AuthenticatedSymmetricKey) :
    (∀ d, c.decrypt prim userKey = .ok d ↔
      ∃ key, c.EffectiveKey prim userKey key ∧ ItemOpens prim key c d) ∧
    ((¬ ∃ key, c.EffectiveKey prim userKey key) → ∃ e, c.decrypt prim userKey = .error e) ∧
    (∀ key, c.EffectiveKey prim userKey key → ∀ s ∈ c.members, (¬ ∃ text, OpensText prim key s text) →
      ∃ e, c.decrypt prim userKey = .error e) ∧
    (∀ wrappedKey e, c.key = some wrappedKey → EncryptedString.fromStr wrappedKey = .ok e →
      ¬ e.MacVerifies prim userKey → c.decrypt prim userKey = .error (.crypto .macVerificationFailed)) ∧
    (∀ key pre s post e, c.EffectiveKey prim userKey key → c.members = pre ++ s :: post →
      (∀ m ∈ pre, ∃ text, OpensText prim key m text) → EncryptedString.fromStr s = .ok e →
      ¬ e.MacVerifies prim key → c.decrypt prim userKey = .error (.crypto .macVerificationFailed)) := by
  refine ⟨fun d => decrypt_eq_ok, ?_, ?_, ?_, ?_⟩
  · intro hkey
    cases h : c.decryptionKey prim userKey with
    | error e => exact ⟨e, decrypt_of_key_error h⟩
    | ok key => exact absurd ⟨key, decryptionKey_eq_ok.mp h⟩ hkey
  · intro key hkey s hs hopen
    have hfails := decrypt_failsAs (decryptionKey_eq_ok.mpr hkey)
    cases h : c.decrypt prim userKey with
    | error e => exact ⟨e, rfl⟩
    | ok d =>
      -- an item that decrypts has no failing member
      rw [h, Except.FailsAs, Except.error?_ok] at hfails
      have hok := List.findSome?_eq_none_iff.mp hfails.symm s hs
      obtain ⟨text, htext⟩ := Except.error?_eq_none.mp hok
      exact absurd ⟨text, decryptText_eq_ok.mp htext⟩ hopen
  · intro wrappedKey e hc he hmac
    exact decrypt_of_key_error (decryptionKey_of_not_verifies hc he hmac)
  · intro key pre s post e hkey hmembers hpre he hmac
    rw [(decrypt_failsAs (decryptionKey_eq_ok.mpr hkey)).eq_error]
    refine ⟨pre, s, post, hmembers, decryptText_of_not_verifies he hmac, ?_⟩
    intro m hm
    obtain ⟨text, htext⟩ := hpre m hm
    exact ⟨text, decryptText_eq_ok.mpr htext⟩

end Bweso
