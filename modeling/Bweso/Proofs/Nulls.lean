import Bweso.Spec.Sync

/-! Explicit nulls for absent optional members of a sync response: which of them
the decoder takes for absence. -/

namespace Bweso

open Serde

/-! ### The documents compared -/

def FieldInserted : Json → Json → Prop :=
  StructInserted ["name".toList, "value".toList, "type".toList] (fun _ => Eq) EncryptedField.jsonMembers

def LoginInserted : Json → Json → Prop :=
  StructInserted ["username".toList, "password".toList, "totp".toList] (fun _ => Eq) EncryptedLogin.jsonMembers

def SshKeyInserted : Json → Json → Prop :=
  StructInserted ["privateKey".toList, "publicKey".toList, "keyFingerprint".toList] (fun _ => Eq)
    EncryptedSshKey.jsonMembers

/-- The optional members of a cipher. -/
def cipherOptional : List Key :=
  ["organizationId".toList, "deletedDate".toList, "key".toList, "name".toList, "notes".toList, "fields".toList,
    "login".toList, "sshKey".toList]

/-- What may change below each member of a cipher. -/
def cipherMemberInserted (k : Key) : Json → Json → Prop :=
  if k = "fields".toList then ItemsInserted FieldInserted
  else if k = "login".toList then LoginInserted
  else if k = "sshKey".toList then SshKeyInserted
  else Eq

def CipherInserted : Json → Json → Prop :=
  StructInserted cipherOptional cipherMemberInserted EncryptedCipher.jsonMembers

def syncMemberInserted (k : Key) : Json → Json → Prop :=
  if k = "ciphers".toList ∨ k = "Ciphers".toList then ItemsInserted CipherInserted else Eq

/-- `s'` is the document `s` with explicit nulls for any set of absent optional
members of its ciphers, and of the fields, logins and SSH keys in them. -/
def SyncInserted (s s' : Json) : Prop := StructInserted [] syncMemberInserted SyncResponse.jsonMembers s s'

/-- A cipher object that gives its custom fields as null. -/
def NullFields (c : Json) : Prop := ∃ o, c = .obj o ∧ ("fields".toList, Json.null) ∈ o

/-- The items of a document. -/
def cipherItems (s : Json) : List Json :=
  match readStruct SyncResponse.jsonMembers s with
  | some [some (.arr l)] => l
  | _ => []

/-! ### The small structs -/

theorem plainMember_names (name : String) : (plainMember name).names = [name.toList] := rfl

/-- A member without aliases meets the side conditions of insertion. -/
theorem plain_opt {opt : List Key} {ms : List Member} (h : ∀ m ∈ ms, m.aliases = []) :
    ∀ m ∈ ms, ∀ k ∈ m.names, k ∈ opt → m.names = [k] := by
  intro m hm k hk _
  rw [Member.names, h m hm, List.mem_singleton] at hk
  rw [Member.names, h m hm, hk]

theorem plain_rel {R : Key → Json → Json → Prop} {ms : List Member} (h : ∀ m ∈ ms, m.aliases = []) :
    ∀ m ∈ ms, ∀ k ∈ m.names, ∀ v v', R k v v' → R m.name v v' := by
  intro m hm k hk v v' hv
  rw [Member.names, h m hm, List.mem_singleton] at hk
  exact hk ▸ hv

/-- A struct of plain members reads the same up to the nulls, unless it is the
same document. -/
theorem struct_reads {opt : List Key} {R : Key → Json → Json → Prop} {ms : List Member} {j j' : Json}
    (h : StructInserted opt R ms j j') (hplain : ∀ m ∈ ms, m.aliases = []) :
    j' = j ∨ SameReads opt R ms (readStruct ms j) (readStruct ms j') ∧ (∃ o, j' = .obj o) ∨
      SameReads [] R ms (readStruct ms j) (readStruct ms j') ∧ ∃ l, j' = .arr l := by
  cases h with
  | obj ho => exact Or.inr (Or.inl ⟨ho.reads (plain_opt hplain) (plain_rel hplain), _, rfl⟩)
  | arr hl => exact Or.inr (Or.inr ⟨hl.reads, _, rfl⟩)
  | same => exact Or.inl rfl

/-- A decoder that does not see the nulls of one read gives the same result. -/
theorem deserialize_eq {α : Type} {opt : List Key} {R : Key → Json → Json → Prop} {ms : List Member}
    {r r' : Option (List (Option Json))} {f : List (Option Json) → Option α} (h : SameReads opt R ms r r')
    (hf : ∀ rs rs', AllGiven opt R ms rs rs' → f rs' = f rs) : r'.bind f = r.bind f := by
  rcases h with ⟨rfl, rfl⟩ | ⟨rs, rs', rfl, rfl, hall⟩
  · rfl
  · exact hf rs rs' hall

/-- A struct whose members are all optional does not see the nulls. -/
theorem optional_struct {α : Type} {opt : List Key} {ms : List Member} {f : List (Option Json) → Option α}
    {j j' : Json} (h : StructInserted opt (fun _ => Eq) ms j j') (hplain : ∀ m ∈ ms, m.aliases = [])
    (hf : ∀ opt rs rs', AllGiven opt (fun _ => Eq) ms rs rs' → f rs' = f rs) :
    (readStruct ms j').bind f = (readStruct ms j).bind f := by
  rcases struct_reads h hplain with rfl | ⟨hreads, -⟩ | ⟨hreads, -⟩
  · rfl
  · exact deserialize_eq hreads (hf _)
  · exact deserialize_eq hreads (hf _)

/-- An optional value that is kept as it is reads the same. -/
theorem given_eq {α : Type} {opt : List Key} {m : Member} {r r' : Option Json} {f : Json → Option α}
    (h : Given opt (fun _ => Eq) m r r') : orDefault (option f) none r' = orDefault (option f) none r := by
  apply h.orDefault_option
  intro v v' hv
  rw [hv]

theorem field_inserted {j j' : Json} (h : FieldInserted j j') :
    EncryptedField.deserialize j' = EncryptedField.deserialize j := by
  apply optional_struct h (by simp [EncryptedField.jsonMembers, plainMember])
  intro opt rs rs' hall
  obtain _ | ⟨h1, _ | ⟨h2, _ | ⟨h3, ⟨⟩⟩⟩⟩ := hall
  simp only [EncryptedField.ofMembers, given_eq h1, given_eq h2, given_eq h3]

theorem login_inserted {j j' : Json} (h : LoginInserted j j') :
    EncryptedLogin.deserialize j' = EncryptedLogin.deserialize j := by
  apply optional_struct h (by simp [EncryptedLogin.jsonMembers, plainMember])
  intro opt rs rs' hall
  obtain _ | ⟨h1, _ | ⟨h2, _ | ⟨h3, ⟨⟩⟩⟩⟩ := hall
  simp only [EncryptedLogin.ofMembers, given_eq h1, given_eq h2, given_eq h3]

theorem sshKey_inserted {j j' : Json} (h : SshKeyInserted j j') :
    EncryptedSshKey.deserialize j' = EncryptedSshKey.deserialize j := by
  apply optional_struct h (by simp [EncryptedSshKey.jsonMembers, plainMember])
  intro opt rs rs' hall
  obtain _ | ⟨h1, _ | ⟨h2, _ | ⟨h3, ⟨⟩⟩⟩⟩ := hall
  simp only [EncryptedSshKey.ofMembers, given_eq h1, given_eq h2, given_eq h3]

/-! ### Ciphers -/

@[simp] theorem cipherMemberInserted_fields :
    cipherMemberInserted (plainMember "fields").name = ItemsInserted FieldInserted := if_pos rfl

@[simp] theorem cipherMemberInserted_login : cipherMemberInserted (plainMember "login").name = LoginInserted := rfl

@[simp] theorem cipherMemberInserted_sshKey : cipherMemberInserted (plainMember "sshKey").name = SshKeyInserted := rfl

/-- The members of a cipher that decode read alike, but for custom fields that
turned to null. -/
theorem cipher_members {opt : List Key} {rs rs' : List (Option Json)} (hid : "id".toList ∉ opt)
    (htype : "type".toList ∉ opt) (h : AllGiven opt cipherMemberInserted EncryptedCipher.jsonMembers rs rs') :
    EncryptedCipher.ofMembers rs' = EncryptedCipher.ofMembers rs ∨
      ("fields".toList ∈ opt ∧ rs'[7]? = some (some .null)) := by
  obtain _ | ⟨h1, _ | ⟨h2, _ | ⟨h3, _ | ⟨h4, _ | ⟨h5, _ | ⟨h6, _ | ⟨h7, _ | ⟨h8, _ | ⟨h9, _ | ⟨h10, ⟨⟩⟩⟩⟩⟩⟩⟩⟩⟩⟩⟩ := h
  have hkeep : ∀ {α : Type} {f : Json → Option α} (v v' : Json), v = v' → f v' = f v := by
    rintro α f v v' rfl
    rfl
  have e1 := h1.required_eq (f := string) hid hkeep
  have e2 := h2.required_eq (f := u8) htype hkeep
  have e3 := h3.orDefault_option (f := string) hkeep
  have e4 := h4.orDefault_option (f := string) hkeep
  have e5 := h5.orDefault_option (f := string) hkeep
  have e6 := h6.orDefault_option (f := string) hkeep
  have e7 := h7.orDefault_option (f := string) hkeep
  have e9 := h9.orDefault_option (f := EncryptedLogin.deserialize) fun v v' hv => hv.option_eq (login_inserted hv)
  have e10 := h10.orDefault_option (f := EncryptedSshKey.deserialize) fun v v' hv => hv.option_eq (sshKey_inserted hv)
  cases h8 with
  | absent =>
    refine Or.inl ?_
    simp only [EncryptedCipher.ofMembers, e1, e2, e3, e4, e5, e6, e7, e9, e10]
  | nulled hopt => exact Or.inr ⟨hopt, rfl⟩
  | @given v v' hv =>
    rw [cipherMemberInserted_fields] at hv
    have e8 : orDefault (vec EncryptedField.deserialize) [] (some v') =
        orDefault (vec EncryptedField.deserialize) [] (some v) := hv.vec_eq fun _ _ => field_inserted
    refine Or.inl ?_
    simp only [EncryptedCipher.ofMembers, e1, e2, e3, e4, e5, e6, e7, e8, e9, e10]

/-- Null is no `Vec`. -/
theorem ofMembers_null_fields {rs : List (Option Json)} (h : rs[7]? = some (some .null)) :
    EncryptedCipher.ofMembers rs = none := by
  unfold EncryptedCipher.ofMembers
  split
  · obtain rfl := Option.some.inj h
    simp [orDefault, vec]
  · rfl

theorem deserialize_of_nullFields {j : Json} (h : NullFields j) : EncryptedCipher.deserialize j = none := by
  obtain ⟨o, rfl, hmem⟩ := h
  unfold EncryptedCipher.deserialize
  cases hr : readStruct EncryptedCipher.jsonMembers (.obj o) with
  | none => rfl
  | some rs =>
    obtain ⟨r, hget, hof⟩ := fromObject_get (i := 7) (m := plainMember "fields") hr rfl
    have hnull : r = some .null := (ofObject_eq_some hof).mpr ⟨"fields".toList, by simp [plainMember_names], hmem⟩
    exact ofMembers_null_fields (hnull ▸ hget)

theorem nullFields_of_read {o : List (Key × Json)} {rs : List (Option Json)}
    (h : fromObject o EncryptedCipher.jsonMembers = some rs) (hnull : rs[7]? = some (some .null)) :
    NullFields (.obj o) := by
  obtain ⟨r, hget, hof⟩ := fromObject_get (i := 7) (m := plainMember "fields") h rfl
  obtain rfl : r = some .null := Option.some.inj (hget.symm.trans hnull)
  obtain ⟨k, hk, hmem⟩ := (ofObject_eq_some hof).mp rfl
  rw [plainMember_names, List.mem_singleton] at hk
  exact ⟨o, rfl, hk ▸ hmem⟩

/-- A cipher decodes as before, or it has custom fields that are null. -/
theorem cipher_inserted {j j' : Json} (h : CipherInserted j j') :
    EncryptedCipher.deserialize j' = EncryptedCipher.deserialize j ∨ NullFields j' := by
  have hplain : ∀ m ∈ EncryptedCipher.jsonMembers, m.aliases = [] := by
    simp [EncryptedCipher.jsonMembers, plainMember]
  have hid : "id".toList ∉ cipherOptional ∧ "type".toList ∉ cipherOptional := by decide
  rcases struct_reads h hplain with rfl | ⟨hreads, o, rfl⟩ | ⟨hreads, l, rfl⟩
  · exact Or.inl rfl
  · rcases hreads with ⟨h1, h2⟩ | ⟨rs, rs', h1, h2, hall⟩
    · simp [EncryptedCipher.deserialize, h1, h2]
    · rcases cipher_members hid.1 hid.2 hall with heq | ⟨-, hnull⟩
      · exact Or.inl (by simp [EncryptedCipher.deserialize, h1, h2, heq])
      · exact Or.inr (nullFields_of_read h2 hnull)
  · rcases hreads with ⟨h1, h2⟩ | ⟨rs, rs', h1, h2, hall⟩
    · simp [EncryptedCipher.deserialize, h1, h2]
    · rcases cipher_members (by simp) (by simp) hall with heq | ⟨hopt, -⟩
      · exact Or.inl (by simp [EncryptedCipher.deserialize, h1, h2, heq])
      · simp at hopt

/-! ### Documents -/

theorem items_null {l : List Json} {c : Json} (hc : c ∈ l) (h : NullFields c) :
    items EncryptedCipher.deserialize l = none := by
  induction l with
  | nil => simp at hc
  | cons v l ih =>
    rcases List.mem_cons.mp hc with rfl | hc
    · simp [items, deserialize_of_nullFields h]
    · simp [items, ih hc]

theorem items_inserted_cipher {l l' : List Json} (h : List.Forall₂ CipherInserted l l') :
    items EncryptedCipher.deserialize l' = items EncryptedCipher.deserialize l ∨ ∃ c ∈ l', NullFields c := by
  induction h with
  | nil => exact Or.inl rfl
  | @cons v v' l l' hv _ ih =>
    rcases cipher_inserted hv with heq | hnull
    · rcases ih with ih | ⟨c, hc, hnull⟩
      · exact Or.inl (by rw [items, items, heq, ih])
      · exact Or.inr ⟨c, List.mem_cons_of_mem _ hc, hnull⟩
    · exact Or.inr ⟨v', List.mem_cons_self, hnull⟩

theorem sync_reads {s s' : Json} (h : SyncInserted s s') :
    s' = s ∨ SameReads [] syncMemberInserted SyncResponse.jsonMembers (readStruct SyncResponse.jsonMembers s)
      (readStruct SyncResponse.jsonMembers s') := by
  cases h with
  | obj ho =>
    refine Or.inr (ho.reads (by simp) ?_)
    intro m hm k hk v v' hv
    obtain rfl := List.mem_singleton.mp hm
    have hrel : syncMemberInserted k = ItemsInserted CipherInserted := if_pos (by simpa [Member.names] using hk)
    rw [hrel] at hv
    exact hv
  | arr hl => exact Or.inr hl.reads
  | same => exact Or.inl rfl

theorem deserialize_of_read {s : Json} {rs : List (Option Json)}
    (h : readStruct SyncResponse.jsonMembers s = some rs) : SyncResponse.deserialize s = SyncResponse.ofMembers rs := by
  rw [SyncResponse.deserialize, h, Option.bind_some]

/-- A document with null custom fields does not decode. -/
theorem sync_null {s c : Json} (hc : c ∈ cipherItems s) (h : NullFields c) : SyncResponse.deserialize s = none := by
  unfold cipherItems at hc
  unfold SyncResponse.deserialize
  split at hc
  · rename_i l hread
    simp [hread, SyncResponse.ofMembers, required, vec, items_null hc h]
  · simp at hc

/-- A document decodes as before, or one of its items has null custom fields. -/
theorem sync_inserted {s s' : Json} (h : SyncInserted s s') :
    SyncResponse.deserialize s' = SyncResponse.deserialize s ∨ ∃ c ∈ cipherItems s', NullFields c := by
  rcases sync_reads h with rfl | ⟨h1, h2⟩ | ⟨rs, rs', h1, h2, hall⟩
  · exact Or.inl rfl
  · exact Or.inl (by simp [SyncResponse.deserialize, h1, h2])
  · obtain _ | ⟨hgiven, ⟨⟩⟩ := hall
    have hdec := deserialize_of_read h1
    have hdec' := deserialize_of_read h2
    cases hgiven with
    | absent => exact Or.inl (hdec'.trans hdec.symm)
    | nulled hopt => simp at hopt
    | @given v v' hv =>
      replace hv : ItemsInserted CipherInserted v v' := hv
      cases hv with
      | same => exact Or.inl (hdec'.trans hdec.symm)
      | @arr l l' hl =>
        rcases items_inserted_cipher hl with heq | ⟨c, hc, hnull⟩
        · refine Or.inl ?_
          rw [hdec, hdec']
          simp only [SyncResponse.ofMembers, required, vec, heq]
        · refine Or.inr ⟨c, ?_, hnull⟩
          rw [cipherItems, h2]
          exact hc

/-- Explicit nulls for absent optional members are read as absence exactly where
none of them is for the custom fields of a cipher: a document that decodes then
decodes to the same ciphers, and otherwise not at all. A document that does not
decode never does with more nulls. -/
theorem null_members_iff (s s' : Json) (h : SyncInserted s s') :
    (SyncResponse.deserialize s = none → SyncResponse.deserialize s' = SyncResponse.deserialize s) ∧
    (∀ r, SyncResponse.deserialize s = some r →
      (SyncResponse.deserialize s' = SyncResponse.deserialize s ↔ ∀ c ∈ cipherItems s', ¬ NullFields c)) := by
  refine ⟨fun hnone => ?_, fun r hr => ?_⟩
  · rcases sync_inserted h with heq | ⟨c, hc, hnull⟩
    · exact heq
    · rw [sync_null hc hnull, hnone]
  · constructor
    · intro heq c hc hnull
      rw [sync_null hc hnull, hr] at heq
      cases heq
    · intro hclean
      rcases sync_inserted h with heq | ⟨c, hc, hnull⟩
      · exact heq
      · exact absurd hnull (hclean c hc)

/-- A document of one item, with any further members. -/
def oneItem (more : List (Key × Json)) : Json :=
  .obj [("ciphers".toList, .arr [.obj ([("id".toList, .str "item-a".toList), ("type".toList, .int 2)] ++ more)])]

theorem oneItem_inserted {k : Key} (hopt : k ∈ cipherOptional) (hfree : k ∉ ["id".toList, "type".toList]) :
    SyncInserted (oneItem []) (oneItem [(k, .null)]) := by
  have hcipher : CipherInserted (.obj ([("id".toList, .str "item-a".toList), ("type".toList, .int 2)] ++ []))
      (.obj ([("id".toList, .str "item-a".toList), ("type".toList, .int 2)] ++ [(k, .null)])) :=
    .obj (.keep rfl (.keep rfl (.insert hopt hfree (.nil _))))
  exact .obj (.keep (.arr (.cons hcipher .nil)) (.nil _))

theorem null_members_iff_notes :
    (SyncResponse.deserialize (oneItem [("notes".toList, .null)])).isSome = true ∧
    SyncResponse.deserialize (oneItem [("notes".toList, .null)]) = SyncResponse.deserialize (oneItem []) := by
  have hinserted := oneItem_inserted (k := "notes".toList) (by decide) (by decide)
  refine ⟨rfl, ((null_members_iff _ _ hinserted).2 _ rfl).mpr ?_⟩
  intro c hc hnull
  obtain ⟨o, rfl, hmem⟩ := hnull
  obtain rfl : o = _ := Json.obj.inj (List.mem_singleton.mp hc)
  simp at hmem

/-- A null for the custom fields of one item, and the vault does not decode. -/
theorem null_fields_break_the_vault :
    SyncInserted (oneItem []) (oneItem [("fields".toList, .null)]) ∧
    (SyncResponse.deserialize (oneItem [])).isSome = true ∧
    SyncResponse.deserialize (oneItem [("fields".toList, .null)]) = none :=
  ⟨oneItem_inserted (by decide) (by decide), rfl, rfl⟩

end Bweso
