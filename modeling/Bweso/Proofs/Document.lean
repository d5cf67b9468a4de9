import Bweso.Lib.Entries
import Bweso.Sanity.Crypto

/-! What an item contributes to a document, what whole-item extraction makes of
it, and when extraction of a single property agrees. -/

namespace Bweso

/-! ### Contributions -/

/-- The conventional members under their document keys, in insertion order. -/
def DecryptedCipher.conventionalMembers (c : DecryptedCipher) : List (Str × Option Str) :=
  [("notes".toList, c.notes), ("username".toList, c.login.bind DecryptedLogin.username),
    ("password".toList, c.login.bind DecryptedLogin.password), ("totp".toList, c.login.bind DecryptedLogin.totp),
    ("privateKey".toList, c.sshKey.bind DecryptedSshKey.privateKey),
    ("publicKey".toList, c.sshKey.bind DecryptedSshKey.publicKey),
    ("keyFingerprint".toList, c.sshKey.bind DecryptedSshKey.keyFingerprint)]

/-- The members that are present. -/
def present (members : List (Str × Option Str)) : List (Str × Str) :=
  members.filterMap fun p => p.2.map (p.1, ·)

/-- A custom field with a value and a name that is not blank. -/
def DecryptedField.contribution (f : DecryptedField) : Option (Str × Str) :=
  match f.name, f.value with
  | some name, some value => if blank name then none else some (name, value)
  | _, _ => none

def customContributions (fields : List DecryptedField) : List (Str × Str) :=
  fields.filterMap DecryptedField.contribution

def DecryptedCipher.contributions (c : DecryptedCipher) : List (Str × Str) :=
  present c.conventionalMembers ++ customContributions c.fields

/-- No key is contributed twice. -/
def DistinctKeys (l : List (Str × Str)) : Prop := (l.map Prod.fst).Nodup

/-! ### The loops -/

theorem present_cons (key : Str) (value : Option Str) (members : List (Str × Option Str)) :
    present ((key, value) :: members) = (value.map (key, ·)).toList ++ present members := by
  cases value <;> rfl

theorem present_keys_sublist (members : List (Str × Option Str)) :
    ((present members).map Prod.fst).Sublist (members.map Prod.fst) := by
  induction members with
  | nil => exact List.Sublist.slnil
  | cons p members ih =>
    obtain ⟨key, value⟩ := p
    rw [present_cons]
    cases value with
    | none => exact ih.cons key
    | some v => exact ih.cons_cons key

theorem conventionalMembers_nodup (c : DecryptedCipher) : (c.conventionalMembers.map Prod.fst).Nodup := by
  change ["notes".toList, "username".toList, "password".toList, "totp".toList, "privateKey".toList,
    "publicKey".toList, "keyFingerprint".toList].Nodup
  decide

theorem conventionalDocument_eq (c : DecryptedCipher) :
    c.conventionalDocument =
      c.conventionalMembers.foldl (fun document p => insertOptional document p.1 p.2) .default := by
  unfold DecryptedCipher.conventionalDocument DecryptedCipher.conventionalMembers
  cases c.login <;> cases c.sshKey <;> rfl

/-- Inserting members under fresh keys adds those that are present. -/
theorem insertMembers_of {members : List (Str × Option Str)} {document : SecretDocument} {l : List (Str × Str)}
    (h : Entries.Of document.data l) (hkeys : (l.map Prod.fst ++ members.map Prod.fst).Nodup) :
    Entries.Of (members.foldl (fun d p => insertOptional d p.1 p.2) document).data (l ++ present members) ∧
      (members.foldl (fun d p => insertOptional d p.1 p.2) document).metadata = document.metadata := by
  induction members generalizing document l with
  | nil => simpa [present] using h
  | cons p members ih =>
    obtain ⟨key, value⟩ := p
    rw [List.foldl_cons, present_cons, ← List.append_assoc]
    have hfresh : key ∉ l.map Prod.fst := by
      intro hm
      exact (List.nodup_append.mp hkeys).2.2 key hm key (by simp) rfl
    cases value with
    | none =>
      have hrest := hkeys.sublist ((List.sublist_cons_self key _).append_left _)
      rw [Option.map_none, Option.toList_none, List.append_nil]
      exact ih h hrest
    | some v =>
      have hin := h.insert hfresh v
      have hrest : ((l ++ [(key, v)]).map Prod.fst ++ members.map Prod.fst).Nodup := by
        simpa using hkeys
      exact ih hin hrest

theorem conventionalDocument_of (c : DecryptedCipher) :
    Entries.Of c.conventionalDocument.data (present c.conventionalMembers) ∧ c.conventionalDocument.metadata = ∅ := by
  rw [conventionalDocument_eq]
  have hdefault : Entries.Of SecretDocument.default.data [] := Entries.Of.empty
  exact insertMembers_of hdefault (by simpa using conventionalMembers_nodup c)

/-- One turn of the loop over the custom fields. -/
theorem insertFields_cons (f : DecryptedField) (fs : List DecryptedField) (document : SecretDocument) :
    insertFields (f :: fs) document =
      match f.contribution with
      | none => insertFields fs document
      | some (name, value) =>
        if name ∈ document.data then .error (.duplicateDocumentField name)
        else insertFields fs { document with data := document.data.insert name value } := by
  cases hn : f.name with
  | none => simp [insertFields, DecryptedField.contribution, hn]
  | some name =>
    cases hv : f.value with
    | none => simp [insertFields, DecryptedField.contribution, hn, hv]
    | some value =>
      by_cases hb : blank name = true
      · simp [insertFields, DecryptedField.contribution, hn, hv, hb]
      · simp [insertFields, DecryptedField.contribution, hn, hv, hb]

/-- The loop adds every contribution when their keys are new and distinct, and
otherwise stops at a key that is not. -/
theorem insertFields_of {fs : List DecryptedField} {document : SecretDocument} {l : List (Str × Str)}
    (h : Entries.Of document.data l) (hl : DistinctKeys l) :
    (DistinctKeys (l ++ customContributions fs) ∧ ∃ document', insertFields fs document = .ok document' ∧
      Entries.Of document'.data (l ++ customContributions fs) ∧ document'.metadata = document.metadata) ∨
    (¬ DistinctKeys (l ++ customContributions fs) ∧
      ∃ name, insertFields fs document = .error (.duplicateDocumentField name)) := by
  induction fs generalizing document l with
  | nil =>
    exact Or.inl ⟨by simpa [customContributions] using hl, document, rfl, by simpa [customContributions] using h, rfl⟩
  | cons f fs ih =>
    rw [insertFields_cons]
    cases hf : f.contribution with
    | none =>
      have hsame : customContributions (f :: fs) = customContributions fs := by
        simp [customContributions, hf]
      rw [hsame]
      exact ih h hl
    | some p =>
      obtain ⟨name, value⟩ := p
      have hcons : l ++ customContributions (f :: fs) = l ++ [(name, value)] ++ customContributions fs := by
        simp [customContributions, hf]
      rw [hcons]
      by_cases hmem : name ∈ document.data
      · refine Or.inr ⟨fun hd => ?_, name, by simp [hmem]⟩
        -- the name is among the keys inserted before
        unfold DistinctKeys at hd
        rw [List.append_assoc, List.map_append, List.nodup_append] at hd
        exact hd.2.2 name (h.mem_iff.mp hmem) name (by simp) rfl
      · have hfresh : name ∉ l.map Prod.fst := fun hm => hmem (h.mem_iff.mpr hm)
        have hl' : DistinctKeys (l ++ [(name, value)]) := by
          unfold DistinctKeys
          rw [List.map_append, List.nodup_append]
          refine ⟨hl, by simp, ?_⟩
          rintro a ha b hb rfl
          simp only [List.map_cons, List.map_nil, List.mem_singleton] at hb
          exact hfresh (hb ▸ ha)
        simp only [hmem, if_false]
        exact ih (h.insert hfresh value) hl'

/-! ### The whole item -/

/-- The three ways whole-item extraction ends. -/
theorem toSecretDocument_cases (c : DecryptedCipher) :
    (DistinctKeys c.contributions ∧ c.contributions ≠ [] ∧ ∃ document, c.toSecretDocument = .ok document ∧
      Entries.Of document.data c.contributions ∧ document.metadata = ∅) ∨
    (c.contributions = [] ∧ c.toSecretDocument = .error (.noExtractableFields c.id)) ∨
    (¬ DistinctKeys c.contributions ∧ ∃ name, c.toSecretDocument = .error (.duplicateDocumentField name)) := by
  obtain ⟨hof, hmeta⟩ := conventionalDocument_of c
  have hdistinct : DistinctKeys (present c.conventionalMembers) :=
    (conventionalMembers_nodup c).sublist (present_keys_sublist _)
  unfold DecryptedCipher.toSecretDocument
  rcases @insertFields_of c.fields _ _ hof hdistinct with ⟨hkeys, document, hd, hof', hmeta'⟩ | ⟨hkeys, name, hn⟩
  · rw [hd, Except.ok_bind]
    by_cases hempty : c.contributions = []
    · refine Or.inr (Or.inl ⟨hempty, ?_⟩)
      rw [if_pos (hof'.eq_empty_iff.mpr hempty)]
      rfl
    · refine Or.inl ⟨hkeys, hempty, document, ?_, hof', hmeta'.trans hmeta⟩
      rw [if_neg (mt hof'.eq_empty_iff.mp hempty)]
      rfl
  · rw [hn, Except.error_bind]
    exact Or.inr (Or.inr ⟨hkeys, name, rfl⟩)

theorem toSecretDocument_eq_ok {c : DecryptedCipher} {document : SecretDocument} :
    c.toSecretDocument = .ok document ↔
      c.contributions ≠ [] ∧ DistinctKeys c.contributions ∧ Entries.Of document.data c.contributions ∧
        document.metadata = ∅ := by
  rcases toSecretDocument_cases c with ⟨hkeys, hne, d, hd, hof, hmeta⟩ | ⟨hempty, he⟩ | ⟨hkeys, name, he⟩
  · rw [hd, Except.ok.injEq]
    refine ⟨fun h => ?_, fun h => ?_⟩
    · obtain rfl := h
      exact ⟨hne, hkeys, hof, hmeta⟩
    · obtain ⟨-, -, hof', hmeta'⟩ := h
      obtain ⟨data, metadata⟩ := document
      obtain ⟨data', metadata'⟩ := d
      obtain rfl : data' = data := hof.unique hof' fun _ => Iff.rfl
      obtain rfl : metadata' = metadata := hmeta.trans hmeta'.symm
      rfl
  · simp [he, hempty]
  · simp [he, hkeys]

theorem toSecretDocument_duplicate {c : DecryptedCipher} :
    (∃ name, c.toSecretDocument = .error (.duplicateDocumentField name)) ↔ ¬ DistinctKeys c.contributions := by
  rcases toSecretDocument_cases c with ⟨hkeys, -, d, hd, -⟩ | ⟨hempty, he⟩ | ⟨hkeys, name, he⟩
  · simp [hd, hkeys]
  · simp [he, hempty, DistinctKeys]
  · simp [he, hkeys]

theorem toSecretDocument_empty {c : DecryptedCipher} :
    (∃ id, c.toSecretDocument = .error (.noExtractableFields id)) ↔ c.contributions = [] := by
  rcases toSecretDocument_cases c with ⟨-, hne, d, hd, -⟩ | ⟨hempty, he⟩ | ⟨hkeys, name, he⟩
  · simp [hd, hne]
  · simp [he, hempty]
  · have hne : c.contributions ≠ [] := by
      intro h
      simp [h, DistinctKeys] at hkeys
    simp [he, hne]

theorem contributions_perm (c : DecryptedCipher) {fields : List DecryptedField} (h : fields.Perm c.fields) :
    ({ c with fields } : DecryptedCipher).contributions.Perm c.contributions :=
  (h.filterMap _).append_left _

/-- Whole-item extraction returns the contributions of the item, all of them and
under their own keys, or tells why it does not: a key contributed twice, or
nothing to extract. The order of the custom fields plays no part in it. -/
theorem whole_item_exact (c : DecryptedCipher) :
    (∀ document, c.toSecretDocument = .ok document ↔
      c.contributions ≠ [] ∧ DistinctKeys c.contributions ∧ Entries.Of document.data c.contributions ∧
        document.metadata = ∅) ∧
    ((∃ name, c.toSecretDocument = .error (.duplicateDocumentField name)) ↔ ¬ DistinctKeys c.contributions) ∧
    ((∃ id, c.toSecretDocument = .error (.noExtractableFields id)) ↔ c.contributions = []) ∧
    (∀ fields, fields.Perm c.fields → ∀ c' : DecryptedCipher, c' = { c with fields } →
      (∀ document, c'.toSecretDocument = .ok document ↔ c.toSecretDocument = .ok document) ∧
      ((∃ name, c'.toSecretDocument = .error (.duplicateDocumentField name)) ↔
        ∃ name, c.toSecretDocument = .error (.duplicateDocumentField name)) ∧
      ((∃ id, c'.toSecretDocument = .error (.noExtractableFields id)) ↔
        ∃ id, c.toSecretDocument = .error (.noExtractableFields id))) := by
  refine ⟨fun document => toSecretDocument_eq_ok, toSecretDocument_duplicate, toSecretDocument_empty, ?_⟩
  rintro fields hperm c' rfl
  have hcontributions := contributions_perm c hperm
  have hkeys : DistinctKeys ({ c with fields } : DecryptedCipher).contributions ↔ DistinctKeys c.contributions :=
    (hcontributions.map Prod.fst).nodup_iff
  have hnil : ({ c with fields } : DecryptedCipher).contributions = [] ↔ c.contributions = [] := by
    rw [← List.length_eq_zero_iff, hcontributions.length_eq, List.length_eq_zero_iff]
  have hentries : ∀ m, Entries.Of m ({ c with fields } : DecryptedCipher).contributions ↔
      Entries.Of m c.contributions := by
    intro m
    unfold Entries.Of
    simp only [hcontributions.mem_iff]
  refine ⟨fun document => ?_, ?_, ?_⟩
  · rw [toSecretDocument_eq_ok, toSecretDocument_eq_ok, hkeys, hentries, ne_eq, ne_eq, hnil]
  · rw [toSecretDocument_duplicate, toSecretDocument_duplicate, hkeys]
  · rw [toSecretDocument_empty, toSecretDocument_empty, hnil]

/-! ### One property -/

/-- `str::trim_end` -/
def trimEnd (s : Str) : Str := s.rdropWhile isWhitespace

/-- Of all the fields, with or without a value, one has the name, and it has the
value. -/
def SoleField (fields : List DecryptedField) (name value : Str) : Prop :=
  ∃ pre f post, fields = pre ++ f :: post ∧ f.name = some name ∧ f.value = some value ∧
    ∀ g ∈ pre ++ post, g.name ≠ some name

theorem filter_name_eq_singleton {fields : List DecryptedField} {name value : Str} :
    (∃ f, (fields.filter fun f => f.name == some name) = [f] ∧ f.value = some value) ↔ SoleField fields name value := by
  have hnone : ∀ l : List DecryptedField, (l.filter fun f => f.name == some name) = [] ↔
      ∀ g ∈ l, g.name ≠ some name := by
    intro l
    simp [List.filter_eq_nil_iff]
  refine ⟨fun h => ?_, fun h => ?_⟩
  · obtain ⟨f, hf, hv⟩ := h
    have hmem : f ∈ fields.filter fun f => f.name == some name := by simp [hf]
    obtain ⟨hin, hname⟩ := List.mem_filter.mp hmem
    obtain ⟨pre, post, rfl⟩ := List.append_of_mem hin
    refine ⟨pre, f, post, rfl, by simpa using hname, hv, ?_⟩
    rw [List.filter_append, List.filter_cons, if_pos hname] at hf
    have hlen := congrArg List.length hf
    simp only [List.length_append, List.length_cons, List.length_nil] at hlen
    rw [← hnone, List.filter_append, List.append_eq_nil_iff]
    exact ⟨List.length_eq_zero_iff.mp (by omega), List.length_eq_zero_iff.mp (by omega)⟩
  · obtain ⟨pre, f, post, rfl, hname, hv, hothers⟩ := h
    rw [← hnone, List.filter_append, List.append_eq_nil_iff] at hothers
    refine ⟨f, ?_, hv⟩
    rw [List.filter_append, List.filter_cons, if_pos (by simp [hname]), hothers.1, hothers.2]
    rfl

/-- Trimming a prefixed name cuts only its trailing white space. -/
theorem trim_append_name {a : Char} {pre n : Str} (ha : isWhitespace a = false) (hn : blank n = false) :
    trim (a :: pre ++ n) = a :: pre ++ trimEnd n := by
  have hend : n.reverse.dropWhile isWhitespace ≠ [] := by
    intro h
    rw [List.dropWhile_eq_nil_iff] at h
    have hall : ∀ x ∈ n, isWhitespace x = true := fun x hx => h x (List.mem_reverse.mpr hx)
    have hblank : blank n = true := by
      rw [blank_iff, trim, Text.trimBy, List.dropWhile_eq_nil_iff.mpr hall]
      rfl
    rw [hn] at hblank
    cases hblank
  have hcut : (a :: pre ++ n).rdropWhile isWhitespace = a :: pre ++ trimEnd n := by
    rw [trimEnd, List.rdropWhile, List.rdropWhile, List.reverse_append, List.dropWhile_append,
      if_neg (by simpa using hend), List.reverse_append, List.reverse_reverse]
  rw [trim, Text.trimBy, List.cons_append, List.dropWhile_cons, if_neg (by simp [ha]), ← List.cons_append, hcut]

/-- The selectors that name a custom field, by their prefix. -/
theorem extractProperty_prefixed {c : DecryptedCipher} {pre n value : Str} (hn : blank n = false)
    (hpre : pre = "field.".toList ∨ pre = "custom.".toList) :
    c.extractProperty (pre ++ n) = .ok value ↔ SoleField c.fields (trimEnd n) value := by
  have htrim : trim (pre ++ n) = pre ++ trimEnd n := by
    rcases hpre with rfl | rfl
    · exact trim_append_name (by decide) hn
    · exact trim_append_name (by decide) hn
  have hattachment : startsWith (pre ++ trimEnd n) "attachment.".toList = false ∧
      startsWith (pre ++ trimEnd n) "attachments.".toList = false := by
    rcases hpre with rfl | rfl
    · exact ⟨rfl, rfl⟩
    · exact ⟨rfl, rfl⟩
  have hconventional : c.conventional (pre ++ trimEnd n) = none := by
    rcases hpre with rfl | rfl
    · simp [DecryptedCipher.conventional]
    · simp [DecryptedCipher.conventional]
  have hname : customName (pre ++ trimEnd n) = trimEnd n := by
    rcases hpre with rfl | rfl
    · simp only [customName, stripPrefix_append, Option.some_or, Option.getD_some]
    · have hfield : stripPrefix ("custom.".toList ++ trimEnd n) "field.".toList = none := rfl
      simp only [customName, hfield, stripPrefix_append, Option.none_or, Option.getD_some]
  have hne : (pre ++ trimEnd n).isEmpty = false := by
    rcases hpre with rfl | rfl
    · rfl
    · rfl
  rw [← filter_name_eq_singleton, DecryptedCipher.extractProperty]
  simp only [htrim, hne, hattachment.1, hattachment.2, Bool.or_false, Bool.false_eq_true, if_false, hconventional, hname]
  generalize (c.fields.filter fun f => f.name == some (trimEnd n)) = found
  match found with
  | [] => simp
  | [f] =>
    cases hv : f.value with
    | none => simp [existing, hv]
    | some v => simp [existing, hv]
  | _ :: _ :: _ => simp

/-- The conventional keys select the members they stand for. -/
theorem conventional_members {c : DecryptedCipher} {key : Str} {value : Option Str}
    (h : (key, value) ∈ c.conventionalMembers) :
    trim key = key ∧ key.isEmpty = false ∧ startsWith key "attachment.".toList = false ∧
      startsWith key "attachments.".toList = false ∧ c.conventional key = some value := by
  simp only [DecryptedCipher.conventionalMembers, List.mem_cons, List.not_mem_nil, or_false, Prod.mk.injEq] at h
  rcases h with ⟨rfl, rfl⟩ | ⟨rfl, rfl⟩ | ⟨rfl, rfl⟩ | ⟨rfl, rfl⟩ | ⟨rfl, rfl⟩ | ⟨rfl, rfl⟩ | ⟨rfl, rfl⟩
  · exact ⟨by decide, rfl, rfl, rfl, rfl⟩
  · exact ⟨by decide, rfl, rfl, rfl, rfl⟩
  · exact ⟨by decide, rfl, rfl, rfl, rfl⟩
  · exact ⟨by decide, rfl, rfl, rfl, rfl⟩
  · exact ⟨by decide, rfl, rfl, rfl, rfl⟩
  · exact ⟨by decide, rfl, rfl, rfl, rfl⟩
  · exact ⟨by decide, rfl, rfl, rfl, rfl⟩

theorem extractProperty_conventional {c : DecryptedCipher} {key value : Str}
    (h : (key, value) ∈ present c.conventionalMembers) : c.extractProperty key = .ok value := by
  obtain ⟨⟨key', member⟩, hmem, hmember⟩ := List.mem_filterMap.mp h
  obtain ⟨v, rfl, hkv⟩ := Option.map_eq_some_iff.mp hmember
  obtain ⟨rfl, rfl⟩ : key' = key ∧ v = value := by simpa using hkv
  obtain ⟨htrim, hne, hatt, hatts, hconventional⟩ := conventional_members hmem
  rw [DecryptedCipher.extractProperty]
  simp only [htrim, hne, hatt, hatts, Bool.or_false, Bool.false_eq_true, if_false, hconventional]
  rfl

theorem mem_customContributions {fields : List DecryptedField} {n v : Str} (h : (n, v) ∈ customContributions fields) :
    blank n = false := by
  obtain ⟨f, -, hf⟩ := List.mem_filterMap.mp h
  unfold DecryptedField.contribution at hf
  split at hf
  · split_ifs at hf with hb
    obtain ⟨rfl, rfl⟩ := Prod.mk.inj (Option.some.inj hf)
    simpa using hb
  · cases hf

/-- Each value of a whole-item document can be selected by itself exactly when,
for each custom field it comes from, one field of the item bears that name
without its trailing white space, and has the same value. -/
theorem property_agrees_iff (c : DecryptedCipher) (document : SecretDocument)
    (h : c.toSecretDocument = .ok document) :
    (∀ k v, document.data.lookup k = some v →
      ((k, v) ∈ present c.conventionalMembers → c.extractProperty k = .ok v) ∧
      ((k, v) ∈ customContributions c.fields →
        c.extractProperty ("field.".toList ++ k) = .ok v ∧ c.extractProperty ("custom.".toList ++ k) = .ok v)) ↔
    ∀ n v, (n, v) ∈ customContributions c.fields → SoleField c.fields (trimEnd n) v := by
  obtain ⟨-, -, hof, -⟩ := toSecretDocument_eq_ok.mp h
  refine ⟨fun hagree n v hnv => ?_, fun hsole k v _ => ?_⟩
  · have hlookup := (hof n v).mpr (List.mem_append_right _ hnv)
    have hfield := ((hagree n v hlookup).2 hnv).1
    exact (extractProperty_prefixed (mem_customContributions hnv) (Or.inl rfl)).mp hfield
  · refine ⟨extractProperty_conventional, fun hkv => ?_⟩
    have hn := mem_customContributions hkv
    exact ⟨(extractProperty_prefixed hn (Or.inl rfl)).mpr (hsole k v hkv),
      (extractProperty_prefixed hn (Or.inr rfl)).mpr (hsole k v hkv)⟩

/-- A note with custom fields only. -/
def fieldItem (fields : List DecryptedField) : DecryptedCipher := { vectorItem with notes := none, fields }

def customField (name : String) (value : Option String) : DecryptedField :=
  { name := some name.toList, value := value.map String.toList, fieldType := some 0 }

theorem property_agrees_iff_token :
    (fieldItem [customField "token" (some "s3cret")]).toSecretDocument =
      .ok (SecretDocument.single "token".toList "s3cret".toList) ∧
    (fieldItem [customField "token" (some "s3cret")]).extractProperty "field.token".toList = .ok "s3cret".toList := by
  have hdocument : (fieldItem [customField "token" (some "s3cret")]).toSecretDocument =
      .ok (SecretDocument.single "token".toList "s3cret".toList) := rfl
  have hagree := (property_agrees_iff _ _ hdocument).mpr (by
    intro n v hnv
    obtain ⟨rfl, rfl⟩ : n = "token".toList ∧ v = "s3cret".toList := by
      have hone : customContributions [customField "token" (some "s3cret")] = [("token".toList, "s3cret".toList)] := rfl
      exact Prod.mk.inj (List.mem_singleton.mp (hone ▸ hnv))
    exact ⟨[], customField "token" (some "s3cret"), [], rfl, rfl, rfl, by simp⟩)
  exact ⟨hdocument, ((hagree "token".toList "s3cret".toList rfl).2 (List.mem_singleton.mpr rfl)).1⟩

/-- A second field of the name, without a value, and a name with a trailing
space: the whole item gives the value, the single property does not. -/
theorem property_differs_from_document :
    (fieldItem [customField "token" (some "s3cret"), customField "token" none]).toSecretDocument =
      .ok (SecretDocument.single "token".toList "s3cret".toList) ∧
    (fieldItem [customField "token" (some "s3cret"), customField "token" none]).extractProperty "field.token".toList =
      .error (.duplicateDocumentField "token".toList) ∧
    (fieldItem [customField "token " (some "s3cret")]).toSecretDocument =
      .ok (SecretDocument.single "token ".toList "s3cret".toList) ∧
    (fieldItem [customField "token " (some "s3cret")]).extractProperty "field.token ".toList =
      .error (.missingProperty "field.token".toList) := by
  refine ⟨rfl, rfl, rfl, rfl⟩

end Bweso
