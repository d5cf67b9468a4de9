import Bweso.Sanity.Basic
import Bweso.Spec.Crypto

/-! The encrypted-string format: the texts the parser accepts, and what it makes
of them. -/

namespace Bweso

/-! ### The type header -/

/-- The numerals of two that `u8` parsing takes: an optional plus sign, then any
number of leading zeros. -/
def TwoNumeral (h : Str) : Prop :=
  ∃ sign zeros, (sign = [] ∨ sign = ['+']) ∧ h = sign ++ List.replicate zeros '0' ++ ['2']

/-- The value of a digit string, read on from `acc`. -/
def digitsValue (acc : ℕ) (ds : Str) : ℕ := ds.foldl (fun acc c => acc * 10 + (c.toNat - 48)) acc

@[simp] theorem digitsValue_nil (acc : ℕ) : digitsValue acc [] = acc := rfl

@[simp] theorem digitsValue_cons (acc : ℕ) (c : Char) (ds : Str) :
    digitsValue acc (c :: ds) = digitsValue (acc * 10 + (c.toNat - 48)) ds := by
  rw [digitsValue, List.foldl_cons, digitsValue]

theorem le_digitsValue (acc : ℕ) (ds : Str) : acc ≤ digitsValue acc ds := by
  induction ds generalizing acc with
  | nil => exact le_rfl
  | cons c ds ih =>
    have := ih (acc * 10 + (c.toNat - 48))
    rw [digitsValue_cons]
    omega

theorem isDigit_iff (c : Char) : c.isDigit = true ↔ 48 ≤ c.toNat ∧ c.toNat ≤ 57 := by
  simp only [Char.isDigit, Bool.and_eq_true, decide_eq_true_eq]
  exact Iff.rfl

theorem eq_of_toNat {c d : Char} (h : c.toNat = d.toNat) : c = d := by
  rw [← Char.ofNat_toNat c, h, Char.ofNat_toNat]

/-- A digit string of value two is zeros and a two: any other nonzero digit, or a
digit after the two, makes it larger. -/
theorem digitsValue_eq_two {ds : Str} (hd : ∀ c ∈ ds, c.isDigit = true) :
    digitsValue 0 ds = 2 ↔ ∃ zeros, ds = List.replicate zeros '0' ++ ['2'] := by
  refine ⟨fun hv => ?_, fun h => ?_⟩
  · induction ds with
    | nil => simp at hv
    | cons c ds ih =>
      have hc := (isDigit_iff c).mp (hd c (by simp))
      rw [digitsValue_cons] at hv
      have hle := le_digitsValue (0 * 10 + (c.toNat - 48)) ds
      by_cases h0 : c.toNat = 48
      · obtain ⟨zeros, rfl⟩ := ih (fun x hx => hd x (by simp [hx])) (by simpa [h0] using hv)
        refine ⟨zeros + 1, ?_⟩
        rw [eq_of_toNat (d := '0') h0, List.replicate_succ, List.cons_append]
      · cases ds with
        | nil =>
          refine ⟨0, ?_⟩
          have h2 : c.toNat = 50 := by simp at hv; omega
          rw [eq_of_toNat (d := '2') h2]
          rfl
        | cons x ds =>
          rw [digitsValue_cons] at hv
          have := le_digitsValue ((0 * 10 + (c.toNat - 48)) * 10 + (x.toNat - 48)) ds
          omega
  · obtain ⟨zeros, rfl⟩ := h
    clear hd
    induction zeros with
    | zero => rfl
    | succ n ih =>
      rw [List.replicate_succ, List.cons_append, digitsValue_cons]
      exact ih

/-- What `parse::<u8>` reads: the sign it skips, and digits whose value fits. -/
theorem parseU8_eq_some {raw : Str} {v : ℕ} :
    parseU8 raw = some v ↔ ∃ sign ds, (sign = [] ∨ sign = ['+']) ∧ raw = sign ++ ds ∧ ds ≠ [] ∧
      (∀ c ∈ ds, c.isDigit = true) ∧ digitsValue 0 ds = v ∧ v ≤ 255 := by
  have hdigits : ∀ ds : Str, (if ds.isEmpty || !ds.all Char.isDigit then none
      else if digitsValue 0 ds ≤ 255 then some (digitsValue 0 ds) else none) = some v ↔
      ds ≠ [] ∧ (∀ c ∈ ds, c.isDigit = true) ∧ digitsValue 0 ds = v ∧ v ≤ 255 := by
    intro ds
    simp only [Option.ite_none_left_eq_some, Option.ite_none_right_eq_some, Option.some.injEq, Bool.or_eq_true,
      List.isEmpty_iff, Bool.not_eq_true', ← Bool.not_eq_true, List.all_eq_true, not_or, not_not]
    refine ⟨fun h => ?_, fun h => ?_⟩
    · obtain ⟨⟨hne, hall⟩, hle, rfl⟩ := h
      exact ⟨hne, hall, rfl, hle⟩
    · obtain ⟨hne, hall, rfl, hle⟩ := h
      exact ⟨⟨hne, hall⟩, hle, rfl⟩
  have hplus : ¬ ('+' : Char).isDigit = true := by decide
  unfold parseU8
  split
  · rename_i t
    refine (hdigits t).trans ⟨fun h => ⟨['+'], t, Or.inr rfl, rfl, h⟩, ?_⟩
    rintro ⟨sign, ds, rfl | rfl, hraw, h⟩
    · -- a plus sign is no digit
      exact absurd (h.2.1 '+' (by simp [show ds = '+' :: t from hraw.symm])) hplus
    · obtain rfl : t = ds := by simpa using hraw
      exact h
  · rename_i hne
    refine (hdigits raw).trans ⟨fun h => ⟨[], raw, Or.inl rfl, rfl, h⟩, ?_⟩
    rintro ⟨sign, ds, rfl | rfl, hraw, h⟩
    · obtain rfl : raw = ds := hraw
      exact h
    · exact absurd hraw (hne ds)

theorem parseU8_eq_two (raw : Str) : parseU8 raw = some 2 ↔ TwoNumeral raw := by
  rw [parseU8_eq_some]
  refine ⟨fun h => ?_, fun h => ?_⟩
  · obtain ⟨sign, ds, hsign, rfl, -, hd, hv, -⟩ := h
    obtain ⟨zeros, rfl⟩ := (digitsValue_eq_two hd).mp hv
    exact ⟨sign, zeros, hsign, by rw [List.append_assoc]⟩
  · obtain ⟨sign, zeros, hsign, rfl⟩ := h
    have hd : ∀ c ∈ List.replicate zeros '0' ++ ['2'], c.isDigit = true := by
      intro c hc
      rcases List.mem_append.mp hc with hc | hc
      · rw [List.eq_of_mem_replicate hc]
        decide
      · rw [List.mem_singleton.mp hc]
        decide
    exact ⟨sign, _, hsign, by rw [List.append_assoc], by simp, hd, (digitsValue_eq_two hd).mpr ⟨zeros, rfl⟩,
      by omega⟩

/-- A header that parses has no dot, so it ends at the first one. -/
theorem not_dot_mem_of_parseU8 {raw : Str} {v : ℕ} (h : parseU8 raw = some v) : '.' ∉ raw := by
  obtain ⟨sign, ds, hsign, rfl, -, hd, -⟩ := parseU8_eq_some.mp h
  have hdot : ¬ ('.' : Char).isDigit = true := by decide
  intro hm
  rcases List.mem_append.mp hm with hm | hm
  · rcases hsign with rfl | rfl
    · simp at hm
    · simp at hm
  · exact hdot (hd _ hm)

theorem parse_eq_ok {raw : Str} {t : EncryptionType} : EncryptionType.parse raw = .ok t ↔ TwoNumeral raw := by
  rw [← parseU8_eq_two]
  unfold EncryptionType.parse
  cases t
  split
  · simp_all
  · simp_all
  · simp_all
  · simp_all

/-! ### The payload -/

theorem encode_no_separator (b : Bytes) : '|' ∉ Base64.encode b := by
  intro h
  have hsep : ¬ (('|' : Char).isAlphanum ∨ '|' = '+' ∨ '|' = '/' ∨ '|' = '=') := by decide
  exact hsep (Base64.mem_encode h)

theorem splitPieces_joined {a b c : Str} (ha : '|' ∉ a) (hb : '|' ∉ b) (hc : '|' ∉ c) :
    splitPieces (a ++ '|' :: b ++ '|' :: c) = .ok (a, b, c) := by
  have hsplit : (a ++ '|' :: b ++ '|' :: c).splitOn '|' = [a, b, c] := by
    have hsep : ∀ l : Str, ('|' :: l).splitOn '|' = [] :: l.splitOn '|' := by
      intro l
      simp [List.splitOn_cons_eq_if_modifyHead]
    rw [List.append_assoc, List.cons_append, Text.splitOn_append_left_of_not_mem ha, hsep,
      Text.splitOn_append_left_of_not_mem hb, hsep, List.splitOn_eq_singleton hc]
    simp
  rw [splitPieces, hsplit]

theorem splitPieces_eq_ok {payload a b c : Str} (h : splitPieces payload = .ok (a, b, c)) :
    payload = a ++ '|' :: b ++ '|' :: c := by
  unfold splitPieces at h
  split at h
  · rename_i iv data mac hsplit
    obtain ⟨rfl, rfl, rfl⟩ : iv = a ∧ data = b ∧ mac = c := by simpa using h
    have hjoin : ['|'].intercalate (payload.splitOn '|') = payload := List.intercalate_splitOn '|'
    rw [hsplit] at hjoin
    rw [← hjoin]
    simp [List.intercalate]
  · cases h

theorem decodeBase64_eq_ok {part raw : Str} {b : Bytes} :
    decodeBase64 part raw = .ok b ↔ raw = Base64.encode b := by
  rw [← Base64.decode_eq_some_iff, decodeBase64]
  cases Base64.decode raw with
  | none => simp
  | some d => simp

theorem decodeBase64_encode (part : Str) (b : Bytes) : decodeBase64 part (Base64.encode b) = .ok b :=
  decodeBase64_eq_ok.mpr rfl

/-! ### The whole text -/

/-- The text of three byte strings under a header. -/
def formatPieces (h : Str) (iv data mac : Bytes) : Str :=
  h ++ '.' :: (Base64.encode iv ++ '|' :: Base64.encode data ++ '|' :: Base64.encode mac)

theorem splitOnce_formatPieces {h : Str} (hdot : '.' ∉ h) (iv data mac : Bytes) :
    splitOnce '.' (formatPieces h iv data mac) =
      some (h, Base64.encode iv ++ '|' :: Base64.encode data ++ '|' :: Base64.encode mac) :=
  splitOnce_eq_some.mpr ⟨rfl, hdot⟩

theorem fromStr_formatPieces {h : Str} (hh : TwoNumeral h) (e : EncryptedString) (hmac : e.mac.length = 32)
    (hdata : e.data ≠ []) (hblocks : 16 ∣ e.data.length) :
    EncryptedString.fromStr (formatPieces h e.iv.toList e.data e.mac) = .ok e := by
  have hdot := not_dot_mem_of_parseU8 ((parseU8_eq_two h).mpr hh)
  have htype : EncryptionType.parse h = .ok e.encryptionType := parse_eq_ok.mpr hh
  have hpieces := splitPieces_joined (encode_no_separator e.iv.toList) (encode_no_separator e.data)
    (encode_no_separator e.mac)
  unfold EncryptedString.fromStr
  simp only [splitOnce_formatPieces hdot, htype, hpieces, decodeBase64_encode, Except.ok_bind,
    List.Vector.toList_length, dif_pos, hmac, Nat.mod_eq_zero_of_dvd hblocks]
  simp [hdata]

theorem formatPieces_of_fromStr {raw : Str} {e : EncryptedString} (h : EncryptedString.fromStr raw = .ok e) :
    ∃ hd, TwoNumeral hd ∧ raw = formatPieces hd e.iv.toList e.data e.mac ∧ e.mac.length = 32 ∧
      e.data ≠ [] ∧ 16 ∣ e.data.length := by
  unfold EncryptedString.fromStr at h
  cases hsplit : splitOnce '.' raw with
  | none => simp [hsplit] at h
  | some p =>
    obtain ⟨header, payload⟩ := p
    rw [hsplit] at h
    simp only [Except.bind_eq_ok] at h
    obtain ⟨t, ht, ⟨a, b, c⟩, hpieces, iv, hiv, data, hdata, mac, hmac, h⟩ := h
    obtain rfl := decodeBase64_eq_ok.mp hiv
    obtain rfl := decodeBase64_eq_ok.mp hdata
    obtain rfl := decodeBase64_eq_ok.mp hmac
    have hpayload := splitPieces_eq_ok hpieces
    split_ifs at h with h16 h32 hlen hlen
    · simp at h
    · simp at h
    · simp at h
    · obtain rfl := Except.ok.inj h
      simp only [Bool.or_eq_true, List.isEmpty_iff, bne_iff_ne, ne_eq, not_or, not_not] at hlen
      refine ⟨header, parse_eq_ok.mp ht, ?_, not_not.mp h32, hlen.1, Nat.dvd_of_mod_eq_zero hlen.2⟩
      rw [(splitOnce_eq_some.mp hsplit).1, hpayload]
      rfl

/-- The header ends at the first dot; all after it is determined by the result. -/
theorem payload_of_fromStr {h t : Str} {e : EncryptedString} (hdot : '.' ∉ h)
    (he : EncryptedString.fromStr (h ++ '.' :: t) = .ok e) :
    t = Base64.encode e.iv.toList ++ '|' :: Base64.encode e.data ++ '|' :: Base64.encode e.mac := by
  obtain ⟨hd, hhd, hs, -⟩ := formatPieces_of_fromStr he
  have hcut := splitOnce_formatPieces (not_dot_mem_of_parseU8 ((parseU8_eq_two hd).mpr hhd)) e.iv.toList e.data e.mac
  rw [← hs, splitOnce_eq_some.mpr ⟨rfl, hdot⟩] at hcut
  exact (Prod.mk.inj (Option.some.inj hcut)).2

/-- The checks leave nothing for the conversion behind them to fail on. -/
theorem fromStrOrPanic_run (raw : Str) :
    (EncryptedString.fromStrOrPanic raw).run = some (EncryptedString.fromStr raw) := by
  unfold EncryptedString.fromStrOrPanic EncryptedString.fromStr
  cases splitOnce '.' raw with
  | none => rfl
  | some p =>
    refine Except.run_ofExcept_bind fun t => ?_
    cases t
    refine Except.run_ofExcept_bind fun pieces => ?_
    refine Except.run_ofExcept_bind fun iv => ?_
    refine Except.run_ofExcept_bind fun data => ?_
    refine Except.run_ofExcept_bind fun mac => ?_
    by_cases hiv : iv.length = 16
    · have hinto : tryIntoArray 16 iv = some ⟨iv, hiv⟩ := dif_pos hiv
      rw [if_neg (not_not.mpr hiv), dif_pos hiv, hinto]
      split_ifs
      · rfl
      · rfl
      · rfl
      · rfl
    · rw [if_pos hiv, dif_neg hiv]
      rfl

/-- Parsing accepts the texts of the format and nothing else, and gives back the
bytes written in them. Under one header the text is determined by the result, a
text without a type or of type 0 is refused, and no text leads to the panic. -/
theorem fromStr_exact_format :
    (∀ s e, EncryptedString.fromStr s = .ok e ↔
      ∃ h iv data mac, TwoNumeral h ∧ s = formatPieces h iv data mac ∧ iv.length = 16 ∧ mac.length = 32 ∧
        0 < data.length ∧ 16 ∣ data.length ∧ e.iv.toList = iv ∧ e.data = data ∧ e.mac = mac) ∧
    (∀ h e, TwoNumeral h → e.mac.length = 32 → 0 < e.data.length → 16 ∣ e.data.length →
      EncryptedString.fromStr (formatPieces h e.iv.toList e.data e.mac) = .ok e) ∧
    (∀ h t t' e, '.' ∉ h → EncryptedString.fromStr (h ++ '.' :: t) = .ok e →
      EncryptedString.fromStr (h ++ '.' :: t') = .ok e → h ++ '.' :: t = h ++ '.' :: t') ∧
    (∀ s, '.' ∉ s → EncryptedString.fromStr s = .error .legacyNoMacDisabled) ∧
    (∀ h t, parseU8 h = some 0 → EncryptedString.fromStr (h ++ '.' :: t) = .error .legacyNoMacDisabled) ∧
    (∀ s, (EncryptedString.fromStrOrPanic s).run = some (EncryptedString.fromStr s)) := by
  refine ⟨fun s e => ⟨fun h => ?_, ?_⟩, fun h e hh hmac hpos hdvd => ?_, fun h t t' e hdot h1 h2 => ?_,
    fun s hs => ?_, fun h t h0 => ?_, fromStrOrPanic_run⟩
  · obtain ⟨hd, hhd, hs, hmac, hne, hdvd⟩ := formatPieces_of_fromStr h
    exact ⟨hd, e.iv.toList, e.data, e.mac, hhd, hs, e.iv.toList_length, hmac, List.length_pos_iff.mpr hne, hdvd,
      rfl, rfl, rfl⟩
  · rintro ⟨hd, iv, data, mac, hhd, rfl, -, hmac, hpos, hdvd, rfl, rfl, rfl⟩
    exact fromStr_formatPieces hhd e hmac (List.length_pos_iff.mp hpos) hdvd
  · exact fromStr_formatPieces hh e hmac (List.length_pos_iff.mp hpos) hdvd
  · rw [payload_of_fromStr hdot h1, payload_of_fromStr hdot h2]
  · have hnone : splitOnce '.' s = none := by
      rw [Option.eq_none_iff_forall_ne_some]
      rintro ⟨a, b⟩ hab
      exact hs (by simp [(splitOnce_eq_some.mp hab).1])
    simp [EncryptedString.fromStr, hnone]
  · have hcut : splitOnce '.' (h ++ '.' :: t) = some (h, t) :=
      splitOnce_eq_some.mpr ⟨rfl, not_dot_mem_of_parseU8 h0⟩
    have hparse : EncryptionType.parse h = .error .legacyNoMacDisabled := by
      simp [EncryptionType.parse, h0]
    simp [EncryptedString.fromStr, hcut, hparse]

end Bweso
