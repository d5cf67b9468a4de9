import Mathlib.Tactic

/-! Padded base64 with the standard alphabet. Decoding is strict: the length is
a multiple of four, padding stands only in the last group, and the bits a
padded group does not use are zero. -/

namespace Base64

/-- The character of a sextet. -/
def encChar (n : ℕ) : Char :=
  if n < 26 then Char.ofNat (65 + n)
  else if n < 52 then Char.ofNat (71 + n)
  else if n < 62 then Char.ofNat (n - 4)
  else if n = 62 then '+'
  else '/'

/-- The sextet of a character of the alphabet. -/
def decChar (c : Char) : Option ℕ :=
  if 'A' ≤ c ∧ c ≤ 'Z' then some (c.toNat - 65)
  else if 'a' ≤ c ∧ c ≤ 'z' then some (c.toNat - 71)
  else if '0' ≤ c ∧ c ≤ '9' then some (c.toNat + 4)
  else if c = '+' then some 62
  else if c = '/' then some 63
  else none

def encode : List UInt8 → List Char
  | [] => []
  | [a] => [encChar (a.toNat / 4), encChar (a.toNat % 4 * 16), '=', '=']
  | [a, b] =>
    [encChar (a.toNat / 4), encChar (a.toNat % 4 * 16 + b.toNat / 16),
      encChar (b.toNat % 16 * 4), '=']
  | a :: b :: c :: t =>
    encChar (a.toNat / 4) :: encChar (a.toNat % 4 * 16 + b.toNat / 16) ::
      encChar (b.toNat % 16 * 4 + c.toNat / 64) :: encChar (c.toNat % 64) :: encode t

/-- Three bytes out of four sextets. -/
def decGroup (w x y z : Char) : Option (List UInt8) := do
  let p ← decChar w
  let q ← decChar x
  let r ← decChar y
  let s ← decChar z
  some [UInt8.ofNat (p * 4 + q / 16), UInt8.ofNat (q % 16 * 16 + r / 4), UInt8.ofNat (r % 4 * 64 + s)]

/-- The last group, with up to two padding characters. -/
def decLast (w x y z : Char) : Option (List UInt8) :=
  if y = '=' ∧ z = '=' then do
    let p ← decChar w
    let q ← decChar x
    if q % 16 = 0 then some [UInt8.ofNat (p * 4 + q / 16)] else none
  else if z = '=' then do
    let p ← decChar w
    let q ← decChar x
    let r ← decChar y
    if r % 4 = 0 then some [UInt8.ofNat (p * 4 + q / 16), UInt8.ofNat (q % 16 * 16 + r / 4)] else none
  else decGroup w x y z

def decode : List Char → Option (List UInt8)
  | [] => some []
  | w :: x :: y :: z :: t =>
    if t = [] then decLast w x y z
    else do
      let g ← decGroup w x y z
      let rest ← decode t
      some (g ++ rest)
  | _ => none

theorem decChar_encChar : ∀ n < 64, decChar (encChar n) = some n := by decide

theorem encChar_ne_pad : ∀ n < 64, encChar n ≠ '=' := by decide

theorem encChar_alphabet : ∀ n < 64, (encChar n).isAlphanum ∨ encChar n = '+' ∨ encChar n = '/' := by
  decide

theorem ofNat_of_eq {n : ℕ} {a : UInt8} (h : n = a.toNat) : UInt8.ofNat n = a := by
  subst h
  exact UInt8.ofNat_toNat

theorem decGroup_encChar (a b c : UInt8) :
    decGroup (encChar (a.toNat / 4)) (encChar (a.toNat % 4 * 16 + b.toNat / 16))
      (encChar (b.toNat % 16 * 4 + c.toNat / 64)) (encChar (c.toNat % 64)) = some [a, b, c] := by
  have ha := a.toNat_lt
  have hb := b.toNat_lt
  have hc := c.toNat_lt
  unfold decGroup
  rw [decChar_encChar _ (by omega), decChar_encChar _ (by omega), decChar_encChar _ (by omega),
    decChar_encChar _ (by omega)]
  have h1 : a.toNat / 4 * 4 + (a.toNat % 4 * 16 + b.toNat / 16) / 16 = a.toNat := by omega
  have h2 : (a.toNat % 4 * 16 + b.toNat / 16) % 16 * 16 + (b.toNat % 16 * 4 + c.toNat / 64) / 4 =
      b.toNat := by omega
  have h3 : (b.toNat % 16 * 4 + c.toNat / 64) % 4 * 64 + c.toNat % 64 = c.toNat := by omega
  simp only [Option.bind_eq_bind, Option.bind_some]
  rw [ofNat_of_eq h1, ofNat_of_eq h2, ofNat_of_eq h3]

theorem decLast_one (a : UInt8) :
    decLast (encChar (a.toNat / 4)) (encChar (a.toNat % 4 * 16)) '=' '=' = some [a] := by
  have ha := a.toNat_lt
  have h1 : a.toNat / 4 * 4 + a.toNat % 4 * 16 / 16 = a.toNat := by omega
  have h2 : a.toNat % 4 * 16 % 16 = 0 := by omega
  unfold decLast
  rw [decChar_encChar _ (by omega), decChar_encChar _ (by omega)]
  simp only [and_self, if_true, Option.bind_eq_bind, Option.bind_some, h2]
  rw [ofNat_of_eq h1]

theorem decLast_two (a b : UInt8) :
    decLast (encChar (a.toNat / 4)) (encChar (a.toNat % 4 * 16 + b.toNat / 16))
      (encChar (b.toNat % 16 * 4)) '=' = some [a, b] := by
  have ha := a.toNat_lt
  have hb := b.toNat_lt
  have hne : encChar (b.toNat % 16 * 4) ≠ '=' := encChar_ne_pad _ (by omega)
  have h1 : a.toNat / 4 * 4 + (a.toNat % 4 * 16 + b.toNat / 16) / 16 = a.toNat := by omega
  have h2 : (a.toNat % 4 * 16 + b.toNat / 16) % 16 * 16 + b.toNat % 16 * 4 / 4 = b.toNat := by omega
  have h3 : b.toNat % 16 * 4 % 4 = 0 := by omega
  unfold decLast
  rw [decChar_encChar _ (by omega), decChar_encChar _ (by omega), decChar_encChar _ (by omega)]
  simp only [hne, false_and, if_false, if_true, Option.bind_eq_bind, Option.bind_some, h3]
  rw [ofNat_of_eq h1, ofNat_of_eq h2]

theorem encode_eq_nil_iff (l : List UInt8) : encode l = [] ↔ l = [] := by
  fun_cases encode l <;> simp

theorem decode_encode (l : List UInt8) : decode (encode l) = some l := by
  fun_induction encode l with
  | case1 => rfl
  | case2 a => simp [decode, decLast_one]
  | case3 a b => simp [decode, decLast_two]
  | case4 a b c t ih =>
    have hz : encChar (c.toNat % 64) ≠ '=' := encChar_ne_pad _ (by omega)
    rw [decode]
    split_ifs with ht
    · rw [(encode_eq_nil_iff t).mp ht]
      simp [decLast, hz, decGroup_encChar]
    · simp [decGroup_encChar, ih]

/-- Every character of an encoding is alphanumeric, a sign or padding. -/
theorem mem_encode {l : List UInt8} {c : Char} (h : c ∈ encode l) :
    c.isAlphanum ∨ c = '+' ∨ c = '/' ∨ c = '=' := by
  have key : ∀ n < 64, c = encChar n → c.isAlphanum ∨ c = '+' ∨ c = '/' ∨ c = '=' := by
    rintro n hn rfl
    rcases encChar_alphabet n hn with h | h | h
    · exact Or.inl h
    · exact Or.inr (Or.inl h)
    · exact Or.inr (Or.inr (Or.inl h))
  have hbyte (a : UInt8) := a.toNat_lt
  fun_induction encode l with
  | case1 => simp at h
  | case2 a =>
    have ha := hbyte a
    simp only [List.mem_cons, List.not_mem_nil, or_false] at h
    rcases h with h | h | h | h
    · exact key _ (by omega) h
    · exact key _ (by omega) h
    · simp [h]
    · simp [h]
  | case3 a b =>
    have ha := hbyte a
    have hb := hbyte b
    simp only [List.mem_cons, List.not_mem_nil, or_false] at h
    rcases h with h | h | h | h
    · exact key _ (by omega) h
    · exact key _ (by omega) h
    · exact key _ (by omega) h
    · simp [h]
  | case4 a b c' t ih =>
    have ha := hbyte a
    have hb := hbyte b
    have hc := hbyte c'
    simp only [List.mem_cons] at h
    rcases h with h | h | h | h | h
    · exact key _ (by omega) h
    · exact key _ (by omega) h
    · exact key _ (by omega) h
    · exact key _ (by omega) h
    · exact ih h

theorem encChar_of_decChar {c : Char} {n : ℕ} (h : decChar c = some n) : n < 64 ∧ encChar n = c := by
  have hle : ∀ a b : Char, a ≤ b ↔ a.toNat ≤ b.toNat := fun _ _ => Iff.rfl
  unfold decChar at h
  simp only [hle] at h
  split_ifs at h with h1 h2 h3 h4 h5
  · obtain rfl := Option.some.inj h
    obtain ⟨hl, hu⟩ : 65 ≤ c.toNat ∧ c.toNat ≤ 90 := h1
    refine ⟨by omega, ?_⟩
    rw [encChar, if_pos (by omega), Nat.add_sub_of_le hl, Char.ofNat_toNat]
  · obtain rfl := Option.some.inj h
    obtain ⟨hl, hu⟩ : 97 ≤ c.toNat ∧ c.toNat ≤ 122 := h2
    refine ⟨by omega, ?_⟩
    rw [encChar, if_neg (by omega), if_pos (by omega), Nat.add_sub_of_le (by omega), Char.ofNat_toNat]
  · obtain rfl := Option.some.inj h
    obtain ⟨hl, hu⟩ : 48 ≤ c.toNat ∧ c.toNat ≤ 57 := h3
    refine ⟨by omega, ?_⟩
    rw [encChar, if_neg (by omega), if_neg (by omega), if_pos (by omega), Nat.add_sub_cancel,
      Char.ofNat_toNat]
  · obtain rfl := Option.some.inj h
    exact ⟨by decide, h4.symm⟩
  · obtain rfl := Option.some.inj h
    exact ⟨by decide, h5.symm⟩

theorem toNat_ofNat_of_lt {n : ℕ} (h : n < 256) : (UInt8.ofNat n).toNat = n := by
  rw [UInt8.toNat_ofNat']
  exact Nat.mod_eq_of_lt h

theorem encode_of_decGroup {w x y z : Char} {g : List UInt8} (h : decGroup w x y z = some g) (t : List UInt8) :
    encode (g ++ t) = w :: x :: y :: z :: encode t := by
  simp only [decGroup, Option.bind_eq_bind, Option.bind_eq_some_iff, Option.some.injEq] at h
  obtain ⟨p, hp, q, hq, r, hr, s, hs, rfl⟩ := h
  obtain ⟨hp, rfl⟩ := encChar_of_decChar hp
  obtain ⟨hq, rfl⟩ := encChar_of_decChar hq
  obtain ⟨hr, rfl⟩ := encChar_of_decChar hr
  obtain ⟨hs, rfl⟩ := encChar_of_decChar hs
  have h1 : (p * 4 + q / 16) / 4 = p := by omega
  have h2 : (p * 4 + q / 16) % 4 * 16 + (q % 16 * 16 + r / 4) / 16 = q := by omega
  have h3 : (q % 16 * 16 + r / 4) % 16 * 4 + (r % 4 * 64 + s) / 64 = r := by omega
  have h4 : (r % 4 * 64 + s) % 64 = s := by omega
  simp only [List.cons_append, List.nil_append, encode, toNat_ofNat_of_lt (show p * 4 + q / 16 < 256 by omega),
    toNat_ofNat_of_lt (show q % 16 * 16 + r / 4 < 256 by omega),
    toNat_ofNat_of_lt (show r % 4 * 64 + s < 256 by omega), h1, h2, h3, h4]

theorem encode_of_decLast {w x y z : Char} {g : List UInt8} (h : decLast w x y z = some g) :
    encode g = [w, x, y, z] := by
  unfold decLast at h
  split_ifs at h with h1 h2
  · obtain ⟨rfl, rfl⟩ := h1
    simp only [Option.bind_eq_bind, Option.bind_eq_some_iff, Option.ite_none_right_eq_some,
      Option.some.injEq] at h
    obtain ⟨p, hp, q, hq, h0, rfl⟩ := h
    obtain ⟨hp, rfl⟩ := encChar_of_decChar hp
    obtain ⟨hq, rfl⟩ := encChar_of_decChar hq
    have h1 : (p * 4 + q / 16) / 4 = p := by omega
    have h2 : (p * 4 + q / 16) % 4 * 16 = q := by omega
    simp only [encode, toNat_ofNat_of_lt (show p * 4 + q / 16 < 256 by omega), h1, h2]
  · subst h2
    simp only [Option.bind_eq_bind, Option.bind_eq_some_iff, Option.ite_none_right_eq_some,
      Option.some.injEq] at h
    obtain ⟨p, hp, q, hq, r, hr, h0, rfl⟩ := h
    obtain ⟨hp, rfl⟩ := encChar_of_decChar hp
    obtain ⟨hq, rfl⟩ := encChar_of_decChar hq
    obtain ⟨hr, rfl⟩ := encChar_of_decChar hr
    have h1 : (p * 4 + q / 16) / 4 = p := by omega
    have h2 : (p * 4 + q / 16) % 4 * 16 + (q % 16 * 16 + r / 4) / 16 = q := by omega
    have h3 : (q % 16 * 16 + r / 4) % 16 * 4 = r := by omega
    simp only [encode, toNat_ofNat_of_lt (show p * 4 + q / 16 < 256 by omega),
      toNat_ofNat_of_lt (show q % 16 * 16 + r / 4 < 256 by omega), h1, h2, h3]
  · simpa [encode] using encode_of_decGroup h []

/-- The decoder accepts the encodings and nothing else. -/
theorem decode_eq_some_iff {s : List Char} {b : List UInt8} : decode s = some b ↔ s = encode b := by
  refine ⟨fun h => ?_, fun hiff => ?_⟩
  · fun_induction decode s generalizing b with
    | case1 => simp_all [encode]
    | case2 w x y z => exact (encode_of_decLast h).symm
    | case3 w x y z t ht ih =>
      simp only [Option.bind_eq_bind, Option.bind_eq_some_iff, Option.some.injEq] at h
      obtain ⟨g, hg, rest, hrest, rfl⟩ := h
      rw [encode_of_decGroup hg, ← ih hrest]
    | case4 => cases h
  · obtain rfl := hiff
    exact decode_encode b

end Base64
