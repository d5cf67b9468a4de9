import Mathlib.Data.Vector.Basic
import Mathlib.Data.List.TakeDrop
import Mathlib.Tactic

/-! Cipher block chaining over an arbitrary block cipher, and PKCS#7 padding.
Only the inverse law of the block cipher is assumed; everything about the mode
and the padding is computed here. -/

namespace Cbc

/-- A block of `n` bytes. -/
abbrev Block (n : ℕ) := List.Vector UInt8 n

/-- A block cipher: for every key, decryption inverts encryption. -/
structure BlockCipher (K : Type) (n : ℕ) where
  enc : K → Block n → Block n
  dec : K → Block n → Block n
  dec_enc : ∀ k b, dec k (enc k b) = b

variable {K : Type} {n : ℕ}

def xor (a b : Block n) : Block n := List.Vector.map₂ (· ^^^ ·) a b

theorem xor_xor_cancel (a b : Block n) : xor (xor a b) b = a := by
  apply List.Vector.ext
  intro i
  rw [xor, xor, List.Vector.get_map₂, List.Vector.get_map₂, UInt8.xor_assoc, UInt8.xor_self, UInt8.xor_zero]

def encrypt (c : BlockCipher K n) (k : K) : Block n → List (Block n) → List (Block n)
  | _, [] => []
  | iv, p :: ps =>
    let y := c.enc k (xor p iv)
    y :: encrypt c k y ps

def decrypt (c : BlockCipher K n) (k : K) : Block n → List (Block n) → List (Block n)
  | _, [] => []
  | iv, y :: ys => xor (c.dec k y) iv :: decrypt c k y ys

theorem decrypt_encrypt (c : BlockCipher K n) (k : K) (iv : Block n) (ps : List (Block n)) :
    decrypt c k iv (encrypt c k iv ps) = ps := by
  induction ps generalizing iv with
  | nil => rfl
  | cons p ps ih => simp only [encrypt, decrypt, c.dec_enc, xor_xor_cancel, ih]

theorem encrypt_length (c : BlockCipher K n) (k : K) (iv : Block n) (ps : List (Block n)) :
    (encrypt c k iv ps).length = ps.length := by
  induction ps generalizing iv with
  | nil => rfl
  | cons p ps ih => simp only [encrypt, List.length_cons, ih]

/-! ### Bytes and blocks -/

/-- The block at the front of a byte string. -/
def firstBlock (n : ℕ) (l : List UInt8) : Block n := ⟨l.takeD n 0, List.takeD_length ..⟩

theorem firstBlock_toList (l : List UInt8) (h : n ≤ l.length) :
    (firstBlock n l).toList = l.take n :=
  List.takeD_eq_take _ h

/-- The first `count` blocks of a byte string. -/
def takeBlocks (n : ℕ) : ℕ → List UInt8 → List (Block n)
  | 0, _ => []
  | count + 1, l => firstBlock n l :: takeBlocks n count (l.drop n)

def toBlocks (n : ℕ) (l : List UInt8) : List (Block n) := takeBlocks n (l.length / n) l

def ofBlocks (bs : List (Block n)) : List UInt8 := bs.flatMap List.Vector.toList

theorem ofBlocks_length (bs : List (Block n)) : (ofBlocks bs).length = bs.length * n := by
  induction bs with
  | nil => simp [ofBlocks]
  | cons b bs ih =>
    simp only [ofBlocks, List.flatMap_cons, List.length_append, List.Vector.toList_length,
      List.length_cons, Nat.succ_mul] at ih ⊢
    omega

theorem takeBlocks_ofBlocks (bs : List (Block n)) : takeBlocks n bs.length (ofBlocks bs) = bs := by
  induction bs with
  | nil => rfl
  | cons b bs ih =>
    have hb : b.toList.length = n := b.toList_length
    have hfirst : firstBlock n (ofBlocks (b :: bs)) = b := by
      apply List.Vector.eq
      rw [firstBlock_toList _ (by rw [ofBlocks_length, List.length_cons, Nat.succ_mul]; omega),
        ofBlocks, List.flatMap_cons, List.take_left' hb]
    rw [List.length_cons, takeBlocks, hfirst]
    congr 1
    rw [ofBlocks, List.flatMap_cons, List.drop_left' hb]
    exact ih

theorem toBlocks_ofBlocks (hn : 0 < n) (bs : List (Block n)) : toBlocks n (ofBlocks bs) = bs := by
  unfold toBlocks
  rw [ofBlocks_length, Nat.mul_div_cancel _ hn, takeBlocks_ofBlocks]

theorem ofBlocks_takeBlocks (count : ℕ) (l : List UInt8) (h : l.length = count * n) :
    ofBlocks (takeBlocks n count l) = l := by
  induction count generalizing l with
  | zero =>
    rw [Nat.zero_mul] at h
    rw [List.eq_nil_of_length_eq_zero h]
    rfl
  | succ count ih =>
    rw [Nat.succ_mul] at h
    have hd := ih (l.drop n) (by simp [h])
    unfold ofBlocks at hd ⊢
    rw [takeBlocks, List.flatMap_cons, hd, firstBlock_toList l (by omega), List.take_append_drop]

theorem ofBlocks_toBlocks (l : List UInt8) (h : n ∣ l.length) : ofBlocks (toBlocks n l) = l :=
  ofBlocks_takeBlocks _ l (Nat.div_mul_cancel h).symm

/-! ### PKCS#7 -/

/-- Between one and `n` bytes, each holding their own number. -/
def pad (n : ℕ) (l : List UInt8) : List UInt8 :=
  l ++ List.replicate (n - l.length % n) (UInt8.ofNat (n - l.length % n))

def unpad (n : ℕ) (l : List UInt8) : Option (List UInt8) := do
  let v ← l.getLast?
  if v = 0 ∨ n < v.toNat ∨ l.length < v.toNat then none
  else if (l.drop (l.length - v.toNat)).all (· == v) then some (l.take (l.length - v.toNat))
  else none

theorem pad_dvd (hn : 0 < n) (l : List UInt8) : n ∣ (pad n l).length := by
  have hlt := Nat.mod_lt l.length hn
  have hdm := Nat.div_add_mod l.length n
  refine ⟨l.length / n + 1, ?_⟩
  simp only [pad, List.length_append, List.length_replicate, Nat.mul_succ]
  omega

theorem pad_ne_nil (hn : 0 < n) (l : List UInt8) : pad n l ≠ [] := by
  have hlt := Nat.mod_lt l.length hn
  intro h
  have := congrArg List.length h
  simp only [pad, List.length_append, List.length_replicate, List.length_nil] at this
  omega

theorem unpad_pad (hn : 0 < n) (h256 : n < 256) (l : List UInt8) : unpad n (pad n l) = some l := by
  have hlt := Nat.mod_lt l.length hn
  obtain ⟨m, hm⟩ : ∃ m, n - l.length % n = m + 1 := ⟨n - l.length % n - 1, by omega⟩
  have hv : (UInt8.ofNat (m + 1)).toNat = m + 1 := UInt8.toNat_ofNat_of_lt' (by change m + 1 < 256; omega)
  have hne : UInt8.ofNat (m + 1) ≠ 0 := fun h => by
    have := congrArg UInt8.toNat h
    rw [hv] at this
    simp at this
  have hlast : (pad n l).getLast? = some (UInt8.ofNat (m + 1)) := by
    simp [pad, hm, List.getLast?_replicate]
  have hlen : (pad n l).length - (m + 1) = l.length := by simp [pad, hm]
  unfold unpad
  rw [hlast]
  simp only [Option.bind_eq_bind, Option.bind_some, hv, hlen]
  rw [if_neg (by
    rintro (h | h | h)
    · exact hne h
    · omega
    · simp [pad, hm] at h; omega)]
  simp [pad, hm]

/-- The mode with its padding, as an encoder and a decoder of byte strings. -/
def encryptPadded (c : BlockCipher K n) (k : K) (iv : Block n) (plain : List UInt8) : List UInt8 :=
  ofBlocks (encrypt c k iv (toBlocks n (pad n plain)))

def decryptPadded (c : BlockCipher K n) (k : K) (iv : Block n) (data : List UInt8) :
    Option (List UInt8) :=
  if n ∣ data.length then unpad n (ofBlocks (decrypt c k iv (toBlocks n data))) else none

theorem encryptPadded_dvd (c : BlockCipher K n) (k : K) (iv : Block n) (plain : List UInt8) :
    n ∣ (encryptPadded c k iv plain).length := by
  rw [encryptPadded, ofBlocks_length]
  exact Nat.dvd_mul_left _ _

theorem encryptPadded_ne_nil (hn : 0 < n) (c : BlockCipher K n) (k : K) (iv : Block n)
    (plain : List UInt8) : encryptPadded c k iv plain ≠ [] := by
  intro h
  have hlen := congrArg List.length h
  rw [encryptPadded, ofBlocks_length, encrypt_length, List.length_nil, Nat.mul_eq_zero] at hlen
  have hz : toBlocks n (pad n plain) = [] := List.eq_nil_of_length_eq_zero (hlen.resolve_right hn.ne')
  have hp := ofBlocks_toBlocks (pad n plain) (pad_dvd hn plain)
  rw [hz] at hp
  exact pad_ne_nil hn plain hp.symm

theorem decryptPadded_encryptPadded (hn : 0 < n) (h256 : n < 256) (c : BlockCipher K n) (k : K)
    (iv : Block n) (plain : List UInt8) :
    decryptPadded c k iv (encryptPadded c k iv plain) = some plain := by
  unfold decryptPadded
  rw [if_pos (encryptPadded_dvd c k iv plain), encryptPadded, toBlocks_ofBlocks hn, decrypt_encrypt,
    ofBlocks_toBlocks _ (pad_dvd hn plain), unpad_pad hn h256]

end Cbc
