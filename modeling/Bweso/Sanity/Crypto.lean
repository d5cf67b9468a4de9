import Mathlib.Logic.Equiv.Basic
import Bweso.Sanity.Basic
import Bweso.Spec.Cipher

/-! Primitives given by known answers: test vectors of the hash, the keyed hash,
the key derivation and the block cipher, extended to total functions that keep
the one law the model asks for. -/

namespace Bweso

/-- A constant array. -/
def ByteArr.zero (n : ℕ) : ByteArr n := List.Vector.replicate n 0

/-- Known answers of each primitive, and the lower-casing of the texts at hand. -/
structure KnownAnswers where
  sha256 : List (Bytes × ByteArr 32)
  hmacSha256 : List ((Bytes × Bytes) × ByteArr 32)
  pbkdf2HmacSha256 : List ((Bytes × Bytes × ℕ) × ByteArr 32)
  /-- plaintext and ciphertext blocks under one key -/
  aes256 : List (ByteArr 32 × ByteArr 16 × ByteArr 16)

namespace KnownAnswers

def answer {α : Type} [DecidableEq α] {n : ℕ} (table : List (α × ByteArr n)) (a : α) : ByteArr n :=
  (table.lookup a).getD (.zero n)

/-- The permutation of the blocks that exchanges each known pair. -/
def permutation (table : List (ByteArr 32 × ByteArr 16 × ByteArr 16)) (key : ByteArr 32) :
    Equiv.Perm (ByteArr 16) :=
  table.foldr (fun t σ => if t.1 = key then (Equiv.swap t.2.1 t.2.2).trans σ else σ) (Equiv.refl _)

def primitives (k : KnownAnswers) : Primitives where
  sha256 := answer k.sha256
  hmacSha256 key data := answer k.hmacSha256 (key, data)
  pbkdf2HmacSha256 password salt iterations := answer k.pbkdf2HmacSha256 (password, salt, iterations)
  argon2id _ _ _ := none
  aes256 :=
    { enc := fun key => permutation k.aes256 key
      dec := fun key => (permutation k.aes256 key).symm
      dec_enc := fun _ _ => Equiv.symm_apply_apply _ _ }
  toLowercase s := s.map Char.toLower

end KnownAnswers

/-! ### Test vectors -/

/-- The first `n` bytes of a Base64 text. -/
def ByteArr.ofBase64 (n : ℕ) (s : String) : ByteArr n :=
  Cbc.firstBlock n ((Base64.decode s.toList).getD [])

/-- The master key of `correct horse` and `user@example.test` under 5000
iterations of PBKDF2, and what it wraps. -/
def vectorMasterKey : ByteArr 32 := .ofBase64 32 "EAxjH7ouiLpHKkeV06olAM6JLy5oBYOqEq/okAAui3E="

/-- The user key of the vectors: the bytes from 0 to 63. -/
def vectorUserKey : ByteArr 64 := List.Vector.ofFn fun i => UInt8.ofNat i

def vectorWrappedKey : Str :=
  ["2.EBESExQVFhcYGRobHB0eHw==|", "veTiXi3kHyLUBrLkr9rU1k11TLeeD7tZ", "q+Wi4y7NWdEnB2VXfsXA8wBK9wK4rF8w",
    "9JxlZ3S7FfavabHmgTo2d0J7VC+sHmCy", "gtX5LnkwTjY=|", "esFkjfz2I+cFN7gBeGmpMnvtS4U8LA3k",
    "9xZ5nZm30YE="].flatMap String.toList

/-- The text `s3cret` under the user key. -/
def vectorSecret : Str :=
  ["2.QEFCQ0RFRkdISUpLTE1OTw==|", "9vins2B98DKrcirQ+IR/KA==|", "VrW/65MoPlR1Kmrxwxisn9A+TDqMwQQ+",
    "4iCYNA3fBc0="].flatMap String.toList

/-- A secure note with that text. -/
def vectorCipher : EncryptedCipher :=
  { id := "item-a".toList, cipherType := 2, organizationId := none, deletedDate := none, key := none, name := none
    notes := some vectorSecret, fields := [], login := none, sshKey := none }

def vectorItem : DecryptedCipher :=
  { id := "item-a".toList, cipherType := 2, organizationId := none, name := none
    notes := some "s3cret".toList, fields := [], login := none, sshKey := none }

/-- The answers of the primitives on all of this, and SHA-256 of two tokens. -/
def vectors : KnownAnswers where
  sha256 := [
    (asBytes (List.replicate 32 'a'), .ofBase64 32 "O6P19DuSYCaDwZruYqIDQrCE3Vlx3dM4CNgaMoh5pUc="),
    (asBytes (List.replicate 32 'b'), .ofBase64 32 "vbM5dovF5P7L5VpEIFaRmysyWQfUm8vzv43hN4GZaoM=")]
  hmacSha256 := [
    ((vectorMasterKey.toList, asBytes "enc".toList ++ [1]),
      .ofBase64 32 "parVMKDa4bfmbvoBGmsUyuzAjf54oob/+VUXoC+pMT4="),
    ((vectorMasterKey.toList, asBytes "mac".toList ++ [1]),
      .ofBase64 32 "m41bLokMxALJ/qyRs5WQ39Yd4vCOCMs7PAOuoB9Eq9E="),
    (((ByteArr.ofBase64 32 "m41bLokMxALJ/qyRs5WQ39Yd4vCOCMs7PAOuoB9Eq9E=").toList,
      (ByteArr.ofBase64 24 "EBESExQVFhcYGRobHB0eH73k4l4t5B8i").toList ++
        (ByteArr.ofBase64 24 "1Aay5K/a1NZNdUy3ng+7WavlouMuzVnR").toList ++
        (ByteArr.ofBase64 24 "JwdlV37FwPMASvcCuKxfMPScZWd0uxX2").toList ++
        (ByteArr.ofBase64 24 "r2mx5oE6NndCe1QvrB5gsoLV+S55ME42").toList),
      .ofBase64 32 "esFkjfz2I+cFN7gBeGmpMnvtS4U8LA3k9xZ5nZm30YE="),
    (((ByteArr.ofBase64 32 "ICEiIyQlJicoKSorLC0uLzAxMjM0NTY3ODk6Ozw9Pj8=").toList,
      (ByteArr.ofBase64 32 "QEFCQ0RFRkdISUpLTE1OT/b4p7NgffAyq3Iq0PiEfyg=").toList),
      .ofBase64 32 "VrW/65MoPlR1Kmrxwxisn9A+TDqMwQQ+4iCYNA3fBc0=")]
  pbkdf2HmacSha256 := [
    ((asBytes "correct horse".toList, asBytes "user@example.test".toList, 5000), vectorMasterKey)]
  aes256 := [
    (.ofBase64 32 "parVMKDa4bfmbvoBGmsUyuzAjf54oob/+VUXoC+pMT4=", .ofBase64 16 "EBAQEBAQEBAQEBAQEBAQEA==",
      .ofBase64 16 "veTiXi3kHyLUBrLkr9rU1g=="),
    (.ofBase64 32 "parVMKDa4bfmbvoBGmsUyuzAjf54oob/+VUXoC+pMT4=", .ofBase64 16 "rfXwTTnxCTXMH6j/s8fKyQ==",
      .ofBase64 16 "TXVMt54Pu1mr5aLjLs1Z0Q=="),
    (.ofBase64 32 "parVMKDa4bfmbvoBGmsUyuzAjf54oob/+VUXoC+pMT4=", .ofBase64 16 "bVRulLoqnX6DzIjIAuB3/g==",
      .ofBase64 16 "JwdlV37FwPMASvcCuKxfMA=="),
    (.ofBase64 32 "parVMKDa4bfmbvoBGmsUyuzAjf54oob/+VUXoC+pMT4=", .ofBase64 16 "FzZXZErw9sQ4c805hJFhDw==",
      .ofBase64 16 "9JxlZ3S7FfavabHmgTo2dw=="),
    (.ofBase64 32 "parVMKDa4bfmbvoBGmsUyuzAjf54oob/+VUXoC+pMT4=", .ofBase64 16 "5Ix1d2SrBea/eaH2kSomZw==",
      .ofBase64 16 "QntUL6weYLKC1fkueTBONg=="),
    (.ofBase64 32 "AAECAwQFBgcICQoLDA0ODxAREhMUFRYXGBkaGxwdHh8=", .ofBase64 16 "M3IhMSExTE1CQ0BBRkdERQ==",
      .ofBase64 16 "9vins2B98DKrcirQ+IR/KA==")]

end Bweso
