import OpenCrate.Data.Pss
import Mathlib.Data.Nat.ChineseRemainder
import Mathlib.FieldTheory.Finite.Basic

/-!
# RSA as a standard describes it

What PKCS #1 (RFC 8017) says of keys, of signatures with appendix and of encryption, over an arbitrary hash.
A key is a product of distinct primes with a private exponent (`PrivateKey`); raising to the public exponent
and to the private one gives a number back (`PrivateKey.decrypt`). The encoding of a signature is written, not
parsed (`emsaEncode`). The encoding of an encrypted message is masked twice (`oaepEncode`); what `oaepDecode`
reads is exactly what was encoded so (`oaepDecode_eq_some_iff`).
-/

namespace Pkcs1

open Pss

/-! ### Keys -/

/-- A private key: the distinct prime factors of the modulus, and an exponent that undoes `e` for each. -/
structure PrivateKey (e : ℕ) where
  primes : List ℕ
  prime : ∀ p ∈ primes, p.Prime
  nodup : primes.Nodup
  d : ℕ
  inverse : ∀ p ∈ primes, e * d ≡ 1 [MOD p - 1]

/-- A power that is one more than a multiple of `p - 1` changes nothing modulo `p`. -/
theorem pow_modEq_self {p m : ℕ} (hp : p.Prime) (hm : m ≡ 1 [MOD p - 1]) (hpos : 0 < m) (x : ℕ) :
    x ^ m ≡ x [MOD p] := by
  obtain ⟨k, hk⟩ := (Nat.modEq_iff_dvd' hpos).mp hm.symm
  have hsplit : m = (p - 1) * k + 1 := by omega
  by_cases hx : p ∣ x
  · exact ((Nat.modEq_zero_iff_dvd.mpr (dvd_pow hx hpos.ne')).trans (Nat.modEq_zero_iff_dvd.mpr hx).symm)
  · have hcoprime : x.Coprime p := ((Nat.Prime.coprime_iff_not_dvd hp).mpr hx).symm
    have hfermat : x ^ (p - 1) ≡ 1 [MOD p] := by
      have htotient := Nat.ModEq.pow_totient hcoprime
      rwa [Nat.totient_prime hp] at htotient
    calc x ^ m = (x ^ (p - 1)) ^ k * x := by rw [hsplit, pow_succ, pow_mul]
      _ ≡ 1 ^ k * x [MOD p] := (hfermat.pow k).mul_right x
      _ = x := by rw [one_pow, one_mul]

namespace PrivateKey

variable {e : ℕ} (key : PrivateKey e)

/-- The modulus. -/
def n : ℕ := key.primes.prod

theorem pairwise_coprime : key.primes.Pairwise Nat.Coprime := by
  refine key.nodup.pairwise_of_forall_ne fun p hp q hq hne ↦ ?_
  exact (Nat.coprime_primes (key.prime p hp) (key.prime q hq)).mpr hne

/-- **The private exponent undoes the public one**, and the other way round. -/
theorem pow_pow (he : 0 < e) (hd : 0 < key.d) (x : ℕ) : x ^ (e * key.d) ≡ x [MOD key.n] := by
  refine (Nat.modEq_list_prod_iff key.pairwise_coprime).mpr fun i ↦ ?_
  have hmem := List.get_mem key.primes i
  exact pow_modEq_self (key.prime _ hmem) (key.inverse _ hmem) (Nat.mul_pos he hd) x

/-- Decrypting undoes encrypting, by the Chinese remainder theorem over the primes of the key. -/
theorem decrypt (he : 0 < e) (hd : 0 < key.d) {x : ℕ} (hx : x < key.n) :
    (x ^ e % key.n) ^ key.d % key.n = x := by
  have hpow : (x ^ e % key.n) ^ key.d ≡ x [MOD key.n] := by
    refine ((Nat.mod_modEq _ _).pow _).trans ?_
    rw [← pow_mul]
    exact key.pow_pow he hd x
  exact Nat.mod_eq_of_modEq hpow hx

/-- And the other way round. -/
theorem encrypt (he : 0 < e) (hd : 0 < key.d) {x : ℕ} (hx : x < key.n) :
    (x ^ key.d % key.n) ^ e % key.n = x := by
  have hpow : (x ^ key.d % key.n) ^ e ≡ x [MOD key.n] := by
    refine ((Nat.mod_modEq _ _).pow _).trans ?_
    rw [← pow_mul, Nat.mul_comm]
    exact key.pow_pow he hd x
  exact Nat.mod_eq_of_modEq hpow hx

end PrivateKey

/-! ### Signatures with appendix -/

/-- The encoded message around a digest with its algorithm: `emLen` octets. -/
def emsaEncode (digestInfo : List UInt8) (emLen : ℕ) : List UInt8 :=
  0x00 :: 0x01 :: (List.replicate (emLen - digestInfo.length - 3) 0xff ++ 0x00 :: digestInfo)

theorem length_emsaEncode {digestInfo : List UInt8} {emLen : ℕ} (h : digestInfo.length + 3 ≤ emLen) :
    (emsaEncode digestInfo emLen).length = emLen := by
  simp only [emsaEncode, List.length_cons, List.length_append, List.length_replicate]
  omega

/-! ### Encryption -/

section Oaep

variable {hLen : ℕ} (hash : List UInt8 → List.Vector UInt8 hLen) (label : List UInt8)

/-- Octet by octet. -/
def xor (a b : List UInt8) : List UInt8 := List.zipWith (· ^^^ ·) a b

/-- The data block: the hash of the label, padding, a separator, and the message. -/
def dataBlock (k : ℕ) (message : List UInt8) : List UInt8 :=
  (hash label).toList ++ (List.replicate (k - message.length - 2 * hLen - 2) 0 ++ 0x01 :: message)

/-- The encoded message: the data block is masked by the seed, and the seed by the masked block. -/
def oaepEncode (k : ℕ) (seed message : List UInt8) : List UInt8 :=
  let maskedDb := xor (dataBlock hash label k message) (mgf1 hash seed (k - hLen - 1))
  0x00 :: (xor seed (mgf1 hash maskedDb hLen) ++ maskedDb)

/-- The message behind the padding and its separator. -/
def unpad : List UInt8 → Option (List UInt8)
  | [] => none
  | b :: rest => if b = 0x00 then unpad rest else if b = 0x01 then some rest else none

/-- Decoding: unmask the seed, and with it the data block. -/
def oaepDecode (em : List UInt8) : Option (List UInt8) :=
  let maskedDb := (em.drop 1).drop hLen
  let seed := xor ((em.drop 1).take hLen) (mgf1 hash maskedDb hLen)
  let db := xor maskedDb (mgf1 hash seed maskedDb.length)
  if em.head? = some 0x00 ∧ db.take hLen = (hash label).toList then unpad (db.drop hLen) else none

variable {hash label} {k : ℕ} {seed message em : List UInt8}

theorem unpad_eq_some_iff {l : List UInt8} :
    unpad l = some message ↔ ∃ count, l = List.replicate count 0 ++ 0x01 :: message := by
  -- by induction on the block: zeros are passed over, up to the first one
  induction l with
  | nil =>
    constructor
    · intro h
      cases h
    · intro h
      obtain ⟨count, h⟩ := h
      exact absurd (congrArg List.length h) (by simp)
  | cons b rest ih =>
    rw [unpad]
    constructor
    · intro h
      split_ifs at h with hzero hone
      · obtain ⟨count, rfl⟩ := ih.mp h
        exact ⟨count + 1, by rw [hzero, List.replicate_succ, List.cons_append]⟩
      · obtain rfl := Option.some_inj.mp h
        exact ⟨0, by rw [hone]; rfl⟩
    · intro h
      obtain ⟨count, h⟩ := h
      cases count with
      | zero =>
        obtain ⟨rfl, rfl⟩ := List.cons.inj h
        rfl
      | succ count =>
        rw [List.replicate_succ, List.cons_append] at h
        obtain ⟨rfl, hrest⟩ := List.cons.inj h
        rw [if_pos rfl]
        exact ih.mpr ⟨count, hrest⟩

theorem length_xor {a b : List UInt8} (h : a.length = b.length) : (xor a b).length = b.length := by
  rw [xor, List.length_zipWith, h, Nat.min_self]

/-- A mask is taken off as it is put on. -/
theorem xor_xor {a b : List UInt8} (h : a.length = b.length) : xor (xor a b) b = a := by
  have hcomm : ∀ x y : List UInt8, xor x y = xor y x := by
    intro x y
    rw [xor, List.zipWith_comm]
    simp only [UInt8.xor_comm, xor]
  rw [hcomm _ b, hcomm a b]
  exact zipWith_xor_cancel h.symm

theorem length_dataBlock (h : message.length + 2 * hLen + 2 ≤ k) :
    (dataBlock hash label k message).length = k - hLen - 1 := by
  simp only [dataBlock, List.length_append, List.Vector.toList_length, List.length_replicate,
    List.length_cons]
  omega

variable (hash label) in
/-- The encoded message with its parts. -/
theorem oaepEncode_parts (hpos : 0 < hLen) (hseed : seed.length = hLen)
    (hroom : message.length + 2 * hLen + 2 ≤ k) :
    ∃ maskedSeed maskedDb, oaepEncode hash label k seed message = 0x00 :: (maskedSeed ++ maskedDb) ∧
      maskedSeed.length = hLen ∧ maskedDb.length = k - hLen - 1 ∧
      xor maskedSeed (mgf1 hash maskedDb hLen) = seed ∧
      xor maskedDb (mgf1 hash seed (k - hLen - 1)) = dataBlock hash label k message := by
  have hdb : (dataBlock hash label k message).length = k - hLen - 1 := length_dataBlock hroom
  have hmask := length_mgf1 hash hpos seed (k - hLen - 1)
  have hseedMask := fun maskedDb ↦ length_mgf1 hash hpos maskedDb hLen
  refine ⟨_, _, rfl, ?_, ?_, ?_, ?_⟩
  · rw [length_xor (hseed.trans (hseedMask _).symm), hseedMask]
  · rw [length_xor (hdb.trans hmask.symm), hmask]
  · exact xor_xor (hseed.trans (hseedMask _).symm)
  · exact xor_xor (hdb.trans hmask.symm)

/-- An encoded message has the length of the modulus. -/
theorem length_oaepEncode (hpos : 0 < hLen) (hseed : seed.length = hLen)
    (hroom : message.length + 2 * hLen + 2 ≤ k) : (oaepEncode hash label k seed message).length = k := by
  obtain ⟨maskedSeed, maskedDb, hem, hs, hd, -⟩ := oaepEncode_parts hash label hpos hseed hroom
  rw [hem, List.length_cons, List.length_append, hs, hd]
  omega

/-- **What is encoded is decoded.** -/
theorem oaepDecode_oaepEncode (hpos : 0 < hLen) (hseed : seed.length = hLen)
    (hroom : message.length + 2 * hLen + 2 ≤ k) :
    oaepDecode hash label (oaepEncode hash label k seed message) = some message := by
  obtain ⟨maskedSeed, maskedDb, hem, hs, hd, hunseed, hundb⟩ :=
    oaepEncode_parts hash label hpos hseed hroom
  have htake : (maskedSeed ++ maskedDb).take hLen = maskedSeed := List.take_left' hs
  have hdrop : (maskedSeed ++ maskedDb).drop hLen = maskedDb := List.drop_left' hs
  simp only [oaepDecode, hem, List.drop_one, List.tail_cons, htake, hdrop, hunseed, hd, hundb,
    List.head?_cons, true_and]
  have hlabel : (dataBlock hash label k message).take hLen = (hash label).toList :=
    List.take_left' (hash label).toList_length
  have hrest : (dataBlock hash label k message).drop hLen = _ :=
    List.drop_left' (hash label).toList_length
  rw [if_pos hlabel, hrest]
  exact unpad_eq_some_iff.mpr ⟨_, rfl⟩

/-- **What is decoded was encoded so**: of an encoded message with room for its parts. -/
theorem oaepDecode_eq_some_iff (hpos : 0 < hLen) (hk : em.length = k) (hroom : 2 * hLen + 2 ≤ k) :
    oaepDecode hash label em = some message ↔
      ∃ seed, seed.length = hLen ∧ message.length + 2 * hLen + 2 ≤ k ∧
        em = oaepEncode hash label k seed message := by
  constructor
  · intro h
    obtain ⟨y, rest, rfl⟩ : ∃ y rest, em = y :: rest := by
      cases em with
      | nil => simp at hk; omega
      | cons y rest => exact ⟨y, rest, rfl⟩
    rw [List.length_cons] at hk
    simp only [oaepDecode, List.drop_one, List.tail_cons, List.head?_cons, Option.some_inj] at h
    split_ifs at h with hvalid
    obtain ⟨rfl, hlabel⟩ := hvalid
    have hmaskedDb : (rest.drop hLen).length = k - hLen - 1 := by
      rw [List.length_drop]
      omega
    have hmaskedSeed : (rest.take hLen).length = hLen := by
      rw [List.length_take]
      omega
    rw [hmaskedDb] at hlabel h
    generalize hseed : xor (rest.take hLen) (mgf1 hash (rest.drop hLen) hLen) = seed at hlabel h
    have hseedMask := length_mgf1 hash hpos (rest.drop hLen) hLen
    have hdbMask := length_mgf1 hash hpos seed (k - hLen - 1)
    have hseedLen : seed.length = hLen := by
      rw [← hseed, length_xor (hmaskedSeed.trans hseedMask.symm), hseedMask]
    obtain ⟨count, hpad⟩ := unpad_eq_some_iff.mp h
    have hdb := congrArg List.length (List.take_append_drop hLen
      (xor (rest.drop hLen) (mgf1 hash seed (k - hLen - 1))))
    rw [hlabel, hpad, length_xor (hmaskedDb.trans hdbMask.symm), hdbMask] at hdb
    simp only [List.length_append, List.Vector.toList_length, List.length_replicate, List.length_cons] at hdb
    refine ⟨seed, hseedLen, by omega, ?_⟩
    -- the block that was unmasked is the one that the writer makes
    have hblock : dataBlock hash label k message =
        xor (rest.drop hLen) (mgf1 hash seed (k - hLen - 1)) := by
      rw [← List.take_append_drop hLen (xor (rest.drop hLen) _), hlabel, hpad, dataBlock]
      congr 3
      omega
    have hmasked : xor (dataBlock hash label k message) (mgf1 hash seed (k - hLen - 1)) = rest.drop hLen := by
      rw [hblock]
      exact xor_xor (hmaskedDb.trans hdbMask.symm)
    simp only [oaepEncode, hmasked]
    rw [← hseed, xor_xor (hmaskedSeed.trans hseedMask.symm), List.take_append_drop]
  · intro h
    obtain ⟨seed, hseed, hmessage, rfl⟩ := h
    exact oaepDecode_oaepEncode hpos hseed hmessage

end Oaep

end Pkcs1
