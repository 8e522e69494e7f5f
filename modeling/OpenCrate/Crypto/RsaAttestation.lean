import OpenCrate.Crypto.RsaPss
import OpenCrate.Data.Pkcs1

/-!
# RSA for attestation

The second half of `rsa` of `oc-crypto`: a signature of an attestation certificate is verified, and the seed of
a credential is encrypted to an endorsement key, with public keys of 2048, 3072 or 4096 bits. Both operations
are set against the standard, for every private key that a vendor can have: verification accepts one byte
string for a message, the signature that the key makes (`pkcs1v15_exact`), and what is encrypted is decrypted by
the key under this label and no other one (`oaep_exact`).
-/

namespace OpenCrate.Crypto.Rsa

open Except (refuseIf okOr)

/-! ### The source -/

/-- Modulus lengths accepted by attestation verification. -/
def attestationModulusLens : List ℕ := [256, 384, 512]

/-- The prefix before a SHA-256 hash in an encoded message. -/
def sha256DigestInfo : List UInt8 :=
  [0x30, 0x31, 0x30, 0x0d, 0x06, 0x09, 0x60, 0x86, 0x48, 0x01, 0x65, 0x03, 0x04, 0x02, 0x01, 0x05,
   0x00, 0x04, 0x20]

/-- A checked difference of two lengths. -/
def checkedSub (a b : ℕ) : Option ℕ := if b ≤ a then some (a - b) else none

/-- The power of an input for a modulus of `k` bytes that uses its first bit. -/
def powerOp (k : ℕ) (modulus input : List UInt8) : Except CryptoError (List UInt8) := do
  refuseIf (modulus.head?.all (fun first ↦ first &&& 0x80 = 0) = true) .badLength
  let n := fromBeSlice modulus
  let x := fromBeSlice input
  refuseIf (n ≤ x) .badSignature
  refuseIf (n % 2 = 0) .badLength
  .ok (leBytes k (x ^ exponent % n)).reverse

/-- `x ^ 65537 mod n` for an allowed modulus length. -/
def publicOp (modulus input : List UInt8) : Except CryptoError (List UInt8) := do
  let k := modulus.length
  refuseIf (k ∉ attestationModulusLens ∨ input.length ≠ k) .badLength
  powerOp k modulus input

/-- The same with arithmetic of a fixed width, given in bytes. -/
def oaepPublicOp (width : ℕ) (modulus input : List UInt8) : Except CryptoError (List UInt8) := do
  refuseIf (modulus.length ≠ width ∨ input.length ≠ width) .badLength
  powerOp width modulus input

variable (sha : Sha2)

/-- The only correct encoding, written into a buffer of `0xff`. -/
def expectedEncoding (k padEnd : ℕ) (message : List UInt8) : List UInt8 :=
  let head := (List.replicate k 0xff).take padEnd
  let head := head.set 0 0x00
  let head := head.set 1 0x01
  let head := head.set (head.length - 1) 0x00
  head ++ (sha256DigestInfo ++ (sha.sha256 message).toList)

/-- Verify RSASSA-PKCS1-v1_5 with SHA-256: the encoding is constructed, not parsed. -/
def verifyPkcs1v15Sha256 (modulus message signature : List UInt8) : Except CryptoError Unit := do
  let k := modulus.length
  refuseIf (signature.length ≠ k) .badLength
  let recovered ← publicOp modulus signature
  let padEnd ← okOr (checkedSub k (sha256DigestInfo.length + hLen)) .badLength
  let expected := expectedEncoding sha k padEnd message
  refuseIf (padEnd < 11) .badLength
  refuseIf (recovered ≠ expected) .badSignature

/-- Encrypt with RSAES-OAEP under a label, for the seed that the caller has drawn. -/
def encryptOaepSha256 (modulus label message : List UInt8) (seed : Digest) :
    Except CryptoError (List UInt8) := do
  let k := modulus.length
  refuseIf (k ∉ attestationModulusLens) .badLength
  let room ← okOr (checkedSub k (hLen * 2 + 2)) .badLength
  refuseIf (room < message.length) .badLength
  let dbLen := k - hLen - 1
  let markerAt ← okOr (checkedSub (dbLen - hLen) (message.length + 1)) .badLength
  let db := (sha.sha256 label).toList ++ (List.replicate markerAt 0 ++ 0x01 :: message)
  let db := List.zipWith (· ^^^ ·) db (mgf1 sha seed.toList dbLen)
  let maskedSeed := List.zipWith (· ^^^ ·) seed.toList (mgf1 sha db hLen)
  let em := 0x00 :: (maskedSeed ++ db)
  match k with
  | 256 => oaepPublicOp 256 modulus em
  | 384 => oaepPublicOp 384 modulus em
  | 512 => oaepPublicOp 512 modulus em
  | _ => .error .badLength

/-! ### Keys -/

/-- A private key of an allowed length, with the bytes of its public modulus. -/
structure AttestationKey extends Pkcs1.PrivateKey exponent where
  modulus : List UInt8
  length_mem : modulus.length ∈ attestationModulusLens
  modulus_eq : Pss.os2ip modulus = toPrivateKey.n
  full : ∀ first ∈ modulus.head?, first &&& 0x80 ≠ 0
  odd : Pss.os2ip modulus % 2 = 1
  d_pos : 0 < d

namespace AttestationKey

variable (key : AttestationKey)

/-- What the holder of the key computes of a block. -/
def privateOp (block : List UInt8) : List UInt8 :=
  Pss.i2osp (Pss.os2ip block ^ key.d % Pss.os2ip key.modulus) key.modulus.length

/-- The signature of a message, as the standard makes it. -/
def sign (message : List UInt8) : List UInt8 :=
  key.privateOp (Pkcs1.emsaEncode (sha256DigestInfo ++ (sha.sha256 message).toList) key.modulus.length)

/-- Decryption, as the standard does it. -/
def decryptOaep (label ciphertext : List UInt8) : Option (List UInt8) :=
  Pkcs1.oaepDecode sha.sha256 label (key.privateOp ciphertext)

end AttestationKey

/-! ### Full moduli -/

theorem os2ip_cons (b : UInt8) (l : List UInt8) :
    Pss.os2ip (b :: l) = b.toNat * 256 ^ l.length + Pss.os2ip l := by
  have happend : ∀ a c : List UInt8, leNat (a ++ c) = leNat a + 256 ^ a.length * leNat c := by
    intro a c
    induction a with
    | nil => simp [leNat]
    | cons x a ih =>
      rw [List.cons_append, leNat, leNat, ih, List.length_cons, pow_succ]
      ring
  rw [Pss.os2ip, Pss.os2ip, List.reverse_cons, happend, List.length_reverse]
  simp only [leNat]
  ring

/-- A number that begins with a zero byte is below one of the same length that uses its first bit. -/
theorem os2ip_lt_of_full {modulus rest : List UInt8} (hlen : modulus.length = rest.length + 1)
    (hfull : ∀ first ∈ modulus.head?, first &&& 0x80 ≠ 0) :
    Pss.os2ip (0x00 :: rest) < Pss.os2ip modulus := by
  obtain ⟨first, tail, rfl⟩ : ∃ first tail, modulus = first :: tail := by
    cases modulus with
    | nil => cases hlen
    | cons first tail => exact ⟨first, tail, rfl⟩
  have htail : tail.length = rest.length := Nat.succ.inj hlen
  have hbit : 1 ≤ first.toNat := by
    by_contra hzero
    refine hfull first rfl ?_
    rw [UInt8.toNat_inj.mp (show first.toNat = (0 : UInt8).toNat by simpa using hzero)]
    rfl
  have hrest := Pss.os2ip_lt rest
  rw [os2ip_cons, os2ip_cons, htail]
  calc (0x00 : UInt8).toNat * 256 ^ rest.length + Pss.os2ip rest = Pss.os2ip rest := by simp
    _ < 256 ^ rest.length := hrest
    _ ≤ first.toNat * 256 ^ rest.length := Nat.le_mul_of_pos_left _ hbit
    _ ≤ first.toNat * 256 ^ rest.length + Pss.os2ip tail := Nat.le_add_right _ _

/-- What a power of a byte string needs. -/
theorem powerOp_eq_ok_iff {k : ℕ} {modulus input out : List UInt8} (hlen : modulus ≠ []) :
    powerOp k modulus input = .ok out ↔
      (∀ first ∈ modulus.head?, first &&& 0x80 ≠ 0) ∧ Pss.os2ip input < Pss.os2ip modulus ∧
        Pss.os2ip modulus % 2 = 1 ∧ out = Pss.i2osp (Pss.os2ip input ^ exponent % Pss.os2ip modulus) k := by
  obtain ⟨first, tail, rfl⟩ := List.exists_cons_of_ne_nil hlen
  simp only [powerOp, Except.bind_eq_ok_iff, Except.refuseIf_eq_ok_iff, List.head?_cons, Option.all_some,
    decide_eq_true_eq, not_le, Nat.mod_two_ne_zero, Except.ok.injEq, exists_const, Option.mem_def,
    Option.some_inj, forall_eq']
  exact and_congr_right fun _ ↦ and_congr_right fun _ ↦ and_congr_right fun _ ↦ eq_comm

/-! ### Signatures -/

variable {sha} {modulus message signature : List UInt8}

theorem checkedSub_of_le {a b : ℕ} (h : b ≤ a) : checkedSub a b = some (a - b) := if_pos h

/-- The block that the verifier rebuilds is the encoding of PKCS #1. -/
theorem expectedEncoding_eq {k : ℕ} (h : 54 ≤ k) :
    expectedEncoding sha k (k - 51) message =
      Pkcs1.emsaEncode (sha256DigestInfo ++ (sha.sha256 message).toList) k := by
  obtain ⟨m, rfl⟩ : ∃ m, k = m + 54 := ⟨k - 54, by omega⟩
  have hlen : (sha256DigestInfo ++ (sha.sha256 message).toList).length = 51 := by
    rw [List.length_append, List.Vector.toList_length]
    rfl
  have hhead : (List.replicate (m + 54) (0xff : UInt8)).take (m + 54 - 51) =
      0xff :: 0xff :: (List.replicate m 0xff ++ [0xff]) := by
    rw [List.take_replicate, Nat.min_eq_left (Nat.sub_le _ _), ← List.replicate_succ']
    rfl
  rw [expectedEncoding, hhead, Pkcs1.emsaEncode, hlen]
  simp only [List.set_cons_zero, List.set_cons_succ, List.length_cons, List.length_append,
    List.length_replicate, List.length_nil, Nat.add_sub_cancel]
  rw [show m + 54 - 51 - 3 = m by omega]
  simp only [List.set_append_right _ _ (List.length_replicate).le, List.length_replicate,
    Nat.sub_self, List.set_cons_zero, List.cons_append, List.append_assoc, List.nil_append]

/-- **What verification accepts.** -/
theorem verifyPkcs1v15Sha256_eq_ok_iff :
    verifyPkcs1v15Sha256 sha modulus message signature = .ok () ↔
      modulus.length ∈ attestationModulusLens ∧ signature.length = modulus.length ∧
        (∀ first ∈ modulus.head?, first &&& 0x80 ≠ 0) ∧ Pss.os2ip modulus % 2 = 1 ∧
        Pss.os2ip signature < Pss.os2ip modulus ∧
        Pss.i2osp (Pss.os2ip signature ^ exponent % Pss.os2ip modulus) modulus.length =
          Pkcs1.emsaEncode (sha256DigestInfo ++ (sha.sha256 message).toList) modulus.length := by
  have hpos : modulus.length ∈ attestationModulusLens → modulus ≠ [] ∧ 62 ≤ modulus.length := by
    intro hmem
    have hlong : 62 ≤ modulus.length := by
      simp only [attestationModulusLens, List.mem_cons, List.not_mem_nil, or_false] at hmem
      omega
    exact ⟨List.ne_nil_of_length_pos (by omega), hlong⟩
  have htLen : sha256DigestInfo.length + hLen = 51 := rfl
  simp only [verifyPkcs1v15Sha256, publicOp, Except.bind_eq_ok_iff, Except.refuseIf_eq_ok_iff,
    Except.okOr_eq_ok_iff, not_or, not_not, exists_const, not_lt, htLen]
  constructor
  · intro h
    obtain ⟨hsig, recovered, ⟨⟨hmem, -⟩, hpower⟩, padEnd, hpad, -, hequal⟩ := h
    obtain ⟨hne, hlong⟩ := hpos hmem
    obtain ⟨hfull, hlt, hodd, rfl⟩ := (powerOp_eq_ok_iff hne).mp hpower
    rw [checkedSub_of_le (by omega), Option.some_inj] at hpad
    rw [← hpad, expectedEncoding_eq (by omega)] at hequal
    exact ⟨hmem, hsig, hfull, hodd, hlt, hequal⟩
  · intro h
    obtain ⟨hmem, hsig, hfull, hodd, hlt, hequal⟩ := h
    obtain ⟨hne, hlong⟩ := hpos hmem
    refine ⟨hsig, _, ⟨⟨hmem, hsig⟩, (powerOp_eq_ok_iff hne).mpr ⟨hfull, hlt, hodd, rfl⟩⟩, modulus.length - 51,
      checkedSub_of_le (by omega), by omega, ?_⟩
    rw [expectedEncoding_eq (by omega)]
    exact hequal

/-- The digest is the end of the encoded message. -/
theorem emsaEncode_inj {k : ℕ} {message' : List UInt8}
    (h : Pkcs1.emsaEncode (sha256DigestInfo ++ (sha.sha256 message).toList) k =
      Pkcs1.emsaEncode (sha256DigestInfo ++ (sha.sha256 message').toList) k) :
    sha.sha256 message = sha.sha256 message' := by
  simp only [Pkcs1.emsaEncode, List.length_append, List.Vector.toList_length, List.cons.injEq, true_and,
    List.append_cancel_left_eq] at h
  exact List.Vector.toList_injective h

namespace AttestationKey

variable (key : AttestationKey)

theorem n_eq : key.n = Pss.os2ip key.modulus := key.modulus_eq.symm

theorem modulus_lt : Pss.os2ip key.modulus < 256 ^ key.modulus.length := Pss.os2ip_lt _

/-- The modulus has between 256 and 512 bytes. -/
theorem length_bounds : 256 ≤ key.modulus.length ∧ key.modulus.length ≤ 512 := by
  have hmem := key.length_mem
  simp only [attestationModulusLens, List.mem_cons, List.not_mem_nil, or_false] at hmem
  omega

/-- A block that begins with a zero byte is a number below the modulus. -/
theorem lt_modulus {block : List UInt8} (hlen : block.length = key.modulus.length)
    (hhead : block.head? = some 0x00) : Pss.os2ip block < Pss.os2ip key.modulus := by
  obtain ⟨rest, rfl⟩ : ∃ rest, block = 0x00 :: rest := by
    cases block with
    | nil => cases hhead
    | cons b rest => exact ⟨rest, by rw [Option.some_inj.mp hhead]⟩
  exact os2ip_lt_of_full hlen.symm key.full

/-- The public power of a number, as bytes. -/
def publicPower (x : ℕ) : List UInt8 :=
  Pss.i2osp (x ^ exponent % Pss.os2ip key.modulus) key.modulus.length

theorem os2ip_i2osp_mod (x : ℕ) :
    Pss.os2ip (Pss.i2osp (x % Pss.os2ip key.modulus) key.modulus.length) = x % Pss.os2ip key.modulus := by
  have hpos : 0 < Pss.os2ip key.modulus := by
    have hodd := key.odd
    omega
  exact Pss.os2ip_i2osp ((Nat.mod_lt _ hpos).trans key.modulus_lt)

/-- The private operation undoes the public one on blocks below the modulus. -/
theorem privateOp_publicPower {block : List UInt8} (hlen : block.length = key.modulus.length)
    (hlt : Pss.os2ip block < Pss.os2ip key.modulus) :
    key.privateOp (key.publicPower (Pss.os2ip block)) = block := by
  have hback := key.decrypt (by decide) key.d_pos (x := Pss.os2ip block) (by rwa [key.n_eq])
  rw [key.n_eq] at hback
  rw [privateOp, publicPower, key.os2ip_i2osp_mod, hback, ← hlen, Pss.i2osp_os2ip]

/-- The public operation undoes the private one. -/
theorem publicPower_privateOp {block : List UInt8} (hlen : block.length = key.modulus.length)
    (hlt : Pss.os2ip block < Pss.os2ip key.modulus) :
    key.publicPower (Pss.os2ip (key.privateOp block)) = block := by
  have hback := key.encrypt (by decide) key.d_pos (x := Pss.os2ip block) (by rwa [key.n_eq])
  rw [key.n_eq] at hback
  rw [privateOp, publicPower, key.os2ip_i2osp_mod, hback, ← hlen, Pss.i2osp_os2ip]

theorem length_emsa (sha : Sha2) (message : List UInt8) :
    (Pkcs1.emsaEncode (sha256DigestInfo ++ (sha.sha256 message).toList) key.modulus.length).length =
      key.modulus.length := by
  have hlong := key.length_bounds.1
  refine Pkcs1.length_emsaEncode ?_
  rw [List.length_append, List.Vector.toList_length]
  show 19 + 32 + 3 ≤ _
  omega

end AttestationKey

/-- **Verification accepts one byte string for a message**: the signature that the key makes. Two messages with
one accepted signature have one hash, under any modulus. -/
theorem pkcs1v15_exact (sha : Sha2) :
    (∀ (key : AttestationKey) message signature,
      verifyPkcs1v15Sha256 sha key.modulus message signature = .ok () ↔ signature = key.sign sha message) ∧
      ∀ modulus message message' signature, verifyPkcs1v15Sha256 sha modulus message signature = .ok () →
        verifyPkcs1v15Sha256 sha modulus message' signature = .ok () →
          sha.sha256 message = sha.sha256 message' := by
  refine ⟨fun key message signature ↦ ?_, fun modulus message message' signature h h' ↦ ?_⟩
  · have hlen := key.length_emsa sha message
    have hlt := key.lt_modulus hlen rfl
    rw [verifyPkcs1v15Sha256_eq_ok_iff]
    constructor
    · intro h
      obtain ⟨-, hsig, -, -, hbelow, hequal⟩ := h
      -- raising to the private exponent undoes the public one, so there is one signature
      rw [AttestationKey.sign, ← hequal]
      exact (key.privateOp_publicPower hsig hbelow).symm
    · intro h
      have hsig : signature.length = key.modulus.length := by
        rw [h]
        exact Pss.length_i2osp _ _
      refine ⟨key.length_mem, hsig, key.full, key.odd, ?_, ?_⟩
      · rw [h, AttestationKey.sign, AttestationKey.privateOp, key.os2ip_i2osp_mod]
        exact Nat.mod_lt _ (Nat.zero_lt_of_lt hlt)
      · rw [h]
        exact key.publicPower_privateOp hlen hlt
  · obtain ⟨-, -, -, -, -, hequal⟩ := verifyPkcs1v15Sha256_eq_ok_iff.mp h
    obtain ⟨-, -, -, -, -, hequal'⟩ := verifyPkcs1v15Sha256_eq_ok_iff.mp h'
    exact emsaEncode_inj (hequal.symm.trans hequal')

/-! ### Encryption -/

/-- The public operation on a block that is smaller than the modulus. -/
theorem oaepPublicOp_eq {key : AttestationKey} {width : ℕ} {block : List UInt8}
    (hwidth : key.modulus.length = width) (hlen : block.length = key.modulus.length)
    (hhead : block.head? = some 0x00) :
    oaepPublicOp width key.modulus block = .ok (key.publicPower (Pss.os2ip block)) := by
  subst hwidth
  have hne : key.modulus ≠ [] := List.ne_nil_of_length_pos (by have := key.length_bounds.1; omega)
  rw [oaepPublicOp, Except.refuseIf_of_not (by simp [hlen]), Except.ok_bind]
  exact (powerOp_eq_ok_iff hne).mpr ⟨key.full, key.lt_modulus hlen hhead, key.odd, rfl⟩

/-- What is given to the public operation is the encoding of the standard. -/
theorem encryptOaepSha256_eq {key : AttestationKey} {label : List UInt8} {seed : Digest}
    (h : message.length + 66 ≤ key.modulus.length) :
    encryptOaepSha256 sha key.modulus label message seed =
      .ok (key.publicPower (Pss.os2ip
        (Pkcs1.oaepEncode sha.sha256 label key.modulus.length seed.toList message))) := by
  have hbounds := key.length_bounds
  have hhLen : hLen = 32 := rfl
  have hdb : mgf1 sha seed.toList (key.modulus.length - 32 - 1) =
      Pss.mgf1 sha.sha256 seed.toList (key.modulus.length - 32 - 1) := mgf1_eq_mgf1 _ (by rw [hhLen]; omega)
  have hmarker : key.modulus.length - 32 - 1 - 32 - (message.length + 1) =
      key.modulus.length - message.length - 2 * 32 - 2 := by omega
  have hem : ∀ db, (0x00 : UInt8) :: (List.zipWith (· ^^^ ·) seed.toList (mgf1 sha db 32) ++ db) =
      0x00 :: (Pkcs1.xor seed.toList (Pss.mgf1 sha.sha256 db 32) ++ db) := by
    intro db
    rw [mgf1_eq_mgf1 _ (by decide)]
    rfl
  have hencoded : (Pkcs1.oaepEncode sha.sha256 label key.modulus.length seed.toList message).length =
      key.modulus.length := Pkcs1.length_oaepEncode (by decide) seed.toList_length (by omega)
  have hop := fun width (hwidth : key.modulus.length = width) ↦ oaepPublicOp_eq hwidth hencoded rfl
  simp only [encryptOaepSha256, Except.refuseIf_of_not (not_not.mpr key.length_mem), Except.ok_bind, hhLen,
    checkedSub_of_le (show 32 * 2 + 2 ≤ key.modulus.length by omega),
    checkedSub_of_le (show message.length + 1 ≤ key.modulus.length - 32 - 1 - 32 by omega), Except.okOr_some,
    Except.refuseIf_of_not (show ¬key.modulus.length - (32 * 2 + 2) < message.length by omega), hdb, hmarker, hem]
  have hmem := key.length_mem
  simp only [attestationModulusLens, List.mem_cons, List.not_mem_nil, or_false] at hmem
  split
  · rename_i hk
    exact hop 256 hk
  · rename_i hk
    exact hop 384 hk
  · rename_i hk
    exact hop 512 hk
  · rename_i hno256 hno384 hno512
    rcases hmem with hk | hk | hk
    · exact absurd hk hno256
    · exact absurd hk hno384
    · exact absurd hk hno512

/-- A block is opened under two labels only if these have one hash. -/
theorem eq_of_oaepDecode {label label' em message' : List UInt8}
    (h : Pkcs1.oaepDecode sha.sha256 label em = some message)
    (h' : Pkcs1.oaepDecode sha.sha256 label' em = some message') :
    sha.sha256 label' = sha.sha256 label ∧ message' = message := by
  simp only [Pkcs1.oaepDecode] at h h'
  split_ifs at h h' with hlabel hlabel'
  refine ⟨List.Vector.toList_injective (hlabel'.2.symm.trans hlabel.2), ?_⟩
  exact Option.some_inj.mp (h'.symm.trans h)

/-- The public operation finds nothing wrong with a block that begins with a zero byte, but the key. -/
theorem oaepPublicOp_ne_error {width : ℕ} {rest : List UInt8} {e : CryptoError} (he : e ≠ .badLength) :
    oaepPublicOp width modulus (0x00 :: rest) ≠ .error e := by
  refine Except.bind_ne_error (Except.refuseIf_ne_error he.symm) fun _ hlen ↦ ?_
  refine Except.bind_ne_error (Except.refuseIf_ne_error he.symm) fun _ hfull ↦ ?_
  rw [Except.refuseIf_eq_ok_iff, not_or, not_not, not_not, List.length_cons] at hlen
  rw [Except.refuseIf_eq_ok_iff] at hfull
  have hlt : Pss.os2ip (0x00 :: rest) < Pss.os2ip modulus := by
    refine os2ip_lt_of_full (hlen.1.trans hlen.2.symm) fun first hfirst hzero ↦ hfull ?_
    rw [Option.mem_def.mp hfirst, Option.all_some, hzero]
    rfl
  have hbelow : refuseIf (fromBeSlice modulus ≤ fromBeSlice (0x00 :: rest)) CryptoError.badSignature = .ok () :=
    Except.refuseIf_of_not (not_le.mpr hlt) _
  simp only [hbelow, Except.ok_bind]
  exact Except.bind_ne_error (Except.refuseIf_ne_error he.symm) fun _ _ ↦ Except.ok_ne_error

theorem okOr_ne_error {α : Type} {x : Option α} {e e' : CryptoError} (he : e ≠ e') : okOr x e ≠ .error e' := by
  cases x with
  | none => exact fun h ↦ he (Except.error.inj h)
  | some a => exact nofun

/-- Encryption has one refusal: no message and no modulus is said to be forged. -/
theorem encryptOaepSha256_ne_error {label : List UInt8} {seed : Digest} {e : CryptoError}
    (he : e ≠ .badLength) : encryptOaepSha256 sha modulus label message seed ≠ .error e := by
  refine Except.bind_ne_error (Except.refuseIf_ne_error he.symm) fun _ _ ↦ ?_
  refine Except.bind_ne_error (okOr_ne_error he.symm) fun room _ ↦ ?_
  refine Except.bind_ne_error (Except.refuseIf_ne_error he.symm) fun _ _ ↦ ?_
  refine Except.bind_ne_error (okOr_ne_error he.symm) fun markerAt _ ↦ ?_
  dsimp only
  split
  · exact oaepPublicOp_ne_error he
  · exact oaepPublicOp_ne_error he
  · exact oaepPublicOp_ne_error he
  · exact fun h ↦ he (Except.error.inj h).symm

/-- A message that does not fit is refused. -/
theorem encryptOaepSha256_of_lt {key : AttestationKey} {label : List UInt8} {seed : Digest}
    (h : key.modulus.length < message.length + 66) :
    encryptOaepSha256 sha key.modulus label message seed = .error .badLength := by
  have hbounds := key.length_bounds
  have hhLen : hLen = 32 := rfl
  have hlong : key.modulus.length - (32 * 2 + 2) < message.length := by omega
  simp only [encryptOaepSha256, Except.refuseIf_of_not (not_not.mpr key.length_mem), Except.ok_bind, hhLen,
    checkedSub_of_le (show 32 * 2 + 2 ≤ key.modulus.length by omega), Except.okOr_some,
    Except.refuseIf_eq_error_iff.mpr ⟨hlong, rfl⟩]
  rfl

/-- What is encrypted has the length of the modulus, and the key decrypts it under the labels of one hash. -/
theorem decryptOaep_of_encrypt {key : AttestationKey} {label ciphertext : List UInt8} {seed : Digest}
    (h : encryptOaepSha256 sha key.modulus label message seed = .ok ciphertext) :
    ciphertext.length = key.modulus.length ∧
      ∀ label' message', key.decryptOaep sha label' ciphertext = some message' ↔
        sha.sha256 label' = sha.sha256 label ∧ message' = message := by
  have hbounds := key.length_bounds
  have hhLen : hLen = 32 := rfl
  rcases lt_or_ge key.modulus.length (message.length + 66) with hlarge | hroom
  · rw [encryptOaepSha256_of_lt hlarge] at h
    cases h
  · rw [encryptOaepSha256_eq hroom] at h
    obtain rfl := Except.ok.inj h
    have hencoded : (Pkcs1.oaepEncode sha.sha256 label key.modulus.length seed.toList message).length =
        key.modulus.length := Pkcs1.length_oaepEncode (by decide) seed.toList_length (by omega)
    refine ⟨Pss.length_i2osp _ _, fun label' message' ↦ ?_⟩
    have hdecode : Pkcs1.oaepDecode sha.sha256 label
        (Pkcs1.oaepEncode sha.sha256 label key.modulus.length seed.toList message) = some message :=
      Pkcs1.oaepDecode_oaepEncode (by decide) seed.toList_length (by omega)
    rw [AttestationKey.decryptOaep, key.privateOp_publicPower hencoded (key.lt_modulus hencoded rfl)]
    constructor
    · intro h
      exact eq_of_oaepDecode hdecode h
    · intro h
      obtain ⟨hlabel, rfl⟩ := h
      rw [Pkcs1.oaepDecode, hlabel]
      exact hdecode

/-- What the key decrypts was encrypted to it. -/
theorem exists_encrypt_of_decryptOaep {key : AttestationKey} {label ciphertext : List UInt8}
    (hlen : ciphertext.length = key.modulus.length) (hlt : Pss.os2ip ciphertext < Pss.os2ip key.modulus)
    (h : key.decryptOaep sha label ciphertext = some message) :
    ∃ seed, encryptOaepSha256 sha key.modulus label message seed = .ok ciphertext := by
  have hbounds := key.length_bounds
  have hhLen : hLen = 32 := rfl
  obtain ⟨seed, hseed, hroom, hblock⟩ := (Pkcs1.oaepDecode_eq_some_iff (by decide)
    (Pss.length_i2osp _ _) (by omega)).mp h
  obtain ⟨seed, rfl⟩ : ∃ given : Digest, given.toList = seed := ⟨⟨seed, hseed⟩, rfl⟩
  refine ⟨seed, ?_⟩
  rw [encryptOaepSha256_eq (by omega), ← hblock]
  exact congrArg Except.ok (key.publicPower_privateOp hlen hlt)

/-- **What is encrypted is decrypted**, by the key, under this label and no other one, if the message fits; a
message that does not fit is refused by its length, which is the only refusal for any modulus. The key decrypts
nothing that was not encrypted to it. -/
theorem oaep_exact (sha : Sha2) :
    (∀ (key : AttestationKey) label message seed,
      (message.length + 66 ≤ key.modulus.length →
        ∃ ciphertext, encryptOaepSha256 sha key.modulus label message seed = .ok ciphertext ∧
          ciphertext.length = key.modulus.length ∧
          ∀ label' message', key.decryptOaep sha label' ciphertext = some message' ↔
            sha.sha256 label' = sha.sha256 label ∧ message' = message) ∧
      (key.modulus.length < message.length + 66 →
        encryptOaepSha256 sha key.modulus label message seed = .error .badLength)) ∧
    (∀ (key : AttestationKey) label message ciphertext, ciphertext.length = key.modulus.length →
      Pss.os2ip ciphertext < Pss.os2ip key.modulus →
        (key.decryptOaep sha label ciphertext = some message ↔
          ∃ seed, encryptOaepSha256 sha key.modulus label message seed = .ok ciphertext)) ∧
    ∀ modulus label message seed e, e ≠ .badLength →
      encryptOaepSha256 sha modulus label message seed ≠ .error e := by
  refine ⟨fun key label message seed ↦ ⟨fun hroom ↦ ?_, encryptOaepSha256_of_lt⟩,
    fun key label message ciphertext hlen hlt ↦ ⟨exists_encrypt_of_decryptOaep hlen hlt, fun h ↦ ?_⟩,
    fun modulus label message seed e ↦ encryptOaepSha256_ne_error⟩
  · exact ⟨_, encryptOaepSha256_eq hroom, decryptOaep_of_encrypt (encryptOaepSha256_eq hroom)⟩
  · obtain ⟨seed, hencrypt⟩ := h
    exact ((decryptOaep_of_encrypt hencrypt).2 label message).mpr ⟨rfl, rfl⟩

/-! ### A sample key -/

/-- Distinct odd primes whose product has 2048 bits. -/
def samplePrimes : List ℕ :=
  [3, 5, 7, 11, 13, 17, 19, 23, 29, 31, 37, 41, 43, 47, 53, 59, 61, 67,
   71, 73, 79, 83, 89, 97, 101, 103, 107, 109, 113, 127, 131, 137, 139, 149, 151, 157,
   163, 167, 173, 179, 181, 191, 193, 197, 199, 211, 223, 227, 229, 233, 239, 241, 251, 257,
   263, 269, 271, 277, 281, 283, 293, 307, 311, 313, 317, 331, 337, 347, 349, 353, 359, 367,
   373, 379, 383, 389, 397, 401, 409, 419, 421, 431, 433, 439, 443, 449, 457, 461, 463, 467,
   479, 487, 491, 499, 503, 509, 521, 523, 541, 547, 557, 563, 569, 571, 577, 587, 593, 599,
   601, 607, 613, 617, 619, 631, 641, 643, 647, 653, 659, 661, 673, 677, 683, 691, 701, 709,
   719, 727, 733, 739, 743, 751, 757, 761, 769, 773, 787, 797, 809, 811, 821, 823, 827, 829,
   839, 853, 857, 859, 863, 877, 881, 883, 887, 907, 911, 919, 929, 937, 941, 947, 953, 967,
   971, 977, 983, 991, 997, 1009, 1013, 1019, 1021, 1031, 1033, 1039, 1049, 1051, 1061, 1063, 1069, 1087,
   1091, 1093, 1097, 1103, 1109, 1117, 1123, 1129, 1151, 1153, 1163, 1171, 1181, 1187, 1193, 1201, 1213, 1217,
   1223, 1229, 1231, 1237, 1249, 1259, 1277, 1279, 1283, 1289, 1291, 1297, 1301, 1303, 1307, 1319, 1321, 1327,
   1361, 1367, 1373, 1381, 1399, 1409, 1423, 1427, 1429, 1433, 1439, 1447, 1451, 1453, 1459, 5179]

/-- The product of these primes. -/
def sampleModulus : List UInt8 :=
  [0x80, 0x24, 0xfc, 0xc6, 0x3b, 0xd2, 0x56, 0x00, 0x83, 0x03, 0xb4, 0x0c, 0x68, 0x36, 0x17,
   0x78, 0x5c, 0xbd, 0x31, 0x38, 0x00, 0x36, 0xcb, 0x31, 0x6a, 0xf9, 0x8d, 0x59, 0xfc, 0x96,
   0xbe, 0x0c, 0xfc, 0xcc, 0xb8, 0xf0, 0xaa, 0xf4, 0xe1, 0x8d, 0x2c, 0x81, 0xe9, 0x16, 0xff,
   0x37, 0xb8, 0xa7, 0xfa, 0x1e, 0x43, 0x3e, 0x9a, 0xf6, 0x80, 0x6e, 0x44, 0x9a, 0xa4, 0x4e,
   0xe9, 0x3d, 0x34, 0x64, 0x9e, 0x96, 0xf6, 0x37, 0xa9, 0xdb, 0xda, 0xa7, 0x79, 0x70, 0x71,
   0xdc, 0x9c, 0x81, 0x85, 0xb8, 0xcd, 0x1a, 0xd3, 0x38, 0x87, 0xd4, 0xd0, 0x14, 0x7a, 0x85,
   0x1b, 0xa6, 0x8a, 0x14, 0x0f, 0xd6, 0x57, 0x16, 0x8a, 0x28, 0x09, 0x62, 0x8c, 0x58, 0x79,
   0x2f, 0xc7, 0xbc, 0xa1, 0x92, 0x31, 0xce, 0x35, 0xf0, 0xe4, 0x73, 0x15, 0x81, 0x9d, 0xd1,
   0xe5, 0xaf, 0xa7, 0xa4, 0x69, 0x0e, 0x46, 0xfd, 0x6c, 0xbf, 0xbd, 0x77, 0xe5, 0x12, 0x0a,
   0xf7, 0x74, 0x9d, 0x10, 0xda, 0xa2, 0xd8, 0x24, 0x77, 0x67, 0x23, 0x6f, 0x9b, 0x30, 0xbc,
   0x36, 0xf9, 0xc2, 0xf7, 0x6c, 0xf0, 0x80, 0x19, 0x53, 0x2e, 0x78, 0x62, 0xfa, 0xbb, 0xcd,
   0x7c, 0xb8, 0x85, 0xdd, 0x3d, 0xf7, 0x96, 0x59, 0xcf, 0x8d, 0xa6, 0xef, 0xd2, 0xa8, 0xbd,
   0x67, 0x3d, 0xa9, 0x22, 0x8a, 0xe7, 0x4a, 0x67, 0xdb, 0x8e, 0xeb, 0x2c, 0xa6, 0xe2, 0x72,
   0xd7, 0xad, 0x97, 0x76, 0xa8, 0xd7, 0xdd, 0xc4, 0xec, 0x06, 0x0f, 0xf1, 0xa5, 0xa8, 0xee,
   0x95, 0x0c, 0xf8, 0xb6, 0x75, 0xdd, 0xe8, 0xf7, 0xd1, 0xdb, 0xa1, 0x6d, 0x2b, 0x6b, 0x6e,
   0xca, 0x74, 0x0d, 0x67, 0xb9, 0xa2, 0x74, 0x2b, 0x11, 0x1b, 0xfa, 0xff, 0xa1, 0x5a, 0xc4,
   0x28, 0xd6, 0xc8, 0x73, 0x71, 0xfc, 0x8a, 0xfb, 0xc2, 0x9c, 0xfb, 0x42, 0xbb, 0x41, 0x39,
   0xfb]

/-- Trial division up to a bound. -/
def smallPrime (p : ℕ) : Bool := 2 ≤ p && (List.range 74).all fun m ↦ m < 2 || m = p || p % m ≠ 0

/-- Trial division by the numbers below 74 is enough for small primes. -/
theorem prime_of_smallPrime {p : ℕ} (hp : smallPrime p = true) (hlt : p < 74 * 74) : p.Prime := by
  simp only [smallPrime, Bool.and_eq_true, decide_eq_true_eq, List.all_eq_true, List.mem_range,
    Bool.or_eq_true, ne_eq] at hp
  refine Nat.prime_def_le_sqrt.mpr ⟨hp.1, fun m hm hsqrt hdvd ↦ ?_⟩
  have hm74 : m < 74 := (Nat.le_sqrt.mp hsqrt |>.trans_lt hlt) |> Nat.mul_self_lt_mul_self_iff.mp
  have hlt' : m < p := (Nat.sqrt_lt_self hp.1).trans_le' hsqrt
  rcases hp.2 m hm74 with (h | h) | h
  · omega
  · omega
  · exact h (Nat.mod_eq_zero_of_dvd hdvd)

/-- The private exponent of the sample key. -/
def sampleExponent : ℕ :=
  92728425100314011166183677531047813592268989427857682406365665228759626168332892057117924337768620303198983850403714848755523244647697865473

/-- A key of these primes. -/
def sampleKey : AttestationKey where
  primes := samplePrimes
  prime := fun p hp ↦ by
    have hall : samplePrimes.all (fun p ↦ smallPrime p && p < 74 * 74) = true := by decide +kernel
    have hcheck := List.all_eq_true.mp hall p hp
    rw [Bool.and_eq_true, decide_eq_true_eq] at hcheck
    exact prime_of_smallPrime hcheck.1 hcheck.2
  nodup := by decide +kernel
  d := sampleExponent
  inverse := fun p hp ↦ by
    have hall : samplePrimes.all (fun p ↦ exponent * sampleExponent % (p - 1) = 1 % (p - 1)) = true := by
      decide +kernel
    exact of_decide_eq_true (List.all_eq_true.mp hall p hp)
  modulus := sampleModulus
  length_mem := by decide +kernel
  modulus_eq := by
    show Pss.os2ip sampleModulus = samplePrimes.prod
    decide +kernel
  full := by decide +kernel
  odd := by decide +kernel
  d_pos := by decide +kernel

/-- The label under which credentials are encrypted. -/
def identityLabel : List UInt8 := utf8 "IDENTITY" ++ [0]

/-- SHA-256 of that label. -/
def identityHash : Digest :=
  ⟨[0xd3, 0x12, 0x05, 0x40, 0xc0, 0x33, 0xc7, 0x2e, 0x87, 0x25, 0xf5, 0x74, 0xf7, 0x60, 0x7c,
    0xb7, 0x49, 0xf1, 0x3f, 0x8c, 0x97, 0xcb, 0xcb, 0x46, 0x9e, 0x3c, 0xdf, 0x07, 0xa0, 0x80,
    0x88, 0x99], rfl⟩

/-- SHA-256 of the word `quote`. -/
def quoteHash : Digest :=
  ⟨[0x63, 0x27, 0x24, 0x5c, 0x3a, 0x45, 0xd3, 0xd9, 0xea, 0x72, 0xb7, 0x0f, 0xbb, 0x67, 0x19,
    0x26, 0xe7, 0xb8, 0x0f, 0x63, 0xd3, 0x11, 0xbf, 0xd7, 0x3d, 0xde, 0x87, 0x6d, 0x5d, 0xf0,
    0x2b, 0x26], rfl⟩

/-- SHA-256 of the masked data block with the first counter. -/
def seedMaskHash : Digest :=
  ⟨[0xc7, 0xe0, 0xc0, 0xcf, 0x2a, 0x51, 0xce, 0x38, 0xa9, 0xb2, 0xab, 0xa8, 0x2c, 0x35, 0xe9,
    0x7f, 0x05, 0x16, 0x16, 0xe6, 0x30, 0xaf, 0x97, 0xb2, 0x06, 0x50, 0x33, 0xcf, 0x9b, 0x28,
    0x58, 0xf6], rfl⟩

/-- SHA-256 of a seed of sevens with the seven counters of the mask. -/
def blockMaskBytes : List UInt8 :=
  [0xd9, 0xe3, 0x8b, 0x47, 0x35, 0x02, 0x70, 0x0d, 0x57, 0x14, 0x76, 0xb3, 0x69, 0xf9, 0xbf,
   0xe8, 0xd2, 0x87, 0xc2, 0x4c, 0xf1, 0xa0, 0x9a, 0x55, 0x78, 0x11, 0x72, 0xb1, 0xfc, 0xd0,
   0x61, 0x3a, 0x07, 0x86, 0x25, 0x55, 0xdd, 0xf1, 0x9e, 0x3e, 0x66, 0x26, 0x5f, 0x86, 0x4f,
   0xba, 0xd8, 0x60, 0xac, 0x9c, 0x7f, 0x90, 0x4c, 0x77, 0xb1, 0xfe, 0x29, 0x71, 0x0e, 0x6e,
   0xbe, 0x0b, 0x1f, 0x7c, 0x2e, 0xae, 0x07, 0xc4, 0xa3, 0x65, 0x49, 0x80, 0xbf, 0x4a, 0x63,
   0xea, 0x0c, 0x37, 0x30, 0x3f, 0xd0, 0xb1, 0xd7, 0x48, 0xf5, 0x44, 0x35, 0x1d, 0x39, 0xca,
   0x94, 0x84, 0x8b, 0x21, 0xdf, 0xd3, 0xe2, 0x6e, 0x16, 0x53, 0x25, 0xfc, 0x01, 0xba, 0x73,
   0x3e, 0x69, 0xad, 0xd1, 0xab, 0xed, 0x2b, 0x3b, 0xe7, 0xc8, 0x83, 0x4b, 0x4f, 0x57, 0xb7,
   0x68, 0x8c, 0xa2, 0xa8, 0x05, 0x43, 0xa3, 0xd7, 0xb7, 0x04, 0x94, 0x6e, 0xf6, 0xfb, 0xcd,
   0xaf, 0x6a, 0x1f, 0x92, 0xa0, 0x49, 0xef, 0xf4, 0x91, 0x25, 0x72, 0xac, 0xfe, 0xbd, 0x67,
   0x67, 0x09, 0xb7, 0x50, 0x2e, 0x6d, 0xe8, 0x4f, 0x05, 0x83, 0x4e, 0x8d, 0xaa, 0x94, 0xd3,
   0x85, 0xfa, 0x8a, 0x11, 0x56, 0x03, 0x04, 0x4b, 0xb9, 0xb2, 0x5f, 0xc4, 0xcd, 0x36, 0xd5,
   0x15, 0xea, 0x53, 0xb7, 0x7f, 0xe9, 0xac, 0xb8, 0x96, 0x87, 0x16, 0xe1, 0xd6, 0x6f, 0x08,
   0x0f, 0x23, 0x73, 0x4e, 0xea, 0x58, 0xcc, 0xaa, 0x0b, 0x59, 0x7e, 0x06, 0x4d, 0x27, 0x72,
   0x4d, 0x55, 0x3e, 0x84, 0xd5, 0x79, 0x97, 0x08, 0x1c, 0x56, 0xe7, 0xed, 0xa5, 0xae]

/-- SHA-256 as it is at the inputs of the samples, which have different lengths except for the blocks of the
mask. -/
def quoteSha : Sha2 where
  sha256 input :=
    match input.length with
    | 5 => quoteHash
    | 9 => identityHash
    | 227 => seedMaskHash
    | _ => List.Vector.ofFn fun i ↦ blockMaskBytes.getD (32 * (input.getLastD 0).toNat + i.val) 0
  hmac _ _ := List.Vector.replicate 32 0
  hkdf _ _ _ n := List.Vector.replicate n 0

/-- The signature of the sample key over a word is accepted. -/
theorem pkcs1v15_exact_sampleKey :
    verifyPkcs1v15Sha256 quoteSha sampleKey.modulus (utf8 "quote") (sampleKey.sign quoteSha (utf8 "quote")) =
      .ok () :=
  ((pkcs1v15_exact quoteSha).1 sampleKey _ _).mpr rfl

/-- The word is encrypted to the sample key and read back. -/
theorem oaep_exact_sampleKey :
    ∃ ciphertext, encryptOaepSha256 quoteSha sampleKey.modulus identityLabel (utf8 "quote")
        (List.Vector.replicate 32 7) = .ok ciphertext ∧
      sampleKey.decryptOaep quoteSha identityLabel ciphertext = some (utf8 "quote") := by
  have hlength : sampleModulus.length = 256 := by decide +kernel
  have hword : (utf8 "quote").length = 5 := by decide +kernel
  have hroom : (utf8 "quote").length + 66 ≤ sampleKey.modulus.length := by
    show (utf8 "quote").length + 66 ≤ sampleModulus.length
    omega
  obtain ⟨ciphertext, hencrypt, -, hdecrypt⟩ :=
    ((oaep_exact quoteSha).1 sampleKey identityLabel (utf8 "quote") (List.Vector.replicate 32 7)).1 hroom
  exact ⟨ciphertext, hencrypt, (hdecrypt _ _).mpr ⟨rfl, rfl⟩⟩

end OpenCrate.Crypto.Rsa
