import OpenCrate.Crypto.Kdf
import OpenCrate.Crypto.Merkle

/-!
# Verification of RSA-PSS signatures

`rsa` of `oc-crypto`, as far as the signatures of editing devices go. The format fixes a modulus of
2048 bits, the exponent 65537 and a salt of 32 bytes. The exponentiation is that of another package,
which computes the power modulo an odd number; the parsing of the padding is the repository's own.
-/

namespace OpenCrate.Crypto.Rsa

open Except (refuseIf okOr)

/-- Length of the modulus, which is the length of a signature and of the encoding. -/
def modulusLen : ℕ := 256

/-- Length of a hash. -/
def hLen : ℕ := 32

/-- Salt length fixed by the format. -/
def sLen : ℕ := 32

/-- Length of the masked block. -/
def dbLen : ℕ := 223

/-- Zero padding before the delimiter. -/
def psLen : ℕ := 190

/-- The public exponent. -/
def exponent : ℕ := 65537

/-- The number of big-endian bytes. -/
def fromBeSlice (bytes : List UInt8) : ℕ := leNat bytes.reverse

/-- A number below `256 ^ modulusLen` as big-endian bytes. -/
def encodeBlock (n : ℕ) : List UInt8 := (leBytes modulusLen n).reverse

variable (sha : Sha2)

/-- The mask of a seed, block by block. -/
def mgf1 (seed : List UInt8) (len : ℕ) : List UInt8 :=
  ((List.range ((len + hLen - 1) / hLen)).flatMap fun counter ↦
    (sha.sha256 (seed ++ toBeBytes (UInt32.ofNat counter))).toList).take len

/-- The masked block without its mask and without its first bit. -/
def unmask (h maskedDb : List UInt8) : List UInt8 :=
  match List.zipWith (· ^^^ ·) (mgf1 sha h dbLen) maskedDb with
  | [] => []
  | head :: rest => (head &&& 0x7f) :: rest

/-- Verify a signature over a message. A wrong length is told apart from a mismatch. -/
def verifyPssSha256 (modulus : List.Vector UInt8 modulusLen) (message signature : List UInt8) :
    Except CryptoError Unit := do
  refuseIf (signature.length ≠ modulusLen) .badLength
  let n := fromBeSlice modulus.toList
  let s := fromBeSlice signature
  refuseIf (n ≤ s) .badSignature
  refuseIf (n % 2 = 0) .badLength
  let em := encodeBlock (s ^ exponent % n)
  refuseIf (em.getLast? ≠ some 0xbc) .badSignature
  let maskedDb := em.take dbLen
  let h ← okOr (toVector? hLen ((em.drop dbLen).take hLen)) .badLength
  let first ← okOr maskedDb.head? .badLength
  refuseIf (first &&& 0x80 ≠ 0) .badSignature
  let db := unmask sha h.toList maskedDb
  refuseIf ((db.take psLen).any (· ≠ 0) = true) .badSignature
  let separator ← okOr (db.drop psLen).head? .badLength
  let salt := (db.drop psLen).tail
  refuseIf (separator ≠ 0x01 ∨ salt.length ≠ sLen) .badSignature
  let computed := sha.sha256 (List.replicate 8 0 ++ (sha.sha256 message).toList ++ salt)
  refuseIf (digestEq computed h = false) .badSignature

end OpenCrate.Crypto.Rsa
