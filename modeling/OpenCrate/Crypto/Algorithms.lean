import Mathlib.Tactic.Common

/-!
# Algorithm identifiers

The registry of `oc-crypto`: the algorithms a file may name, with their numbers. A number of the
registry is not yet a promise to execute it: reading an identifier passes through
`ensureSupported`, except for the mechanisms of key slots, where an unsupported one only makes its
slot unusable.
-/

namespace OpenCrate.Crypto

/-- Errors of cryptographic operations. -/
inductive CryptoError where
  | authentication
  | badSignature
  | badLength
  | treeMismatch
  | indexOutOfRange
  | badKey
  | unsupportedAlgorithm
  deriving DecidableEq, Repr

/-! ### Encryption -/

/-- Payload encryption algorithm. -/
inductive AeadAlg where
  | xChaCha20Poly1305
  | aes256Gcm
  | aes256GcmSiv
  deriving DecidableEq, Repr

namespace AeadAlg

/-- The number in the registry. -/
def toU8 : AeadAlg → UInt8
  | xChaCha20Poly1305 => 1
  | aes256Gcm => 2
  | aes256GcmSiv => 3

/-- Whether the build can execute the algorithm. -/
def ensureSupported : AeadAlg → Except CryptoError Unit
  | xChaCha20Poly1305 => .ok ()
  | aes256Gcm | aes256GcmSiv => .error .unsupportedAlgorithm

/-- The algorithm of a number, if the build can execute it. -/
def fromU8 (v : UInt8) : Except CryptoError AeadAlg := do
  let alg ← match v with
    | 1 => .ok xChaCha20Poly1305
    | 2 => .ok aes256Gcm
    | 3 => .ok aes256GcmSiv
    | _ => .error .unsupportedAlgorithm
  ensureSupported alg
  .ok alg

/-- One algorithm is executed. -/
theorem eq_of_fromU8 {v : UInt8} {alg : AeadAlg} (h : fromU8 v = .ok alg) :
    alg = .xChaCha20Poly1305 := by
  unfold fromU8 at h
  split at h
  · exact (Except.ok.inj h).symm
  · exact nomatch h
  · exact nomatch h
  · exact nomatch h

end AeadAlg

/-! ### Signatures -/

/-- Signature algorithm. -/
inductive SigAlg where
  | ed25519
  | rsaPssSha256
  deriving DecidableEq, Repr

namespace SigAlg

/-- The number in the registry. -/
def toU8 : SigAlg → UInt8
  | ed25519 => 1
  | rsaPssSha256 => 2

/-- Whether the build can execute the algorithm. -/
def ensureSupported : SigAlg → Except CryptoError Unit
  | ed25519 => .ok ()
  | rsaPssSha256 => .ok ()

/-- The algorithm of a number, if the build can execute it. -/
def fromU8 (v : UInt8) : Except CryptoError SigAlg := do
  let alg ← match v with
    | 1 => .ok ed25519
    | 2 => .ok rsaPssSha256
    | _ => .error .unsupportedAlgorithm
  ensureSupported alg
  .ok alg

end SigAlg

/-! ### Tree hashes -/

/-- Payload-tree hash. -/
inductive TreeHashAlg where
  | blake3
  | sha256
  deriving DecidableEq, Repr

namespace TreeHashAlg

/-- The number in the registry. -/
def toU8 : TreeHashAlg → UInt8
  | blake3 => 1
  | sha256 => 2

/-- Whether the build computes trees with the hash. -/
def ensureSupported : TreeHashAlg → Except CryptoError Unit
  | blake3 => .ok ()
  | sha256 => .error .unsupportedAlgorithm

/-- The hash of a number, if the build computes trees with it. -/
def fromU8 (v : UInt8) : Except CryptoError TreeHashAlg := do
  let alg ← match v with
    | 1 => .ok blake3
    | 2 => .ok sha256
    | _ => .error .unsupportedAlgorithm
  ensureSupported alg
  .ok alg

/-- One hash is computed. -/
theorem eq_of_fromU8 {v : UInt8} {alg : TreeHashAlg} (h : fromU8 v = .ok alg) :
    alg = .blake3 := by
  unfold fromU8 at h
  split at h
  · exact (Except.ok.inj h).symm
  · exact nomatch h
  · exact nomatch h

end TreeHashAlg

/-! ### Key encapsulation -/

/-- Key encapsulation mechanism, specified per slot and not per file. -/
inductive KemAlg where
  | x25519HkdfSha256
  | p256HkdfSha256
  | rsaOaepSha256
  | xWing
  | mlKem768P256
  deriving DecidableEq, Repr

namespace KemAlg

/-- The number in the registry. -/
def toU8 : KemAlg → UInt8
  | x25519HkdfSha256 => 1
  | p256HkdfSha256 => 2
  | rsaOaepSha256 => 3
  | xWing => 4
  | mlKem768P256 => 5

/-- The mechanism of a number. -/
def fromU8 (v : UInt8) : Except CryptoError KemAlg :=
  match v with
  | 1 => .ok x25519HkdfSha256
  | 2 => .ok p256HkdfSha256
  | 3 => .ok rsaOaepSha256
  | 4 => .ok xWing
  | 5 => .ok mlKem768P256
  | _ => .error .unsupportedAlgorithm

/-- Whether the build can execute the mechanism. -/
def ensureSupported : KemAlg → Except CryptoError Unit
  | rsaOaepSha256 => .error .unsupportedAlgorithm
  | _ => .ok ()

@[simp] theorem fromU8_toU8 (kem : KemAlg) : fromU8 kem.toU8 = .ok kem := by
  cases kem <;> rfl

theorem eq_toU8_of_fromU8 {v : UInt8} {kem : KemAlg} (h : fromU8 v = .ok kem) : v = kem.toU8 := by
  unfold fromU8 at h
  split at h <;> cases h <;> rfl

end KemAlg

end OpenCrate.Crypto
