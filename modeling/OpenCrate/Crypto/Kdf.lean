import OpenCrate.Crypto.Algorithms
import OpenCrate.Crypto.Sign

/-!
# Secrets, the key schedule and authentication codes

The secrets of `oc-crypto`, each of its own type, and what is derived from them. HMAC, HKDF and
SHA-256 are functions of other packages and parameters here (`Sha2`); every output asked for is far
below the limit of HKDF, so that expansion does not fail.

A nonce is never drawn alone: `hedgedNonce` mixes the random seed with the plaintext and the
associated data, and the reader takes the nonce that is stored.
-/

namespace OpenCrate.Crypto

open Except (refuseIf okOr)

/-! ### Secrets -/

/-- Length of all secrets in the schedule. -/
def secretLen : ℕ := 32

/-- Content key: random, and wrapped. -/
structure Cek where
  expose : Digest
  deriving DecidableEq

/-- Wrapping key derived from both shares. -/
structure Kek where
  expose : Digest
  deriving DecidableEq

/-- Server share. -/
structure SecretA where
  expose : Digest
  deriving DecidableEq

/-- Recipient share. -/
structure SecretB where
  expose : Digest
  deriving DecidableEq

/-- Payload encryption key. -/
structure PayloadKey where
  expose : Digest
  deriving DecidableEq

/-- Key of the authentication code of the mutable region. -/
structure MacKey where
  expose : Digest
  deriving DecidableEq

/-- Key of the authentication code of one conversation. -/
structure SessionMacKey where
  expose : Digest
  deriving DecidableEq

/-- Private-metadata key. -/
structure MetaKey where
  expose : Digest
  deriving DecidableEq

/-- Single-use claim code. -/
structure ClaimSecret where
  expose : Digest
  deriving DecidableEq

/-- Private key for opening slots. -/
structure X25519Secret where
  expose : Digest
  deriving DecidableEq

/-! ### Randomness -/

/-- A random generator over states `γ`: its only use is to fill buffers. -/
structure Rng (γ : Type) where
  fillBytes : γ → (n : ℕ) → List.Vector UInt8 n × γ

/-! ### Functions of other packages -/

/-- SHA-256 and what is built on it: HMAC over a key and a message, HKDF over a salt, input key
material and a purpose, expanded to the number of bytes asked for. -/
structure Sha2 where
  sha256 : List UInt8 → Digest
  hmac : List UInt8 → List UInt8 → Digest
  hkdf : List UInt8 → List UInt8 → List UInt8 → (n : ℕ) → List.Vector UInt8 n

variable (sha : Sha2)

/-! ### Authentication codes -/

namespace Mac

/-- Authentication-code length. -/
def macLen : ℕ := 32

/-- HMAC-SHA256 over a transcript. A key has the length of its type, so that this does not fail. -/
def compute (key : MacKey) (transcript : Transcript) : Except CryptoError Digest :=
  .ok (sha.hmac key.expose.toList transcript.asBytes)

/-- Verify an authentication code. -/
def verify (key : MacKey) (transcript : Transcript) (expected : Digest) :
    Except CryptoError Unit := do
  let actual ← compute sha key transcript
  refuseIf (actual ≠ expected) .authentication

/-- What was computed is accepted, and nothing else. -/
theorem verify_eq_ok_iff {key : MacKey} {transcript : Transcript} {code : Digest} {u : Unit} :
    verify sha key transcript code = .ok u ↔ compute sha key transcript = .ok code := by
  simp [verify, compute]

end Mac

/-! ### The key schedule -/

namespace Kdf

/-- A nonce hedged against a repeated state of the generator. -/
def hedgedNonce (n : ℕ) (label : Label) (seed plaintext aad : List UInt8) :
    Except CryptoError (List.Vector UInt8 n) := do
  refuseIf (2 ^ 32 ≤ plaintext.length) .badLength
  refuseIf (2 ^ 32 ≤ aad.length) .badLength
  let ikm := toBeBytes (UInt32.ofNat plaintext.length) ++ plaintext ++
    toBeBytes (UInt32.ofNat aad.length) ++ aad
  .ok (sha.hkdf seed ikm label.asBytes n)

/-- Both complete frames of a handshake, as they are hashed. -/
def handshakeFrames (helloFramed challengeFramed : List UInt8) : Transcript :=
  ((Transcript.new .echoTranscript).field helloFramed).field challengeFramed

/-- K31: handshake transcript hash. -/
def handshakeTranscript (helloFramed challengeFramed : List UInt8) : Digest :=
  sha.sha256 (handshakeFrames helloFramed challengeFramed).asBytes

/-- K24: a separate key for the requests of this conversation. -/
def deriveSessionMacKey (challenge : List UInt8) (deviceFpr : Digest) : SessionMacKey :=
  ⟨sha.hkdf [] challenge (Label.sessionMac.asBytes ++ deviceFpr.toList) secretLen⟩

/-- The public-key length of a mechanism, if it defines one. -/
def publicKeyLen : KemAlg → Option ℕ
  | .x25519HkdfSha256 => some 32
  | .p256HkdfSha256 => some 65
  | .xWing => some 1216
  | .mlKem768P256 => some 1249
  | .rsaOaepSha256 => none

/-- K27: device fingerprint, bound to its mechanism and public key. For X25519 it is the key. -/
def deviceFpr (kem : KemAlg) (publicKey : List UInt8) : Except CryptoError Digest := do
  kem.ensureSupported
  let expected ← okOr (publicKeyLen kem) .unsupportedAlgorithm
  refuseIf (publicKey.length ≠ expected) .badLength
  if kem = .x25519HkdfSha256 then okOr (toVector? 32 publicKey) .badLength
  else .ok (sha.sha256 (Label.deviceFpr.asBytes ++ [0x00] ++ [kem.toU8] ++ publicKey))

/-- K1: file wrapping key. -/
def deriveKek (fileId : List.Vector UInt8 16) (orgId : List UInt8) (a : SecretA) (b : SecretB) :
    Kek :=
  ⟨sha.hkdf fileId.toList (a.expose.toList ++ b.expose.toList)
    (Label.kek.asBytes ++ orgId ++ fileId.toList) secretLen⟩

/-- K3: payload key. -/
def derivePayloadKey (cek : Cek) (headerSalt : Digest) (fileId : List.Vector UInt8 16)
    (chunkSize : UInt32) (aead : AeadAlg) : PayloadKey :=
  ⟨sha.hkdf headerSalt.toList cek.expose.toList
    (Label.payload.asBytes ++ fileId.toList ++ toBeBytes chunkSize ++ [aead.toU8]) secretLen⟩

/-- K5: private-metadata key. -/
def derivePrivateMetaKey (cek : Cek) (headerSalt : Digest) (fileId : List.Vector UInt8 16) :
    MetaKey :=
  ⟨sha.hkdf headerSalt.toList cek.expose.toList (Label.privateMeta.asBytes ++ fileId.toList)
    secretLen⟩

/-- K6: key of the authentication code of the mutable region. -/
def deriveContentMacKey (cek : Cek) (headerSalt : Digest) (fileId : List.Vector UInt8 16) :
    MacKey :=
  ⟨sha.hkdf headerSalt.toList cek.expose.toList (Label.contentMac.asBytes ++ fileId.toList)
    secretLen⟩

/-- K12: the key of the head of a device's lease cache, independent of any file. -/
def deriveWitnessKey (device : X25519Secret) : MacKey :=
  ⟨sha.hkdf [] device.expose.toList Label.cachedLease.asBytes secretLen⟩

/-- The secret of an heir's device, derived from a claim code. -/
def deviceSecretFromClaim (fileId : List.Vector UInt8 16) (claim : ClaimSecret) : Digest :=
  sha.hkdf fileId.toList claim.expose.toList Label.claimDevice.asBytes secretLen

/-- K7, K8: the share of a claim code, and the commitment to it that enters the container. -/
def secretBFromClaim (fileId : List.Vector UInt8 16) (claim : ClaimSecret) : SecretB × Digest :=
  (⟨sha.hkdf fileId.toList claim.expose.toList Label.slotBClaim.asBytes secretLen⟩,
    sha.hkdf fileId.toList claim.expose.toList Label.slotBCommit.asBytes secretLen)

/-- K9: slot commitment. -/
def slotCommitment (kek : Kek) (coreHash : Digest) : Digest :=
  sha.hmac kek.expose.toList (Label.slotCommit.asBytes ++ coreHash.toList)

/-- Commitment comparison. -/
def verifyCommitment (expected actual : Digest) : Except CryptoError Unit :=
  refuseIf (expected ≠ actual) .authentication

/-- Short inputs have a nonce. -/
theorem exists_hedgedNonce (n : ℕ) (label : Label) (seed : List UInt8) {plaintext aad : List UInt8}
    (hplaintext : plaintext.length < 2 ^ 32) (haad : aad.length < 2 ^ 32) :
    ∃ nonce, hedgedNonce sha n label seed plaintext aad = .ok nonce := by
  rw [hedgedNonce, Except.refuseIf_of_not (not_le.mpr hplaintext), Except.ok_bind,
    Except.refuseIf_of_not (not_le.mpr haad), Except.ok_bind]
  exact ⟨_, rfl⟩

end Kdf

end OpenCrate.Crypto
