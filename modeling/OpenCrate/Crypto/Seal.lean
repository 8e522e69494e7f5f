import OpenCrate.Crypto.Aead
import OpenCrate.Crypto.Agreement

/-!
# Sealing a secret to a recipient

`seal` of `oc-crypto`: agreement or encapsulation gives a shared secret, the key of the cipher is derived
from it together with the encapsulation and the recipient's public bytes, and the recipient, who
recomputes those bytes, derives the same key. Each mechanism draws from the generator in its own order;
everything after the agreement is shared.

The holder of a slot is a `RecipientKey`. What was sealed to a public key opens for whoever holds the
secret half of it, under the same purpose and the same associated data (`OpensFor`).
-/

namespace OpenCrate.Crypto.Seal

open Except (refuseIf okOr)

/-- Default slot-sealing mechanism. -/
def defaultSealingKem : KemAlg := .x25519HkdfSha256

/-- Sealed secret: encapsulation, nonce, and ciphertext with tag. -/
structure SealedBlob where
  enc : List UInt8
  nonce : Nonce
  ct : List UInt8
  deriving DecidableEq

/-- The purpose of a slot: its label, its mechanism and its file. -/
def slotInfo (purpose : Label) (kem : KemAlg) (fileId : List.Vector UInt8 16) : List UInt8 :=
  purpose.asBytes ++ [kem.toU8] ++ fileId.toList

/-- K11: the purpose of a share sealed by the server to a device. -/
def aToDeviceInfo (kem : KemAlg) (fileId : List.Vector UInt8 16) (deviceFpr : Digest)
    (seq : UInt64) : List UInt8 :=
  Label.aToDevice.asBytes ++ [kem.toU8] ++ fileId.toList ++ deviceFpr.toList ++ toBeBytes seq

/-- K21: the purpose of a share sealed by the author to the requesting device. A share survives the
renewals of a lease, and no sequence number enters. -/
def bToDeviceInfo (kem : KemAlg) (fileId : List.Vector UInt8 16) (deviceFpr : Digest) :
    List UInt8 :=
  Label.bToDevice.asBytes ++ [kem.toU8] ++ fileId.toList ++ deviceFpr.toList

/-- The purpose of an attestation challenge. The mechanism does not enter: both halves of a hybrid
use the same one. -/
def challengeInfo (deviceFpr : Digest) : List UInt8 :=
  Label.attestNonce.asBytes ++ deviceFpr.toList

variable (sha : Sha2) (c : XChaCha) (k : Kems)

/-! ### The key of the cipher -/

/-- Derive the key from the shared secret and both public values. A zero secret is the sign of a point
of small order. -/
def deriveKey (shared : Digest) (ephPublic recipientPublic info : List UInt8) :
    Except CryptoError Digest := do
  refuseIf (shared = List.Vector.replicate 32 0) .badKey
  .ok (sha.hkdf [] (shared.toList ++ ephPublic ++ recipientPublic)
    (Label.sealKey.asBytes ++ info) secretLen)

/-- Shared sealing body: key derivation and encryption. -/
def sealCore (shared : Digest) (ephPublic recipientPublic info aad plaintext : List UInt8)
    (nonce : Nonce) : Except CryptoError SealedBlob := do
  let key ← deriveKey sha shared ephPublic recipientPublic info
  let ct ← okOr (c.encrypt key nonce plaintext aad) .badLength
  .ok ⟨ephPublic, nonce, ct⟩

/-- Shared opening body. -/
def openCore (key : Digest) (blob : SealedBlob) (aad : List UInt8) :
    Except CryptoError (List UInt8) :=
  okOr (c.decrypt key blob.nonce blob.ct aad) .authentication

/-- The representation of a public key, checked before any agreement. -/
def validateDhPublic (publicKey : List UInt8) (expectedLen : ℕ) : Except CryptoError Unit :=
  if expectedLen = 32 then do
    let publicKey ← okOr (toVector? 32 publicKey) .badLength
    refuseIf (canonicalX25519Public publicKey = false) .badKey
  else if expectedLen = 65 then do
    refuseIf (publicKey.length ≠ 65 ∨ publicKey.head? ≠ some 0x04) .badLength
    refuseIf (k.p256.fromSec1Bytes publicKey |>.isNone) .badKey
  else .error .badLength

/-! ### Sealing -/

section Sealing

variable {γ : Type} (info aad plaintext : List UInt8) (rng : Rng γ)

/-- The nonce of a seal, hedged by the plaintext. -/
def sealNonce (g : γ) : Except CryptoError (Nonce × γ) := do
  let (nonceSeed, g) := rng.fillBytes g nonceLen
  let nonce ← Kdf.hedgedNonce sha nonceLen .sealNonce nonceSeed.toList plaintext aad
  .ok (nonce, g)

/-- Public key from a private key. -/
def x25519Public (secret : X25519Secret) : Digest := k.x25519.publicKey secret.expose

/-- Seal to an X25519 key. -/
def seal_ (recipientPublic : Digest) (g : γ) : Except CryptoError (SealedBlob × γ) := do
  refuseIf (canonicalX25519Public recipientPublic = false) .badKey
  let (ephBytes, g) := rng.fillBytes g 32
  let ephPk := k.x25519.publicKey ephBytes
  let (nonce, g) ← sealNonce sha aad plaintext rng g
  let shared := k.x25519.diffieHellman ephBytes recipientPublic
  let blob ← sealCore sha c shared ephPk.toList recipientPublic.toList info aad plaintext nonce
  .ok (blob, g)

/-- Seal to a P-256 key. -/
def sealP256 (recipientPublic : List UInt8) (g : γ) : Except CryptoError (SealedBlob × γ) := do
  validateDhPublic k recipientPublic 65
  let (secret, g) := k.p256.generateFromRng rng g
  let eph := p256Agreement k secret
  let (nonce, g) ← sealNonce sha aad plaintext rng g
  let shared ← eph.agree recipientPublic
  let blob ← sealCore sha c shared eph.publicKey recipientPublic info aad plaintext nonce
  .ok (blob, g)

/-- Seal a slot with X-Wing. The classical half of the recipient's key is the canonical one, because
the recipient reconstructs it. -/
def sealXwing (recipientPublic : List UInt8) (g : γ) : Except CryptoError (SealedBlob × γ) := do
  refuseIf (recipientPublic.length ≠ Xwing.publicKeyLen) .badLength
  let (_, classical) ← okOr (splitLastChunk? 32 recipientPublic) .badLength
  validateDhPublic k classical.toList 32
  let ((shared, ciphertext), g) ← Xwing.encapsulate k recipientPublic rng g
  let (nonce, g) ← sealNonce sha aad plaintext rng g
  let blob ← sealCore sha c shared ciphertext recipientPublic info aad plaintext nonce
  .ok (blob, g)

/-- Seal a slot with the hardware hybrid. -/
def sealMlkemP256 (recipientPublic : List UInt8) (g : γ) :
    Except CryptoError (SealedBlob × γ) := do
  let ((shared, ciphertext), g) ← MlkemP256.encapsulate k recipientPublic rng g
  let (nonce, g) ← sealNonce sha aad plaintext rng g
  let blob ← sealCore sha c shared ciphertext recipientPublic info aad plaintext nonce
  .ok (blob, g)

end Sealing

/-! ### Opening -/

section Opening

variable (blob : SealedBlob) (info aad : List UInt8)

/-- Open a secret sealed to an X25519 key. -/
def open_ (recipientSecret : X25519Secret) : Except CryptoError (List UInt8) := do
  refuseIf (blob.ct.length < tagLen) .badLength
  let enc ← okOr (toVector? 32 blob.enc) .badLength
  validateDhPublic k enc.toList 32
  -- the own public key is recomputed
  let ownPk := k.x25519.publicKey recipientSecret.expose
  let shared := k.x25519.diffieHellman recipientSecret.expose enc
  let key ← deriveKey sha shared enc.toList ownPk.toList info
  openCore c key blob aad

/-- Open through an agreement provider. -/
def openWith (agreement : KeyAgreement) : Except CryptoError (List UInt8) := do
  refuseIf (blob.ct.length < tagLen) .badLength
  let ownPk := agreement.publicKey
  validateDhPublic k ownPk ownPk.length
  validateDhPublic k blob.enc ownPk.length
  let shared ← agreement.agree blob.enc
  let key ← deriveKey sha shared blob.enc ownPk info
  openCore c key blob aad

/-- Open an X-Wing slot. -/
def openXwing (recipientSecret : Digest) : Except CryptoError (List UInt8) := do
  refuseIf (blob.ct.length < tagLen) .badLength
  let shared ← Xwing.decapsulate k recipientSecret blob.enc
  let ownPublic ← Xwing.publicKey k recipientSecret
  let key ← deriveKey sha shared blob.enc ownPublic info
  openCore c key blob aad

/-- Open a hardware-hybrid slot. -/
def openMlkemP256 (mlKemSeed : List.Vector UInt8 64) (classical : KeyAgreement) :
    Except CryptoError (List UInt8) := do
  refuseIf (blob.ct.length < tagLen) .badLength
  let shared ← MlkemP256.decapsulateWith k mlKemSeed classical blob.enc
  let ownPublic ← MlkemP256.publicKeyFromParts k mlKemSeed classical.publicKey
  let key ← deriveKey sha shared blob.enc ownPublic info
  openCore c key blob aad

end Opening

/-! ### Who holds a slot -/

/-- The secret half of a recipient's key, for each mechanism that is executed. -/
inductive RecipientKey where
  | x25519 (secret : X25519Secret)
  | p256 (secret : k.p256.SecretKey)
  | xWing (secret : Digest)
  | mlKemP256 (mlKemSeed : List.Vector UInt8 64) (secret : k.p256.SecretKey)

namespace RecipientKey

variable {k}

/-- The mechanism of the key. -/
def kem : RecipientKey k → KemAlg
  | x25519 _ => .x25519HkdfSha256
  | p256 _ => .p256HkdfSha256
  | xWing _ => .xWing
  | mlKemP256 _ _ => .mlKem768P256

/-- The public half. -/
def publicKey : RecipientKey k → Except CryptoError (List UInt8)
  | x25519 secret => .ok (x25519Public k secret).toList
  | p256 secret => .ok (k.p256.publicKey secret).toList
  | xWing secret => Xwing.publicKey k secret
  | mlKemP256 mlKemSeed secret =>
    MlkemP256.publicKeyFromParts k mlKemSeed (k.p256.publicKey secret).toList

/-- Open with the function of the mechanism. -/
def openBlob (blob : SealedBlob) (info aad : List UInt8) :
    RecipientKey k → Except CryptoError (List UInt8)
  | x25519 secret => open_ sha c k blob info aad secret
  | p256 secret => openWith sha c k blob info aad (p256Agreement k secret)
  | xWing secret => openXwing sha c k blob info aad secret
  | mlKemP256 mlKemSeed secret =>
    openMlkemP256 sha c k blob info aad mlKemSeed (p256Agreement k secret)

end RecipientKey

/-- The blob opens to the plaintext for every holder of the secret half of the public key. -/
def OpensFor (kem : KemAlg) (publicKey : List UInt8) (blob : SealedBlob)
    (info aad plaintext : List UInt8) : Prop :=
  ∀ key : RecipientKey k, key.kem = kem → key.publicKey = .ok publicKey →
    key.openBlob sha c blob info aad = .ok plaintext

/-! ### What is sealed opens -/

section Opens

variable {sha c k} {γ : Type} {rng : Rng γ} {g g' : γ} {info aad plaintext : List UInt8}
  {blob : SealedBlob}

/-- **The shared bodies match**: the derived key opens what it has sealed. -/
theorem openCore_of_sealCore (hc : c.Lawful) {shared : Digest} {ephPublic recipientPublic : List UInt8}
    {nonce : Nonce}
    (h : sealCore sha c shared ephPublic recipientPublic info aad plaintext nonce = .ok blob) :
    blob.enc = ephPublic ∧ ¬blob.ct.length < tagLen ∧
      ∃ key, deriveKey sha shared ephPublic recipientPublic info = .ok key ∧
        openCore c key blob aad = .ok plaintext := by
  simp only [sealCore, Except.bind_eq_ok_iff, Except.okOr_eq_ok_iff, Except.ok.injEq] at h
  obtain ⟨key, hkey, ct, hct, rfl⟩ := h
  refine ⟨rfl, ?_, key, hkey, ?_⟩
  · show ¬ct.length < tagLen
    rw [hc.length_encrypt hct]
    omega
  · exact Except.okOr_eq_ok_iff.mpr (hc.decrypt_encrypt hct)

theorem validateDhPublic_x25519 {p : Digest} (h : canonicalX25519Public p = true) :
    validateDhPublic k p.toList 32 = .ok () := by
  simp [validateDhPublic, h]

theorem validateDhPublic_p256 (hk : k.Lawful) (secret : k.p256.SecretKey) :
    validateDhPublic k (k.p256.publicKey secret).toList 65 = .ok () := by
  obtain ⟨point, hpoint⟩ := hk.p256_fromSec1Bytes secret
  have hlen : (k.p256.publicKey secret).toList.length = 65 := List.Vector.toList_length _
  rw [validateDhPublic, if_neg (by decide), if_pos rfl, Except.refuseIf_of_not, Except.ok_bind,
    Except.refuseIf_of_not]
  · simp [hpoint]
  · simp [hlen, hk.p256_uncompressed secret]

/-- A blob sealed to an X25519 key is opened by its holder. -/
theorem opensFor_of_seal (hk : k.Lawful) (hc : c.Lawful) {recipientPublic : Digest}
    (h : seal_ sha c k info aad plaintext rng recipientPublic g = .ok (blob, g')) :
    OpensFor sha c k .x25519HkdfSha256 recipientPublic.toList blob info aad plaintext := by
  rintro (secret | - | - | -) ⟨⟩ hpk
  obtain rfl : x25519Public k secret = recipientPublic :=
    List.Vector.toList_injective (Except.ok.inj hpk)
  simp only [seal_, Except.bind_eq_ok_iff, Prod.exists, Except.ok.injEq, Prod.mk.injEq] at h
  obtain ⟨-, -, nonce, -, -, blob, hseal, rfl, -⟩ := h
  obtain ⟨henc, hct, key, hkey, hopen⟩ := openCore_of_sealCore hc hseal
  show open_ sha c k blob info aad secret = .ok plaintext
  rw [open_, Except.refuseIf_of_not hct, henc]
  simp only [toVector?_toList, Except.okOr_some, Except.ok_bind,
    validateDhPublic_x25519 (hk.x25519_canonical _)]
  rw [hk.x25519_comm secret.expose]
  exact Except.bind_eq_ok_iff.mpr ⟨key, hkey, hopen⟩

/-- The same for P-256. -/
theorem opensFor_of_sealP256 (hk : k.Lawful) (hc : c.Lawful) {recipientPublic : List UInt8}
    (h : sealP256 sha c k info aad plaintext rng recipientPublic g = .ok (blob, g')) :
    OpensFor sha c k .p256HkdfSha256 recipientPublic blob info aad plaintext := by
  rintro (- | secret | - | -) ⟨⟩ hpk
  obtain rfl := Except.ok.inj hpk
  simp only [sealP256, Except.bind_eq_ok_iff, Prod.exists, Except.ok.injEq, Prod.mk.injEq] at h
  obtain ⟨-, -, nonce, -, -, shared, hshared, blob, hseal, rfl, -⟩ := h
  obtain ⟨henc, hct, key, hkey, hopen⟩ := openCore_of_sealCore hc hseal
  -- both sides reach the same secret
  obtain ⟨shared', heph, hholder⟩ := agree_comm hk (k.p256.generateFromRng rng g).1 secret
  obtain rfl := Except.ok.inj (hshared.symm.trans heph)
  have hlen : (p256Agreement k secret).publicKey.length = 65 := (k.p256.publicKey secret).toList_length
  have henc' : blob.enc = (k.p256.publicKey (k.p256.generateFromRng rng g).1).toList := henc
  show openWith sha c k blob info aad (p256Agreement k secret) = .ok plaintext
  rw [openWith, Except.refuseIf_of_not hct]
  simp only [hlen, Except.ok_bind, henc', hholder]
  rw [show (p256Agreement k secret).publicKey = (k.p256.publicKey secret).toList from rfl,
    validateDhPublic_p256 hk, validateDhPublic_p256 hk, Except.ok_bind, Except.ok_bind]
  exact Except.bind_eq_ok_iff.mpr ⟨key, hkey, hopen⟩

/-- The same for X-Wing, where both halves contribute. -/
theorem opensFor_of_sealXwing (hk : k.Lawful) (hc : c.Lawful) {recipientPublic : List UInt8}
    (h : sealXwing sha c k info aad plaintext rng recipientPublic g = .ok (blob, g')) :
    OpensFor sha c k .xWing recipientPublic blob info aad plaintext := by
  rintro (- | - | secret | -) ⟨⟩ hpk
  simp only [sealXwing, Xwing.encapsulate, Except.bind_eq_ok_iff, Prod.exists, Except.ok.injEq,
    Prod.mk.injEq] at h
  obtain ⟨-, -, _, _, -, -, -, shared, ct, _, ⟨_, _, hencaps, ⟨rfl, rfl⟩, rfl⟩, nonce, _, -, blob,
    hseal, rfl, -⟩ := h
  obtain ⟨henc, hct, key, hkey, hopen⟩ := openCore_of_sealCore hc hseal
  have hdecaps := Xwing.decapsulate_encapsulateDerand hk hpk hencaps
  show openXwing sha c k blob info aad secret = .ok plaintext
  rw [openXwing, Except.refuseIf_of_not hct, Except.ok_bind, henc, hdecaps, Except.ok_bind,
    show Xwing.publicKey k secret = .ok recipientPublic from hpk, Except.ok_bind]
  exact Except.bind_eq_ok_iff.mpr ⟨key, hkey, hopen⟩

/-- And for ML-KEM with P-256. -/
theorem opensFor_of_sealMlkemP256 (hk : k.Lawful) (hc : c.Lawful) {recipientPublic : List UInt8}
    (h : sealMlkemP256 sha c k info aad plaintext rng recipientPublic g = .ok (blob, g')) :
    OpensFor sha c k .mlKem768P256 recipientPublic blob info aad plaintext := by
  rintro (- | - | - | ⟨mlKemSeed, secret⟩) ⟨⟩ hpk
  simp only [sealMlkemP256, MlkemP256.encapsulate, Except.bind_eq_ok_iff, Prod.exists,
    Except.ok.injEq, Prod.mk.injEq] at h
  obtain ⟨shared, ct, _, ⟨_, _, hencaps, ⟨rfl, rfl⟩, rfl⟩, nonce, _, -, blob, hseal, rfl, -⟩ := h
  obtain ⟨henc, hct, key, hkey, hopen⟩ := openCore_of_sealCore hc hseal
  have hdecaps := MlkemP256.decapsulateWith_encapsulateDerand hk hpk hencaps
  show openMlkemP256 sha c k blob info aad mlKemSeed (p256Agreement k secret) = .ok plaintext
  rw [openMlkemP256, Except.refuseIf_of_not hct, Except.ok_bind, henc, hdecaps, Except.ok_bind]
  exact Except.bind_eq_ok_iff.mpr ⟨recipientPublic, hpk,
    Except.bind_eq_ok_iff.mpr ⟨key, hkey, hopen⟩⟩

end Opens

end OpenCrate.Crypto.Seal
