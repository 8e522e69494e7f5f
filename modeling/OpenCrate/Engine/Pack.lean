import OpenCrate.Crypto.Seal
import OpenCrate.Crypto.Wrap
import OpenCrate.Format.Content
import OpenCrate.Format.KeyMaterial
import OpenCrate.Format.Strength
import OpenCrate.Format.Verify

/-!
# The packer

`oc-engine`: the first call draws the secrets of a file and releases its payload key, the second one
assembles the header and the mutable region. The header is assembled twice, because key material is
bound to a hash of the header that excludes it.

The packer's own guard against a change of that hash never fires, and the slots it writes keep the
strength rule: the author slot, which carries both shares, is not weaker than the recipient slot.
-/

namespace OpenCrate.Engine

open Crypto Format
open Except (refuseIf okOr)

/-! ### Requests -/

/-- Engine failure. -/
inductive EngineError where
  | format (e : FormatError)
  | crypto (e : CryptoError)
  /-- The assembled header is internally inconsistent. -/
  | coreHashMismatch
  /-- Assembly changed the planned chunk size or recipient. -/
  | planMismatch
  /-- Hybrid recipient, but no author hybrid half was supplied. -/
  | missingAuthorHybridKey
  deriving DecidableEq

/-- Algorithm suite used by this engine. -/
def suite : Suite := ⟨.ed25519, .xChaCha20Poly1305, .blake3⟩

/-- Whom the file addresses besides the author's device. -/
inductive Recipient where
  | none
  | identity (publicKey : Digest)
  | hybrid (publicKey : List.Vector UInt8 Xwing.publicKeyLen)
  | hardwareHybrid (publicKey : List.Vector UInt8 MlkemP256.publicKeyLen)
  | claim (secret : ClaimSecret)
  deriving DecidableEq

/-- Recipient slot that will appear in the header: the claim code has become a commitment. -/
inductive RecipientPlan where
  | none
  | identity (publicKey : Digest)
  | hybrid (publicKey : List.Vector UInt8 Xwing.publicKeyLen)
  | hardwareHybrid (publicKey : List.Vector UInt8 MlkemP256.publicKeyLen)
  | claim (commitment : Digest)
  deriving DecidableEq

/-- Public keys the engine places in the header and slots. -/
structure PublicKeys where
  /-- Author verification key. -/
  author : Digest
  /-- Server sealing key. -/
  authoritySealing : Digest
  /-- Pinned lease-verification key. -/
  authorityLeaseVerify : Digest
  /-- Author-device software key. -/
  device : Digest
  deviceHardwareHybrid : Option (List UInt8)
  deviceHybrid : Option (List UInt8)
  /-- Hardware device key, if available. -/
  deviceTpm : Option (List UInt8)
  deriving DecidableEq

/-- What to pack and under which rules. -/
structure PackRequest where
  originalName : String
  policy : Policy
  chunkSize : UInt32
  orgId : List UInt8
  authorityUrls : List String
  recipient : Recipient
  coauthors : Option Coauthors
  deriving DecidableEq

/-- What the engine gives the device to process the stream. -/
structure Plan where
  fileId : List.Vector UInt8 16
  payloadKey : PayloadKey
  chunkSize : UInt32
  aead : AeadAlg
  deriving DecidableEq

/-- What the device reports after processing the stream. -/
structure SealedInfo where
  totalLen : UInt64
  chunkCount : UInt32
  treeRoot : Digest
  deriving DecidableEq

/-- Completed header and mutable region. -/
structure Assembled where
  header : List UInt8
  /-- Mutable region with its code already applied. -/
  contentDesc : List UInt8
  deriving DecidableEq

/-- One file's secrets, living between the engine's two calls. -/
structure Session where
  fileId : List.Vector UInt8 16
  headerSalt : Digest
  chunkSize : UInt32
  cek : Cek
  secretA : SecretA
  secretB : SecretB
  plan : RecipientPlan
  deriving DecidableEq

section Packer

variable {γ : Type} (sha : Sha2) (c : XChaCha) (k : Kems) (rng : Rng γ)

/-- Whether the recipient is the planned one. -/
def RecipientPlan.matches_ (fileId : List.Vector UInt8 16) : RecipientPlan → Recipient → Bool
  | .none, .none => true
  | .identity planned, .identity publicKey => planned = publicKey
  | .hybrid planned, .hybrid publicKey => planned = publicKey
  | .hardwareHybrid planned, .hardwareHybrid publicKey => planned = publicKey
  | .claim planned, .claim secret => planned = (Kdf.secretBFromClaim sha fileId secret).2
  | _, _ => false

/-! ### The first call -/

/-- The recipient share and the slot it will have. The share is random in all modes except the claim
code, which yields it. -/
def planRecipient (fileId : List.Vector UInt8 16) (recipient : Recipient) (g : γ) :
    (SecretB × RecipientPlan) × γ :=
  let (share, g') := rng.fillBytes g secretLen
  match recipient with
  | .none => ((⟨share⟩, .none), g')
  | .identity publicKey => ((⟨share⟩, .identity publicKey), g')
  | .hybrid publicKey => ((⟨share⟩, .hybrid publicKey), g')
  | .hardwareHybrid publicKey => ((⟨share⟩, .hardwareHybrid publicKey), g')
  | .claim secret =>
    -- nothing is drawn here
    let (share, commit) := Kdf.secretBFromClaim sha fileId secret
    ((share, .claim commit), g)

/-- First call: generate secrets and release the payload key. The order of the draws is frozen. -/
def plan (request : PackRequest) (g : γ) : (Session × Plan) × γ :=
  let (fileId, g) := rng.fillBytes g 16
  let (headerSalt, g) := rng.fillBytes g 32
  let (cek, g) := rng.fillBytes g secretLen
  let (secretA, g) := rng.fillBytes g secretLen
  let ((secretB, recipientPlan), g) := planRecipient sha rng fileId request.recipient g
  let payloadKey := Kdf.derivePayloadKey sha ⟨cek⟩ headerSalt fileId request.chunkSize suite.aead
  ((⟨fileId, headerSalt, request.chunkSize, ⟨cek⟩, ⟨secretA⟩, secretB, recipientPlan⟩,
    ⟨fileId, payloadKey, request.chunkSize, suite.aead⟩), g)

/-! ### Slots -/

/-- Seal one slot. The mechanism is named once, and enters both the purpose and the slot; the
associated data is the policy hash. -/
def sealSlotBy (kem : KemAlg)
    (sealBlob : (info aad plaintext : List UInt8) → γ → Except CryptoError (Seal.SealedBlob × γ))
    (kind : SlotKind) (recipientPublic : List UInt8) (purpose : Label)
    (fileId : List.Vector UInt8 16) (policyHash : Digest) (plaintext : List UInt8)
    (commitment : Digest) (g : γ) : Except EngineError (KeySlot × γ) := do
  let info := Seal.slotInfo purpose kem fileId
  let (blob, g) ← (sealBlob info policyHash.toList plaintext g).mapError .crypto
  .ok (.known ⟨kind, kem, blob.enc, blob.nonce, blob.ct, commitment, some recipientPublic, none⟩, g)

/-- Seal a slot to an X25519 key. -/
def sealSlot (kind : SlotKind) (recipientPublic : Digest) :=
  sealSlotBy Seal.defaultSealingKem
    (fun info aad plaintext ↦ Seal.seal_ sha c k info aad plaintext rng recipientPublic) kind
    recipientPublic.toList

/-- Seal a slot to a P-256 key. -/
def sealSlotP256 (kind : SlotKind) (recipientPublic : List UInt8) :=
  sealSlotBy .p256HkdfSha256
    (fun info aad plaintext ↦ Seal.sealP256 sha c k info aad plaintext rng recipientPublic) kind
    recipientPublic

/-- Seal a slot with the X-Wing hybrid. -/
def sealSlotXwing (kind : SlotKind) (recipientPublic : List UInt8) :=
  sealSlotBy .xWing
    (fun info aad plaintext ↦ Seal.sealXwing sha c k info aad plaintext rng recipientPublic) kind
    recipientPublic

/-- Seal a slot with the hardware hybrid. -/
def sealSlotMlkemP256 (kind : SlotKind) (recipientPublic : List UInt8) :=
  sealSlotBy .mlKem768P256
    (fun info aad plaintext ↦ Seal.sealMlkemP256 sha c k info aad plaintext rng recipientPublic) kind
    recipientPublic

/-- Claim-code slot: commitment and nothing more. -/
def claimSlot (claimCommit commitment : Digest) : KeySlot :=
  .known ⟨.recipientClaim, Seal.defaultSealingKem, List.replicate 32 0, List.Vector.replicate 24 0, [],
    commitment, none, some claimCommit⟩

/-- What the author slot carries. -/
def bothShares (a : SecretA) (b : SecretB) : List UInt8 := a.expose.toList ++ b.expose.toList

/-- The recipient slot, if there is one. -/
def Session.recipientSlots (s : Session) (policyHash commitment : Digest) (g : γ) :
    Except EngineError (List KeySlot × γ) :=
  match s.plan with
  | .none => .ok ([], g)
  | .identity publicKey => do
    let (slot, g) ← sealSlot sha c k rng .recipientIdentity publicKey .slotRecipient s.fileId
      policyHash s.secretB.expose.toList commitment g
    .ok ([slot], g)
  | .hardwareHybrid publicKey => do
    let (slot, g) ← sealSlotMlkemP256 sha c k rng .recipientIdentity publicKey.toList .slotRecipient
      s.fileId policyHash s.secretB.expose.toList commitment g
    .ok ([slot], g)
  | .hybrid publicKey => do
    let (slot, g) ← sealSlotXwing sha c k rng .recipientIdentity publicKey.toList .slotRecipient
      s.fileId policyHash s.secretB.expose.toList commitment g
    .ok ([slot], g)
  -- there is nothing to seal
  | .claim claimCommit => .ok ([claimSlot claimCommit commitment], g)

/-- Whether the planned recipient is a software hybrid. -/
def RecipientPlan.isHybrid : RecipientPlan → Bool
  | .hybrid _ => true
  | _ => false

/-- Whether the planned recipient is a hardware hybrid. -/
def RecipientPlan.isHardwareHybrid : RecipientPlan → Bool
  | .hardwareHybrid _ => true
  | _ => false

/-- The author slot. A hybrid recipient requires the matching key of the author's device; a weaker slot
is not written instead. -/
def Session.authorSlot (s : Session) (keys : PublicKeys) (policyHash commitment : Digest) (g : γ) :
    Except EngineError (KeySlot × γ) :=
  match s.plan.isHardwareHybrid, keys.deviceHardwareHybrid with
  | true, some devicePublic =>
    sealSlotMlkemP256 sha c k rng .authorDevice devicePublic .slotAuthorDevice s.fileId policyHash
      (bothShares s.secretA s.secretB) commitment g
  | true, none => .error .missingAuthorHybridKey
  | false, _ =>
    match s.plan.isHybrid, keys.deviceHybrid, keys.deviceTpm with
    | true, some hybridPublic, _ =>
      sealSlotXwing sha c k rng .authorDevice hybridPublic .slotAuthorDevice s.fileId policyHash
        (bothShares s.secretA s.secretB) commitment g
    | true, none, _ => .error .missingAuthorHybridKey
    | false, _, some tpmPublic =>
      sealSlotP256 sha c k rng .authorDevice tpmPublic .slotAuthorDevice s.fileId policyHash
        (bothShares s.secretA s.secretB) commitment g
    | false, _, none =>
      sealSlot sha c k rng .authorDevice keys.device .slotAuthorDevice s.fileId policyHash
        (bothShares s.secretA s.secretB) commitment g

/-! ### The second call -/

namespace MetaTag

/-- Tag of the file name. -/
def name : UInt16 := 1

/-- Tag of the informational size. -/
def size : UInt16 := 2

end MetaTag

/-- Encrypt private metadata under its own key; the nonce stands before the ciphertext. -/
def sealPrivateMeta (cek : Cek) (headerSalt : Digest) (fileId : List.Vector UInt8 16)
    (request : PackRequest) (totalLen : UInt64) (g : γ) : Except EngineError (List UInt8 × γ) := do
  let w ← (TlvWriter.new.put MetaTag.name (utf8 request.originalName)).mapError .format
  let w ← (w.put MetaTag.size (toLeBytes totalLen)).mapError .format
  let key := Kdf.derivePrivateMetaKey sha cek headerSalt fileId
  let (nonceSeed, g) := rng.fillBytes g Crypto.nonceLen
  let (nonce, ct) ← (sealMetadataHedged sha c key fileId nonceSeed w.finish).mapError .crypto
  .ok (nonce.toList ++ ct, g)

/-- The header without key material. -/
def Session.skeleton (s : Session) (request : PackRequest) (keys : PublicKeys) (sealed : SealedInfo)
    (privateMeta : List UInt8) : Header where
  containerVersion := containerVersion
  minReaderVersion := supportedReaderVersion
  fileId := s.fileId
  suite := suite
  authorKey := keys.author
  headerSalt := s.headerSalt
  chunkSize := request.chunkSize
  originalRoot := sealed.treeRoot
  policy := request.policy
  keySlots := []
  authority := ⟨request.authorityUrls, keys.authoritySealing, keys.authorityLeaseVerify⟩
  privateMeta := privateMeta
  prevHeaderHash := none
  orgId := request.orgId
  class_ := 0
  footerOffset := none
  wrappedCek := List.Vector.replicate Format.wrappedCekLen 0
  coauthors := request.coauthors

/-- The description of a file that was not edited. -/
def SealedInfo.contentDesc (sealed : SealedInfo) : ContentDesc where
  totalLen := sealed.totalLen
  chunkCount := sealed.chunkCount
  treeRoot := sealed.treeRoot
  versionCounter := 0
  footerOffset := none
  editor := none

/-- Second call: assemble header and mutable region. -/
def Session.assemble (s : Session) (request : PackRequest) (keys : PublicKeys) (sealed : SealedInfo)
    (g : γ) : Except EngineError (Assembled × γ) := do
  refuseIf (request.chunkSize ≠ s.chunkSize ∨
    s.plan.matches_ sha s.fileId request.recipient = false) .planMismatch
  let (privateMeta, g) ← sealPrivateMeta sha c rng s.cek s.headerSalt s.fileId request
    sealed.totalLen g
  let header := s.skeleton request keys sealed privateMeta
  let skeleton ← header.encode.mapError .format
  let parsed ← (Header.decode skeleton).mapError .format
  let coreHash ← (Header.coreHash sha.sha256 skeleton parsed.spans).mapError .format
  let policyHash ← (Header.policyHash sha.sha256 skeleton parsed.spans).mapError .format
  let kek := Kdf.deriveKek sha s.fileId request.orgId s.secretA s.secretB
  let ((wrappedCek, commitment), g) ← (Wrap.wrapCek sha c kek s.cek coreHash rng g).mapError .crypto
  let (server, g) ← sealSlot sha c k rng .server keys.authoritySealing .slotServer s.fileId policyHash
    s.secretA.expose.toList commitment g
  let (recipient, g) ← s.recipientSlots sha c k rng policyHash commitment g
  let (author, g) ← s.authorSlot sha c k rng keys policyHash commitment g
  let header := { header with keySlots := server :: recipient ++ [author], wrappedCek }
  let finalBytes ← header.encode.mapError .format
  let finalParsed ← (Header.decode finalBytes).mapError .format
  let recomputed ← (Header.coreHash sha.sha256 finalBytes finalParsed.spans).mapError .format
  refuseIf (recomputed ≠ coreHash) .coreHashMismatch
  let macKey := Kdf.deriveContentMacKey sha s.cek s.headerSalt s.fileId
  let contentDesc ← (sealed.contentDesc.encode sha macKey s.fileId header.containerVersion).mapError
    .format
  .ok (⟨finalBytes, contentDesc⟩, g)

end Packer

/-! ### What a slot is -/

section Slots

variable {γ : Type} {sha : Sha2} {c : XChaCha} {k : Kems} {rng : Rng γ} {g g' : γ}

/-- The sealed secret of a slot. -/
def slotBlob (slot : KnownSlot) : Seal.SealedBlob := ⟨slot.enc, slot.nonce, slot.ct⟩

variable (sha c k) in
/-- A slot of the kind and the mechanism that was sealed to the public key. Under the laws of the
mechanisms it opens for whoever holds the secret half. -/
structure SealedAs (kind : SlotKind) (kem : KemAlg) (publicKey : List UInt8) (purpose : Label)
    (fileId : List.Vector UInt8 16) (policyHash : Digest) (plaintext : List UInt8) (commitment : Digest)
    (slot : KnownSlot) : Prop where
  kind_eq : slot.kind = kind
  kem_eq : slot.kem = kem
  keyFpr_eq : slot.keyFpr = some publicKey
  commitment_eq : slot.commitment = commitment
  opens : k.Lawful → c.Lawful → Seal.OpensFor sha c k kem publicKey (slotBlob slot)
    (Seal.slotInfo purpose kem fileId) policyHash.toList plaintext

section Sealing

variable {kind : SlotKind} {purpose : Label} {fileId : List.Vector UInt8 16}
  {policyHash commitment : Digest} {plaintext : List UInt8} {slot : KeySlot}

/-- **What sealing a slot gives**, whatever the mechanism: a slot that opens to what was sealed. -/
theorem exists_of_sealSlotBy {kem : KemAlg} {publicKey : List UInt8}
    {sealBlob : (info aad plaintext : List UInt8) → γ → Except CryptoError (Seal.SealedBlob × γ)}
    (hopens : k.Lawful → c.Lawful → ∀ {info aad blob}, sealBlob info aad plaintext g = .ok (blob, g') →
      Seal.OpensFor sha c k kem publicKey blob info aad plaintext)
    (h : sealSlotBy kem sealBlob kind publicKey purpose fileId policyHash plaintext commitment g =
      .ok (slot, g')) :
    ∃ known, slot = .known known ∧ SealedAs sha c k kind kem publicKey purpose fileId policyHash
      plaintext commitment known := by
  simp only [sealSlotBy, Except.bind_eq_ok_iff, Except.mapError_eq_ok_iff, Prod.exists,
    Except.ok.injEq, Prod.mk.injEq] at h
  obtain ⟨blob, _, hblob, rfl, rfl⟩ := h
  exact ⟨_, rfl, rfl, rfl, rfl, rfl, fun hk hc ↦ hopens hk hc hblob⟩

/-- The four mechanisms are instances of it. -/
theorem exists_of_sealSlot {publicKey : Digest}
    (h : sealSlot sha c k rng kind publicKey purpose fileId policyHash plaintext commitment g =
      .ok (slot, g')) :
    ∃ known, slot = .known known ∧ SealedAs sha c k kind .x25519HkdfSha256 publicKey.toList purpose
      fileId policyHash plaintext commitment known :=
  exists_of_sealSlotBy (fun hk hc _ _ _ ↦ Seal.opensFor_of_seal hk hc) h

theorem exists_of_sealSlotP256 {publicKey : List UInt8}
    (h : sealSlotP256 sha c k rng kind publicKey purpose fileId policyHash plaintext commitment g =
      .ok (slot, g')) :
    ∃ known, slot = .known known ∧ SealedAs sha c k kind .p256HkdfSha256 publicKey purpose fileId
      policyHash plaintext commitment known :=
  exists_of_sealSlotBy (fun hk hc _ _ _ ↦ Seal.opensFor_of_sealP256 hk hc) h

theorem exists_of_sealSlotXwing {publicKey : List UInt8}
    (h : sealSlotXwing sha c k rng kind publicKey purpose fileId policyHash plaintext commitment g =
      .ok (slot, g')) :
    ∃ known, slot = .known known ∧ SealedAs sha c k kind .xWing publicKey purpose fileId policyHash
      plaintext commitment known :=
  exists_of_sealSlotBy (fun hk hc _ _ _ ↦ Seal.opensFor_of_sealXwing hk hc) h

theorem exists_of_sealSlotMlkemP256 {publicKey : List UInt8}
    (h : sealSlotMlkemP256 sha c k rng kind publicKey purpose fileId policyHash plaintext commitment g =
      .ok (slot, g')) :
    ∃ known, slot = .known known ∧ SealedAs sha c k kind .mlKem768P256 publicKey purpose fileId
      policyHash plaintext commitment known :=
  exists_of_sealSlotBy (fun hk hc _ _ _ ↦ Seal.opensFor_of_sealMlkemP256 hk hc) h

end Sealing

/-- The mechanism and the key of a planned recipient with a sealed slot. -/
def RecipientPlan.key? : RecipientPlan → Option (KemAlg × List UInt8)
  | .identity publicKey => some (.x25519HkdfSha256, publicKey.toList)
  | .hybrid publicKey => some (.xWing, publicKey.toList)
  | .hardwareHybrid publicKey => some (.mlKem768P256, publicKey.toList)
  | .none | .claim _ => Option.none

/-- The strength that the recipient demands of the author slot. -/
def RecipientPlan.strength : RecipientPlan → Strength
  | .hybrid _ => .postQuantum
  | .hardwareHybrid _ => .postQuantumHardware
  | .none | .identity _ | .claim _ => .classical

/-- The strength of a plan is read off its flags. -/
theorem RecipientPlan.strength_of_isHardwareHybrid {plan : RecipientPlan}
    (h : plan.isHardwareHybrid = true) : plan.strength = .postQuantumHardware := by
  cases plan <;> first | rfl | cases h

theorem RecipientPlan.strength_of_isHybrid {plan : RecipientPlan} (h : plan.isHybrid = true) :
    plan.strength = .postQuantum := by
  cases plan <;> first | rfl | cases h

theorem RecipientPlan.strength_of_not_hybrid {plan : RecipientPlan}
    (hhardware : plan.isHardwareHybrid = false) (hhybrid : plan.isHybrid = false) :
    plan.strength = .classical := by
  cases plan with
  | hybrid _ => cases hhybrid
  | hardwareHybrid _ => cases hhardware
  | _ => rfl

/-- The key of the author's device for a mechanism. -/
def PublicKeys.deviceKey (keys : PublicKeys) : KemAlg → Option (List UInt8)
  | .x25519HkdfSha256 => some keys.device.toList
  | .p256HkdfSha256 => keys.deviceTpm
  | .xWing => keys.deviceHybrid
  | .mlKem768P256 => keys.deviceHardwareHybrid
  | .rsaOaepSha256 => none

variable {s : Session} {keys : PublicKeys} {policyHash commitment : Digest}

/-- The recipient slot is the one that was planned. -/
theorem exists_of_recipientSlots {slots : List KeySlot}
    (h : s.recipientSlots sha c k rng policyHash commitment g = .ok (slots, g')) :
    s.plan = .none ∧ slots = [] ∨
      (∃ claimCommit, s.plan = .claim claimCommit ∧ slots = [claimSlot claimCommit commitment]) ∨
      ∃ kem publicKey known, s.plan.key? = some (kem, publicKey) ∧
        s.plan.strength = .ofKem kem.toU8 ∧ slots = [.known known] ∧
        SealedAs sha c k .recipientIdentity kem publicKey .slotRecipient s.fileId policyHash
          s.secretB.expose.toList commitment known := by
  -- the branches of the source: none, three kinds of keys, and a claim code
  unfold Session.recipientSlots at h
  split at h
  case h_1 hplan =>
    obtain ⟨rfl, -⟩ := Prod.mk.inj (Except.ok.inj h)
    exact .inl ⟨hplan, rfl⟩
  case h_2 publicKey hplan =>
    obtain ⟨⟨slot, _⟩, hslot, hslots⟩ := Except.bind_eq_ok_iff.mp h
    obtain ⟨rfl, -⟩ := Prod.mk.inj (Except.ok.inj hslots)
    obtain ⟨known, rfl, hknown⟩ := exists_of_sealSlot hslot
    exact .inr (.inr ⟨_, _, known, by rw [hplan]; rfl, by rw [hplan]; rfl, rfl, hknown⟩)
  case h_3 publicKey hplan =>
    obtain ⟨⟨slot, _⟩, hslot, hslots⟩ := Except.bind_eq_ok_iff.mp h
    obtain ⟨rfl, -⟩ := Prod.mk.inj (Except.ok.inj hslots)
    obtain ⟨known, rfl, hknown⟩ := exists_of_sealSlotMlkemP256 hslot
    exact .inr (.inr ⟨_, _, known, by rw [hplan]; rfl, by rw [hplan]; rfl, rfl, hknown⟩)
  case h_4 publicKey hplan =>
    obtain ⟨⟨slot, _⟩, hslot, hslots⟩ := Except.bind_eq_ok_iff.mp h
    obtain ⟨rfl, -⟩ := Prod.mk.inj (Except.ok.inj hslots)
    obtain ⟨known, rfl, hknown⟩ := exists_of_sealSlotXwing hslot
    exact .inr (.inr ⟨_, _, known, by rw [hplan]; rfl, by rw [hplan]; rfl, rfl, hknown⟩)
  case h_5 claimCommit hplan =>
    obtain ⟨rfl, -⟩ := Prod.mk.inj (Except.ok.inj h)
    exact .inr (.inl ⟨claimCommit, hplan, rfl⟩)

/-- **The author slot has the strength that the recipient demands**, whatever keys the device has. -/
theorem exists_of_authorSlot {slot : KeySlot}
    (h : s.authorSlot sha c k rng keys policyHash commitment g = .ok (slot, g')) :
    ∃ kem publicKey known, keys.deviceKey kem = some publicKey ∧
      s.plan.strength = .ofKem kem.toU8 ∧ slot = .known known ∧
      SealedAs sha c k .authorDevice kem publicKey .slotAuthorDevice s.fileId policyHash
        (bothShares s.secretA s.secretB) commitment known := by
  unfold Session.authorSlot at h
  split at h
  case h_1 devicePublic hhardware hkey =>
    obtain ⟨known, rfl, hknown⟩ := exists_of_sealSlotMlkemP256 h
    exact ⟨.mlKem768P256, _, known, hkey, RecipientPlan.strength_of_isHardwareHybrid hhardware, rfl,
      hknown⟩
  case h_2 => cases h
  case h_3 hhardware =>
    split at h
    case h_1 hybridPublic _ hhybrid hkey =>
      obtain ⟨known, rfl, hknown⟩ := exists_of_sealSlotXwing h
      exact ⟨.xWing, _, known, hkey, RecipientPlan.strength_of_isHybrid hhybrid, rfl, hknown⟩
    case h_2 => cases h
    case h_3 tpmPublic hhybrid hkey =>
      obtain ⟨known, rfl, hknown⟩ := exists_of_sealSlotP256 h
      exact ⟨.p256HkdfSha256, _, known, hkey,
        RecipientPlan.strength_of_not_hybrid hhardware hhybrid, rfl, hknown⟩
    case h_4 hhybrid _ =>
      obtain ⟨known, rfl, hknown⟩ := exists_of_sealSlot h
      exact ⟨.x25519HkdfSha256, _, known, rfl,
        RecipientPlan.strength_of_not_hybrid hhardware hhybrid, rfl, hknown⟩

end Slots

/-! ### Which failures there are -/

section Failures

variable {γ : Type} {sha : Sha2} {c : XChaCha} {k : Kems} {rng : Rng γ} {s : Session}
  {request : PackRequest} {keys : PublicKeys} {sealed : SealedInfo} {policyHash commitment : Digest}
  {g : γ}

/-- Only one step of the packer complains about the core hash. The errors of the others are of other kinds. -/
theorem mapError_format_ne_coreHashMismatch {α : Type} {x : Except FormatError α} :
    x.mapError EngineError.format ≠ .error .coreHashMismatch :=
  Except.mapError_ne_error nofun x

theorem mapError_crypto_ne_coreHashMismatch {α : Type} {x : Except CryptoError α} :
    x.mapError EngineError.crypto ≠ .error .coreHashMismatch :=
  Except.mapError_ne_error nofun x

theorem sealSlotBy_ne_coreHashMismatch {kem : KemAlg}
    {sealBlob : (info aad plaintext : List UInt8) → γ → Except CryptoError (Seal.SealedBlob × γ)}
    {kind : SlotKind} {publicKey plaintext : List UInt8} {purpose : Label}
    {fileId : List.Vector UInt8 16} :
    sealSlotBy kem sealBlob kind publicKey purpose fileId policyHash plaintext commitment g ≠
      .error .coreHashMismatch :=
  Except.bind_ne_error mapError_crypto_ne_coreHashMismatch fun _ _ ↦ Except.ok_ne_error

theorem recipientSlots_ne_coreHashMismatch :
    s.recipientSlots sha c k rng policyHash commitment g ≠ .error .coreHashMismatch := by
  unfold Session.recipientSlots
  split
  case h_1 => exact Except.ok_ne_error
  case h_5 => exact Except.ok_ne_error
  all_goals exact Except.bind_ne_error sealSlotBy_ne_coreHashMismatch fun _ _ ↦ Except.ok_ne_error

theorem authorSlot_ne_coreHashMismatch :
    s.authorSlot sha c k rng keys policyHash commitment g ≠ .error .coreHashMismatch := by
  unfold Session.authorSlot
  split
  case h_1 => exact sealSlotBy_ne_coreHashMismatch
  case h_2 => exact nofun
  case h_3 =>
    split
    case h_2 => exact nofun
    all_goals exact sealSlotBy_ne_coreHashMismatch

theorem sealPrivateMeta_ne_coreHashMismatch {totalLen : UInt64} :
    sealPrivateMeta sha c rng s.cek s.headerSalt s.fileId request totalLen g ≠
      .error .coreHashMismatch := by
  refine Except.bind_ne_error mapError_format_ne_coreHashMismatch fun _ _ ↦ ?_
  refine Except.bind_ne_error mapError_format_ne_coreHashMismatch fun _ _ ↦ ?_
  exact Except.bind_ne_error mapError_crypto_ne_coreHashMismatch fun _ _ ↦ Except.ok_ne_error

/-- **The guard of the second pass never fires.** -/
theorem assemble_ne_coreHashMismatch :
    s.assemble sha c k rng request keys sealed g ≠ .error .coreHashMismatch := by
  refine Except.bind_ne_error (by simp) fun _ _ ↦ ?_
  refine Except.bind_ne_error sealPrivateMeta_ne_coreHashMismatch fun _ _ ↦ ?_
  refine Except.bind_ne_error mapError_format_ne_coreHashMismatch fun skeleton hskeleton ↦ ?_
  refine Except.bind_ne_error mapError_format_ne_coreHashMismatch fun parsed hparsed ↦ ?_
  refine Except.bind_ne_error mapError_format_ne_coreHashMismatch fun coreHash hcore ↦ ?_
  refine Except.bind_ne_error mapError_format_ne_coreHashMismatch fun _ _ ↦ ?_
  refine Except.bind_ne_error mapError_crypto_ne_coreHashMismatch fun _ _ ↦ ?_
  refine Except.bind_ne_error sealSlotBy_ne_coreHashMismatch fun _ _ ↦ ?_
  refine Except.bind_ne_error recipientSlots_ne_coreHashMismatch fun _ _ ↦ ?_
  refine Except.bind_ne_error authorSlot_ne_coreHashMismatch fun _ _ ↦ ?_
  refine Except.bind_ne_error mapError_format_ne_coreHashMismatch fun finalBytes hfinal ↦ ?_
  refine Except.bind_ne_error mapError_format_ne_coreHashMismatch fun finalParsed hfinalParsed ↦ ?_
  refine Except.bind_ne_error mapError_format_ne_coreHashMismatch fun recomputed hrecomputed ↦ ?_
  rw [Except.mapError_eq_ok_iff] at hskeleton hparsed hcore hfinal hfinalParsed hrecomputed
  -- both headers have the same core
  have hsame : recomputed = coreHash := by
    rw [coreHash_with_keyMaterial sha.sha256 hskeleton hfinal hparsed hfinalParsed, hcore] at hrecomputed
    exact (Except.ok.inj hrecomputed).symm
  refine Except.bind_ne_error (by simp [hsame]) fun _ _ ↦ ?_
  exact Except.bind_ne_error mapError_format_ne_coreHashMismatch fun _ _ ↦ Except.ok_ne_error

end Failures

/-! ### What an assembly went through -/

section Assembly

variable {γ : Type} {sha : Sha2} {c : XChaCha} {k : Kems} {rng : Rng γ} {g g' : γ} {s : Session}
  {request : PackRequest} {keys : PublicKeys} {sealed : SealedInfo} {out : Assembled}

/-- The steps of an assembly that succeeded. -/
theorem exists_of_assemble (h : s.assemble sha c k rng request keys sealed g = .ok (out, g')) :
    request.chunkSize = s.chunkSize ∧ s.plan.matches_ sha s.fileId request.recipient = true ∧
      ∃ privateMeta skeleton parsed coreHash policyHash wrappedCek commitment server recipient author,
        (s.skeleton request keys sealed privateMeta).encode = .ok skeleton ∧
        Header.decode skeleton = .ok parsed ∧
        Header.coreHash sha.sha256 skeleton parsed.spans = .ok coreHash ∧
        Header.policyHash sha.sha256 skeleton parsed.spans = .ok policyHash ∧
        (∃ g g', Wrap.wrapCek sha c (Kdf.deriveKek sha s.fileId request.orgId s.secretA s.secretB)
          s.cek coreHash rng g = .ok ((wrappedCek, commitment), g')) ∧
        (∃ g g', sealSlot sha c k rng .server keys.authoritySealing .slotServer s.fileId policyHash
          s.secretA.expose.toList commitment g = .ok (server, g')) ∧
        (∃ g g', s.recipientSlots sha c k rng policyHash commitment g = .ok (recipient, g')) ∧
        (∃ g g', s.authorSlot sha c k rng keys policyHash commitment g = .ok (author, g')) ∧
        { s.skeleton request keys sealed privateMeta with
          keySlots := server :: recipient ++ [author], wrappedCek }.encode = .ok out.header ∧
        sealed.contentDesc.encode sha (Kdf.deriveContentMacKey sha s.cek s.headerSalt s.fileId)
          s.fileId containerVersion = .ok out.contentDesc := by
  simp only [Session.assemble, Except.bind_eq_ok_iff, Except.mapError_eq_ok_iff, Prod.exists,
    Except.refuseIf_eq_ok_iff, not_or, not_not, Bool.not_eq_false, Except.ok.injEq,
    Prod.mk.injEq] at h
  obtain ⟨_, ⟨hsize, hmatches⟩, privateMeta, _, -, skeleton, hskeleton, parsed, hparsed, coreHash,
    hcore, policyHash, hpolicy, wrappedCek, commitment, _, hwrap, server, _, hserver, recipient, _,
    hrecipient, author, _, hauthor, finalBytes, hfinal, _, -, _, -, _, -, contentDesc, hdesc, rfl,
    -⟩ := h
  exact ⟨hsize, hmatches, privateMeta, skeleton, parsed, coreHash, policyHash, wrappedCek, commitment,
    server, recipient, author, hskeleton, hparsed, hcore, hpolicy, ⟨_, _, hwrap⟩, ⟨_, _, hserver⟩,
    ⟨_, _, hrecipient⟩, ⟨_, _, hauthor⟩, hfinal, hdesc⟩

/-- **What was assembled is read back**, with the hashes to which key material was bound. -/
theorem exists_parsed_of_assemble (h : s.assemble sha c k rng request keys sealed g = .ok (out, g')) :
    ∃ parsed coreHash policyHash privateMeta wrappedCek commitment server recipient author,
      Header.decode out.header = .ok parsed ∧
      Header.coreHash sha.sha256 out.header parsed.spans = .ok coreHash ∧
      Header.policyHash sha.sha256 out.header parsed.spans = .ok policyHash ∧
      parsed.header = Header.normal { s.skeleton request keys sealed privateMeta with
        keySlots := .known server :: recipient ++ [.known author], wrappedCek } ∧
      (∃ g g', Wrap.wrapCek sha c (Kdf.deriveKek sha s.fileId request.orgId s.secretA s.secretB)
        s.cek coreHash rng g = .ok ((wrappedCek, commitment), g')) ∧
      SealedAs sha c k .server .x25519HkdfSha256 keys.authoritySealing.toList .slotServer s.fileId
        policyHash s.secretA.expose.toList commitment server ∧
      (∃ g g', s.recipientSlots sha c k rng policyHash commitment g = .ok (recipient, g')) ∧
      ∃ g g', s.authorSlot sha c k rng keys policyHash commitment g = .ok (.known author, g') := by
  obtain ⟨-, -, privateMeta, skeleton, parsed₀, coreHash, policyHash, wrappedCek, commitment, server,
    recipient, author, hskeleton, hparsed₀, hcore, hpolicy, hwrap, ⟨_, _, hserver⟩, hrecipient,
    ⟨_, _, hauthor⟩, hfinal, -⟩ := exists_of_assemble h
  obtain ⟨server, rfl, hsealed⟩ := exists_of_sealSlot hserver
  obtain ⟨_, _, author, -, -, rfl, -⟩ := exists_of_authorSlot hauthor
  -- every slot of the packer is one that the reader knows
  have hknown : ∀ slot ∈ KeySlot.known server :: recipient ++ [.known author],
      ∃ known, slot = .known known := by
    intro slot hslot
    rw [List.cons_append, List.mem_cons, List.mem_append, List.mem_singleton] at hslot
    rcases hslot with rfl | hslot | rfl
    · exact ⟨server, rfl⟩
    · obtain ⟨_, _, hrecipient⟩ := hrecipient
      rcases exists_of_recipientSlots hrecipient with ⟨-, rfl⟩ | ⟨_, -, rfl⟩ | ⟨_, _, known, -, -, rfl, -⟩
      · exact absurd hslot List.not_mem_nil
      · exact ⟨_, List.mem_singleton.mp hslot⟩
      · exact ⟨known, List.mem_singleton.mp hslot⟩
    · exact ⟨author, rfl⟩
  obtain ⟨parsed, hparsed, hheader⟩ := Header.decode_normalForm rfl rfl rfl hknown hfinal
  refine ⟨parsed, coreHash, policyHash, privateMeta, wrappedCek, commitment, server, recipient, author,
    hparsed, ?_, ?_, hheader, hwrap, hsealed, hrecipient, _, _, hauthor⟩
  · rw [coreHash_with_keyMaterial sha.sha256 hskeleton hfinal hparsed₀ hparsed, hcore]
  · rw [policyHash_with_keyMaterial sha.sha256 hskeleton hfinal hparsed₀ hparsed, hpolicy]

/-- The request with its policy in normal form. -/
def PackRequest.normal (request : PackRequest) : PackRequest :=
  { request with policy := PolicyCodec.normal containerVersion request.policy }

/-- **The packer sees only the normal form of a policy.** -/
theorem assemble_normal (s : Session) (request : PackRequest) (keys : PublicKeys) (sealed : SealedInfo)
    (g : γ) :
    s.assemble sha c k rng request.normal keys sealed g =
      s.assemble sha c k rng request keys sealed g := by
  refine bind_congr fun _ ↦ bind_congr fun ⟨privateMeta, g⟩ ↦ ?_
  -- both headers are written alike, without key material and with it
  have hskeleton : (s.skeleton request.normal keys sealed privateMeta).encode.mapError EngineError.format =
      (s.skeleton request keys sealed privateMeta).encode.mapError .format :=
    congrArg _ (Header.encode_normalForm (s.skeleton request keys sealed privateMeta))
  refine Except.bind_congr_of_eq hskeleton fun skeleton ↦ ?_
  refine bind_congr fun parsed ↦ bind_congr fun coreHash ↦ bind_congr fun policyHash ↦ ?_
  refine bind_congr fun ⟨⟨wrappedCek, commitment⟩, g⟩ ↦ bind_congr fun ⟨server, g⟩ ↦ ?_
  refine bind_congr fun ⟨recipient, g⟩ ↦ bind_congr fun ⟨author, g⟩ ↦ ?_
  have hfinal : { s.skeleton request.normal keys sealed privateMeta with
      keySlots := server :: recipient ++ [author], wrappedCek }.encode.mapError EngineError.format =
        { s.skeleton request keys sealed privateMeta with
          keySlots := server :: recipient ++ [author], wrappedCek }.encode.mapError .format :=
    congrArg _ (Header.encode_normalForm { s.skeleton request keys sealed privateMeta with
      keySlots := server :: recipient ++ [author], wrappedCek })
  exact Except.bind_congr_of_eq hfinal fun _ ↦ rfl

/-! ### The strength of what is packed -/

/-- The recipient slot, if there is one, has the strength of the plan; a hybrid recipient has one. -/
theorem exists_recipient_of_recipientSlots {policyHash commitment : Digest} {slots : List KeySlot}
    (h : s.recipientSlots sha c k rng policyHash commitment g = .ok (slots, g')) :
    ∃ recipient : Option KnownSlot, slots = recipient.toList.map .known ∧
      (∀ slot ∈ recipient, (slot.kind = .recipientIdentity ∨ slot.kind = .recipientClaim) ∧
        slot.strength = s.plan.strength) ∧
      (s.plan.key?.isSome = true → recipient.isSome = true) := by
  rcases exists_of_recipientSlots h with ⟨hplan, rfl⟩ | ⟨claimCommit, hplan, rfl⟩ |
    ⟨kem, publicKey, known, hkey, hstrength, rfl, hknown⟩
  · refine ⟨none, rfl, nofun, ?_⟩
    rw [hplan]
    exact nofun
  · refine ⟨some _, rfl, ?_, fun _ ↦ rfl⟩
    rintro slot ⟨⟩
    rw [hplan]
    exact ⟨.inr rfl, rfl⟩
  · refine ⟨some known, rfl, ?_, fun _ ↦ rfl⟩
    rintro slot ⟨⟩
    refine ⟨.inl hknown.kind_eq, ?_⟩
    rw [hstrength, KnownSlot.strength, hknown.kem_eq]

/-- A hybrid recipient was planned as one. -/
theorem plan_eq_of_matches {fileId : List.Vector UInt8 16} {plan : RecipientPlan}
    {recipient : Recipient} (h : plan.matches_ sha fileId recipient = true) :
    (∀ publicKey, recipient = .hybrid publicKey → plan = .hybrid publicKey) ∧
      ∀ publicKey, recipient = .hardwareHybrid publicKey → plan = .hardwareHybrid publicKey := by
  constructor
  · rintro publicKey rfl
    cases plan with
    | hybrid planned => rw [of_decide_eq_true h]
    | _ => cases h
  · rintro publicKey rfl
    cases plan with
    | hardwareHybrid planned => rw [of_decide_eq_true h]
    | _ => cases h

variable (sha c k rng) in
/-- **The author slot is never weaker than the recipient slot.** For every session, request, set of
keys, report and generator: the guard of the second pass does not fire; and what is assembled has one
server slot, at most one recipient slot and one author slot, in this order, the author slot has at least
the strength of every slot of a recipient's identity, and the strength of the file is that of the weakest
route to the content key. -/
theorem assembled_author_slot_strength (s : Session) (request : PackRequest) (keys : PublicKeys)
    (sealed : SealedInfo) (g : γ) :
    s.assemble sha c k rng request keys sealed g ≠ .error .coreHashMismatch ∧
      ∀ out g', s.assemble sha c k rng request keys sealed g = .ok (out, g') →
        ∃ (parsed : ParsedHeader) (server author : KnownSlot) (recipient : Option KnownSlot),
          Header.decode out.header = .ok parsed ∧
          parsed.header.keySlots =
            .known server :: recipient.toList.map .known ++ [.known author] ∧
          server.kind = .server ∧
          (∀ slot ∈ recipient, slot.kind = .recipientIdentity ∨ slot.kind = .recipientClaim) ∧
          author.kind = .authorDevice ∧
          (∀ slot, .known slot ∈ parsed.header.keySlots → slot.kind = .recipientIdentity →
            slot.strength ≤ author.strength) ∧
          parsed.header.fileStrength = author.strength ∧
          IsLeast {strength | ∃ route, parsed.header.Route route ∧ routeStrength route = strength}
            parsed.header.fileStrength ∧
          (∀ publicKey, request.recipient = .hybrid publicKey → ∃ slot ∈ recipient,
            slot.strength = .postQuantum ∧ slot.strength ≤ parsed.header.fileStrength) ∧
          ∀ publicKey, request.recipient = .hardwareHybrid publicKey → ∃ slot ∈ recipient,
            slot.strength = .postQuantumHardware ∧ slot.strength ≤ parsed.header.fileStrength := by
  refine ⟨assemble_ne_coreHashMismatch, ?_⟩
  intro out g' h
  obtain ⟨-, hmatches, -⟩ := exists_of_assemble h
  obtain ⟨parsed, _, _, _, _, _, server, slots, author, hparsed, -, -, hheader, -, hserver,
    ⟨_, _, hrecipient⟩, _, _, hauthor⟩ := exists_parsed_of_assemble h
  obtain ⟨recipient, rfl, hkinds, hsome⟩ := exists_recipient_of_recipientSlots hrecipient
  obtain ⟨kem, _, author, -, hstrength, ⟨⟩, hauthor⟩ := exists_of_authorSlot hauthor
  have hslots : parsed.header.keySlots =
      .known server :: recipient.toList.map .known ++ [.known author] := by
    rw [hheader]
    rfl
  have hauthorStrength : author.strength = s.plan.strength := by
    rw [hstrength, KnownSlot.strength, hauthor.kem_eq]
  -- the slots before the author slot are the server's and the recipient's
  have hbefore : ∀ slot, .known slot ∈ KeySlot.known server :: recipient.toList.map .known →
      slot = server ∨ slot ∈ recipient := by
    intro slot hslot
    rw [List.mem_cons, List.mem_map] at hslot
    rcases hslot with hslot | ⟨slot', hslot', heq⟩
    · exact .inl (KeySlot.known.inj hslot)
    · exact .inr (KeySlot.known.inj heq ▸ Option.mem_toList.mp hslot')
  have hothers : ∀ slot, .known slot ∈ KeySlot.known server :: recipient.toList.map .known →
      slot.kind ≠ .authorDevice := by
    intro slot hslot
    rcases hbefore slot hslot with rfl | hslot
    · rw [hserver.kind_eq]
      decide
    · rcases (hkinds slot hslot).1 with hkind | hkind <;> rw [hkind] <;> decide
  have hfile := fileStrength_of_single hslots hauthor.kind_eq hothers
  -- a recipient with a slot has the strength of the author slot
  have hhybrid : ∀ {strength}, s.plan.key?.isSome = true → s.plan.strength = strength →
      ∃ slot ∈ recipient, slot.strength = strength ∧ slot.strength ≤ parsed.header.fileStrength := by
    rintro strength hkey rfl
    obtain ⟨slot, hslot⟩ := Option.isSome_iff_exists.mp (hsome hkey)
    refine ⟨slot, hslot, (hkinds slot hslot).2, ?_⟩
    rw [hfile, hauthorStrength, (hkinds slot hslot).2]
  refine ⟨parsed, server, author, recipient, hparsed, hslots, hserver.kind_eq,
    fun slot hslot ↦ (hkinds slot hslot).1, hauthor.kind_eq, ?_, hfile, ?_, ?_, ?_⟩
  · intro slot hslot hkind
    rw [hslots, List.mem_append, List.mem_singleton] at hslot
    rcases hslot with hslot | hslot
    · rcases hbefore slot hslot with rfl | hslot
      · rw [hserver.kind_eq] at hkind
        cases hkind
      · rw [hauthorStrength, (hkinds slot hslot).2]
    · rw [KeySlot.known.inj hslot]
  · refine isLeast_fileStrength hslots hauthor.kind_eq hothers ?_
    intro slot hslot hyields
    rcases hbefore slot hslot with rfl | hslot
    · rw [hserver.kind_eq] at hyields
      cases hyields
    · rw [hauthorStrength, (hkinds slot hslot).2]
  · intro publicKey hrequest
    have hplan := (plan_eq_of_matches hmatches).1 publicKey hrequest
    exact hhybrid (by rw [hplan]; rfl) (by rw [hplan]; rfl)
  · intro publicKey hrequest
    have hplan := (plan_eq_of_matches hmatches).2 publicKey hrequest
    exact hhybrid (by rw [hplan]; rfl) (by rw [hplan]; rfl)

end Assembly

/-! ### A sample file -/

/-- The X25519 public key of thirty-two bytes of seven. -/
def sampleServerPublic : Digest :=
  ⟨[0x13, 0xbe, 0x4f, 0xea, 0xea, 0xf2, 0x04, 0xc7, 0xfd, 0x33, 0x58, 0xfc, 0x9c, 0x00, 0x72, 0x18,
    0x81, 0xd1, 0x74, 0x27, 0x81, 0x28, 0x22, 0x7e, 0xc6, 0x74, 0xf3, 0x7f, 0x7f, 0xe9, 0x7b, 0x6d],
    rfl⟩

/-- The payload key of the sample file. -/
def samplePayloadKey : Digest :=
  ⟨[0x63, 0xd3, 0xc7, 0x75, 0x75, 0xfb, 0xce, 0xca, 0x5c, 0x8a, 0x8e, 0x98, 0xf9, 0x3a, 0x85, 0xd7,
    0x00, 0xb7, 0xf0, 0x35, 0x16, 0x01, 0xa9, 0x07, 0x06, 0x40, 0x87, 0xd9, 0x27, 0xf0, 0x93, 0xc1],
    rfl⟩

/-- The key of its private metadata. -/
def sampleMetaKey : Digest :=
  ⟨[0xa7, 0xb0, 0x02, 0xec, 0x31, 0x90, 0x66, 0xfd, 0x0a, 0xeb, 0x6c, 0xc3, 0x7f, 0xb2, 0xcd, 0x8b,
    0x94, 0x71, 0x35, 0x5b, 0x25, 0x66, 0xe4, 0xbc, 0x01, 0x7e, 0xf9, 0x52, 0x29, 0xa4, 0x8a, 0xc7],
    rfl⟩

/-- Its wrapping key. -/
def sampleKek : Digest :=
  ⟨[0x28, 0x48, 0x34, 0xa4, 0x38, 0x54, 0x1d, 0x68, 0x65, 0xe8, 0x46, 0x96, 0x1d, 0x12, 0x45, 0x82,
    0x48, 0x94, 0xdd, 0xc4, 0x29, 0xb2, 0xe9, 0xd0, 0xdb, 0x7a, 0x69, 0xb4, 0x3e, 0x84, 0x26, 0xc0],
    rfl⟩

/-- The key of its server slot. -/
def sampleServerSlotKey : Digest :=
  ⟨[0x20, 0x22, 0xe7, 0x36, 0x4c, 0x41, 0xa9, 0x9c, 0xf7, 0xb1, 0xe8, 0x60, 0x1e, 0xe1, 0x3b, 0x42,
    0x9f, 0xb7, 0x79, 0x98, 0x80, 0x08, 0x0a, 0xb9, 0xdf, 0xba, 0xcd, 0xf7, 0x12, 0x59, 0x2e, 0x07],
    rfl⟩

/-- The key of its recipient slot. -/
def sampleRecipientSlotKey : Digest :=
  ⟨[0x16, 0xa9, 0x9a, 0x81, 0xd9, 0x55, 0xb6, 0x41, 0x40, 0xac, 0xe8, 0x42, 0x5a, 0x61, 0x93, 0xbb,
    0xcb, 0x3a, 0xc1, 0x2e, 0xd4, 0xae, 0x57, 0x43, 0xef, 0xd2, 0x1d, 0x9b, 0xa4, 0x32, 0x61, 0x3a],
    rfl⟩

/-- The key of its author slot. -/
def sampleAuthorSlotKey : Digest :=
  ⟨[0x1d, 0xd5, 0xa8, 0x84, 0xd9, 0x12, 0x95, 0x24, 0x5d, 0x38, 0x80, 0x47, 0x7b, 0x2e, 0xa6, 0x1d,
    0x7a, 0xeb, 0x7e, 0xef, 0x67, 0xca, 0xb6, 0x20, 0x6f, 0x48, 0xd3, 0x94, 0x54, 0xbd, 0x85, 0xd0],
    rfl⟩

/-- The key of the code of its mutable region. -/
def sampleMacKey : Digest :=
  ⟨[0xb7, 0x90, 0x46, 0xa2, 0x64, 0x3a, 0xa3, 0x3d, 0xfd, 0x83, 0x72, 0x96, 0x9f, 0x9e, 0x30, 0xac,
    0xa0, 0x45, 0x6c, 0xbf, 0x0b, 0x7d, 0xfd, 0x9a, 0xa4, 0x94, 0xdc, 0x54, 0xde, 0xdf, 0x4e, 0x66],
    rfl⟩

/-- What HKDF-SHA256 gives for the sample file, by the label. The nonce of a seal depends on what is
sealed, a share or both. -/
def sampleOutputs (ikm : List UInt8) : List (List UInt8 × List UInt8) :=
  [(Label.payload.asBytes, samplePayloadKey.toList), (Label.privateMeta.asBytes, sampleMetaKey.toList),
    (Label.kek.asBytes, sampleKek.toList), (Label.contentMac.asBytes, sampleMacKey.toList),
    (Label.sealKey.asBytes ++ Label.slotServer.asBytes, sampleServerSlotKey.toList),
    (Label.sealKey.asBytes ++ Label.slotRecipient.asBytes, sampleRecipientSlotKey.toList),
    (Label.sealKey.asBytes ++ Label.slotAuthorDevice.asBytes, sampleAuthorSlotKey.toList),
    (Label.frameNonce.asBytes,
      [0xa9, 0xa4, 0x64, 0xd6, 0xfb, 0x7b, 0x27, 0x47, 0x77, 0x20, 0x6e, 0xa6, 0xc9, 0x9c, 0xd0, 0x9e,
       0x53, 0xe3, 0x10, 0x56, 0xd3, 0x14, 0xb5, 0x43]),
    (Label.metaNonce.asBytes,
      [0x32, 0xb7, 0x52, 0xb5, 0x1e, 0x54, 0xdc, 0x58, 0x6b, 0x07, 0x75, 0x48, 0x58, 0x87, 0x2f, 0xa1,
       0x4a, 0x09, 0x1c, 0xa8, 0xf0, 0x30, 0x25, 0xbe]),
    (Label.wrapNonce.asBytes,
      [0xc8, 0xed, 0x62, 0x46, 0x8b, 0x72, 0x33, 0x10, 0xf6, 0xd5, 0x13, 0xba, 0x4f, 0xde, 0xbc, 0x55,
       0xaa, 0x6a, 0x35, 0x0d, 0x63, 0x82, 0x8c, 0x03]),
    (Label.sealNonce.asBytes, if ikm.length = 72 then
      [0x91, 0xd1, 0x69, 0x0d, 0x46, 0xd4, 0x61, 0xc4, 0x84, 0xad, 0x8e, 0x39, 0x67, 0xd0, 0xdc, 0x86,
       0x1a, 0x29, 0x94, 0xab, 0xbb, 0x18, 0x8f, 0x78] else
      [0xaa, 0x28, 0xf7, 0xc0, 0xbb, 0x29, 0x00, 0x94, 0xe4, 0x1b, 0x29, 0x78, 0xc6, 0x5a, 0x68, 0xbd,
       0xff, 0x1e, 0xb1, 0x64, 0xaf, 0x7b, 0xf9, 0xa2])]

/-- SHA-256 and what is built on it, as they are at the sample file. -/
def sampleSha : Sha2 where
  sha256 input := if Label.policyHash.asBytes <+: input then
      ⟨[0x0a, 0xf0, 0xa4, 0xe7, 0xe3, 0x76, 0x64, 0x13, 0x97, 0x46, 0x1a, 0x69, 0x36, 0x8f, 0xd5, 0x1d,
         0x38, 0x4e, 0x52, 0xa9, 0xe2, 0x44, 0x9a, 0xfb, 0x92, 0x55, 0xa4, 0x30, 0xdc, 0x3b, 0x1b, 0xa3], rfl⟩
    else
      ⟨[0xca, 0xd0, 0xd5, 0x22, 0x69, 0xb1, 0x5a, 0x8e, 0x54, 0x36, 0x43, 0xf3, 0x07, 0x61, 0x06, 0xa3,
         0x87, 0x20, 0x59, 0xea, 0x6c, 0x53, 0x41, 0x3b, 0xcc, 0x99, 0xc0, 0xb5, 0x09, 0xec, 0x67, 0x2c], rfl⟩
  hmac _ message := if Label.slotCommit.asBytes <+: message then
      ⟨[0xaf, 0x3b, 0x5a, 0x32, 0x32, 0x1e, 0x97, 0xb9, 0x3a, 0xb4, 0xa7, 0x37, 0xea, 0x7d, 0xa3, 0xad,
         0x60, 0xd7, 0x01, 0x07, 0xae, 0xe9, 0x9c, 0x41, 0x83, 0x43, 0x03, 0x1e, 0xe1, 0x57, 0x2d, 0x73], rfl⟩
    else
      ⟨[0xec, 0x39, 0xe5, 0x2d, 0x08, 0x4e, 0x85, 0x93, 0x22, 0x44, 0xe9, 0x86, 0xbb, 0x87, 0xb8, 0xe3,
         0xfd, 0x29, 0x86, 0x67, 0x49, 0x2f, 0xae, 0x70, 0x1f, 0x62, 0x16, 0x14, 0xfd, 0xee, 0x16, 0x88], rfl⟩
  hkdf _ ikm info _ := List.Vector.ofFn fun i ↦
    (((sampleOutputs ikm).find? fun o ↦ o.1.isPrefixOf info).map Prod.snd |>.getD []).getD i.val 0

/-- The stream of the cipher and the tag for each key of the sample file. Every key is used once. -/
def sampleStreams : List (Digest × List UInt8 × Tag) :=
  [(samplePayloadKey,
      [0xda, 0x9f],
      ⟨[0x6e, 0xd3, 0x07, 0x64, 0xc3, 0x67, 0xec, 0xf2, 0x4a, 0x12, 0x08, 0xd5, 0xc5, 0x27, 0xab, 0xce], rfl⟩),
    (sampleMetaKey,
      [0xc5, 0x52, 0x1d, 0x75, 0xa9, 0xbe, 0x34, 0xf0, 0x7f, 0xde, 0xa7, 0x44, 0x31, 0x49, 0xac, 0x77,
       0xd1, 0x07, 0x79, 0xb0, 0x64],
      ⟨[0xad, 0x63, 0x23, 0x13, 0xa8, 0x83, 0x8f, 0xce, 0x80, 0xed, 0xfc, 0xed, 0x21, 0x3e, 0x24, 0x99], rfl⟩),
    (sampleKek,
      [0x8e, 0xa1, 0xd1, 0xd9, 0x53, 0x19, 0xf6, 0x7f, 0xb4, 0x05, 0x6c, 0xb5, 0xe0, 0x29, 0xd4, 0xf8,
       0xf6, 0x10, 0xa9, 0x9f, 0xc7, 0xf5, 0x76, 0x78, 0x9a, 0xeb, 0x3d, 0xca, 0xd1, 0x9f, 0x24, 0x3b],
      ⟨[0x73, 0xc0, 0x3f, 0xd5, 0xcd, 0xad, 0x4d, 0xe9, 0xcd, 0xe6, 0x0b, 0x13, 0x6f, 0x25, 0x88, 0xc1], rfl⟩),
    (sampleServerSlotKey,
      [0xad, 0x13, 0xdc, 0x73, 0xb8, 0x61, 0x77, 0x22, 0x32, 0x1a, 0x58, 0xe2, 0x77, 0x80, 0x68, 0xb1,
       0xdd, 0xdb, 0x5d, 0xbc, 0x03, 0xa7, 0xd5, 0x6c, 0x81, 0x13, 0xd6, 0xa6, 0xe1, 0x84, 0xd0, 0xf4],
      ⟨[0x79, 0xa9, 0xfd, 0x66, 0x8b, 0x51, 0x2b, 0xae, 0x99, 0xb3, 0x3c, 0xb3, 0xb5, 0x9b, 0xf2, 0x7d], rfl⟩),
    (sampleRecipientSlotKey,
      [0xc9, 0x65, 0x0a, 0xf3, 0x19, 0xbb, 0xe8, 0x53, 0xe8, 0xe6, 0xd2, 0x12, 0x23, 0xdc, 0x39, 0x41,
       0xaa, 0x1c, 0x5f, 0x85, 0x1c, 0x66, 0xca, 0x22, 0x9e, 0xdb, 0xad, 0x31, 0xc3, 0xa1, 0x3c, 0x68],
      ⟨[0x6f, 0x0c, 0x15, 0xab, 0xec, 0xc8, 0x90, 0x03, 0x98, 0x44, 0x00, 0x79, 0xb9, 0xe2, 0x17, 0x48], rfl⟩),
    (sampleAuthorSlotKey,
      [0xa8, 0xb4, 0xdd, 0x54, 0x9c, 0x1d, 0x64, 0x17, 0x6c, 0xaa, 0x60, 0xff, 0x78, 0x6e, 0xc7, 0x3e,
       0x69, 0x68, 0xdd, 0xb2, 0x9d, 0x75, 0xbb, 0xc3, 0xb5, 0x8d, 0x18, 0x67, 0x93, 0x28, 0xbb, 0x0d,
       0x4b, 0x0d, 0x77, 0x09, 0x19, 0x2c, 0xfe, 0xc8, 0xf3, 0x01, 0xce, 0xac, 0x7f, 0x6b, 0x75, 0xb5,
       0x23, 0x29, 0xb5, 0xc1, 0xfa, 0xad, 0xaa, 0x26, 0xb7, 0x41, 0xb5, 0x97, 0x08, 0x2b, 0x3e, 0xc9],
      ⟨[0x1c, 0x13, 0xeb, 0x0e, 0x19, 0xcc, 0x54, 0xfc, 0xa5, 0xf1, 0x17, 0x58, 0x9e, 0xdf, 0x82, 0x6c], rfl⟩)]

/-- Add a stream to a message, as far as the stream goes. -/
def xorStream : List UInt8 → List UInt8 → List UInt8
  | b :: message, x :: stream => (b ^^^ x) :: xorStream message stream
  | message, _ => message

/-- The stream of the sample cipher has any length. -/
theorem length_xorStream (message stream : List UInt8) :
    (xorStream message stream).length = message.length := by
  fun_induction xorStream message stream with
  | case1 b message x stream ih => rw [List.length_cons, List.length_cons, ih]
  | case2 message stream h => rfl

theorem xorStream_xorStream (message stream : List UInt8) :
    xorStream (xorStream message stream) stream = message := by
  induction message generalizing stream with
  | nil => cases stream <;> rfl
  | cons b message ih =>
    cases stream with
    | nil => rfl
    | cons x stream =>
      show (b ^^^ x ^^^ x) :: xorStream (xorStream message stream) stream = b :: message
      rw [ih, UInt8.xor_assoc, UInt8.xor_self, UInt8.xor_zero]

/-- The stream and the tag of a key. -/
def sampleStream (key : Digest) : List UInt8 × Tag :=
  (sampleStreams.lookup key).getD ([], List.Vector.replicate 16 0)

/-- XChaCha20-Poly1305 as it is at the sample file. -/
def sampleCipher : XChaCha where
  encrypt key _ message _ :=
    some (xorStream message (sampleStream key).1 ++ (sampleStream key).2.toList)
  decrypt key _ sealed _ := some (xorStream (sealed.take (sealed.length - 16)) (sampleStream key).1)

/-- It is a lawful cipher. -/
theorem lawful_sampleCipher : sampleCipher.Lawful where
  exists_encrypt _ _ _ _ _ := ⟨_, rfl⟩
  length_encrypt := by
    intro key nonce message aad sealed h
    obtain rfl := Option.some_inj.mp h
    rw [List.length_append, length_xorStream, List.Vector.toList_length]
  decrypt_encrypt := by
    intro key nonce message aad sealed h
    obtain rfl := Option.some_inj.mp h
    have hlen : (xorStream message (sampleStream key).1 ++ (sampleStream key).2.toList).length - 16 =
        (xorStream message (sampleStream key).1).length := by
      rw [List.length_append, List.Vector.toList_length]
      exact Nat.add_sub_cancel ..
    show some (xorStream (List.take _ _) _) = some message
    rw [hlen, List.take_left, xorStream_xorStream]

/-- X25519 as it is at the sample file, where every secret is the same; the other mechanisms are not
used there. -/
def sampleKems : Kems where
  x25519 := {
    publicKey _ := sampleServerPublic
    diffieHellman _ _ :=
      ⟨[0xe0, 0xd4, 0xba, 0x8f, 0xb8, 0x91, 0xa6, 0x38, 0xac, 0x60, 0x9d, 0x00, 0xaa, 0x52, 0xa9, 0xfa,
         0x53, 0x5e, 0xa5, 0x10, 0x4c, 0x4a, 0xc9, 0x9d, 0x30, 0x06, 0x33, 0x05, 0x4c, 0xd1, 0x35, 0x2f], rfl⟩ }
  p256 := {
    SecretKey := Unit
    PublicKey := Unit
    fromSlice _ := some ()
    generateFromRng _ g := ((), g)
    publicKey _ := 0x04 ::ᵥ List.Vector.replicate 64 0
    fromSec1Bytes _ := some ()
    diffieHellman _ _ := List.Vector.replicate 32 0 }
  mlKem := {
    DecapsulationKey := Unit
    EncapsulationKey := Unit
    fromSeed _ := ((), List.Vector.replicate 1184 0)
    newFromSlice _ := some ()
    encapsulateDeterministic _ _ := (List.Vector.replicate 1088 0, List.Vector.replicate 32 0)
    decapsulate _ _ := List.Vector.replicate 32 0 }
  sha3 _ := List.Vector.replicate 32 0
  shake256 _ n := List.Vector.replicate n 0

/-- And the mechanisms are lawful, too. -/
theorem lawful_sampleKems : sampleKems.Lawful where
  x25519_comm _ _ := rfl
  x25519_canonical _ := by
    show canonicalX25519Public sampleServerPublic = true
    decide +kernel
  p256_uncompressed _ := rfl
  p256_fromSec1Bytes _ := ⟨(), rfl⟩
  p256_comm _ _ := rfl
  mlKem_decapsulate _ _ := rfl

/-- A generator that fills every buffer with sevens. -/
def sampleRng : Rng Unit := ⟨fun g n ↦ (List.Vector.replicate n 7, g)⟩

/-- A request for a recipient with a long-term key. -/
def sampleRequest : PackRequest where
  originalName := "a"
  policy := Policy.denyAll.allow .view
  chunkSize := 4096
  orgId := utf8 "org"
  authorityUrls := []
  recipient := .identity sampleServerPublic
  coauthors := none

/-- The keys of an author without hardware. -/
def sampleKeys : PublicKeys :=
  ⟨sampleAuthorKey, sampleServerPublic, List.Vector.replicate 32 0x99, sampleServerPublic, none, none,
    none⟩

/-- The session of the request. -/
def sampleSession : Session := (plan sampleSha sampleRng sampleRequest ()).1.1

/-- The report on a stream of two bytes. -/
def sampleSealed : SealedInfo :=
  ⟨2, 1, ⟨[0xa9, 0xbc, 0x90, 0x31, 0xa5, 0x1c, 0x13, 0x4b, 0x5b, 0x6d, 0x36, 0xd0, 0x3c, 0x70, 0x97, 0xfb,
        0xda, 0xc4, 0xaf, 0x94, 0x12, 0xa9, 0x1e, 0x53, 0xd5, 0x98, 0x71, 0x5a, 0xbb, 0x1e, 0xac, 0x9f], rfl⟩⟩

/-- The sample file is assembled. -/
theorem exists_sampleAssembled :
    ∃ out, sampleSession.assemble sampleSha sampleCipher sampleKems sampleRng sampleRequest sampleKeys
      sampleSealed () = .ok (out, ()) := by
  have hok : (sampleSession.assemble sampleSha sampleCipher sampleKems sampleRng sampleRequest
      sampleKeys sampleSealed ()).isOk = true := by decide +kernel
  rcases hout : sampleSession.assemble sampleSha sampleCipher sampleKems sampleRng sampleRequest
    sampleKeys sampleSealed () with _ | ⟨out, ⟨⟩⟩
  · rw [hout] at hok
    cases hok
  · exact ⟨out, rfl⟩

/-- The law at a file for a recipient with a long-term key. -/
theorem assembled_author_slot_strength_sampleRequest :
    ∃ (out : Assembled) (parsed : ParsedHeader) (server author : KnownSlot)
      (recipient : Option KnownSlot),
      sampleSession.assemble sampleSha sampleCipher sampleKems sampleRng sampleRequest sampleKeys
        sampleSealed () = .ok (out, ()) ∧
      Header.decode out.header = .ok parsed ∧
      parsed.header.keySlots = .known server :: recipient.toList.map .known ++ [.known author] ∧
      parsed.header.fileStrength = author.strength ∧
      IsLeast {strength | ∃ route, parsed.header.Route route ∧ routeStrength route = strength}
        parsed.header.fileStrength := by
  obtain ⟨out, hout⟩ := exists_sampleAssembled
  obtain ⟨-, hall⟩ := assembled_author_slot_strength sampleSha sampleCipher sampleKems sampleRng
    sampleSession sampleRequest sampleKeys sampleSealed ()
  obtain ⟨parsed, server, author, recipient, hparsed, hslots, -, -, -, -, hfile, hleast, -⟩ :=
    hall out () hout
  exact ⟨out, parsed, server, author, recipient, hout, hparsed, hslots, hfile, hleast⟩

end OpenCrate.Engine
