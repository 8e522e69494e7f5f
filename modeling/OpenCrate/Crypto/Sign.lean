import OpenCrate.Crypto.Algorithms
import OpenCrate.Data.Bytes
import OpenCrate.Data.Except
import OpenCrate.Data.PrefixFree

/-!
# Transcripts and signatures

What is signed is a `Transcript`, and a transcript starts with a label of the registry: signing bytes
without domain separation is impossible. The verification of a signature calls the Ed25519
implementation of another package, which is a parameter here.
-/

namespace OpenCrate.Crypto

open Except (refuseIf okOr)

/-- Domain labels: the registry. -/
inductive Label where
  | headerSig
  | revocation
  | grant
  | agentGrant
  | delegation
  | actionGrant
  | actionLease
  | actionDecision
  | lease
  | activateReq
  | auditEntry
  | auditHead
  | attestNonce
  | contentMac
  | editorSig
  | editorCert
  | editSession
  | editionClaim
  | footerImprint
  | witnessCosign
  | directoryEntry
  | directoryHead
  | markLayout
  | markChoice
  | recoveryManifest
  | authorityBinding
  | controlRequest
  | operationReceipt
  | replicaPush
  | replicaAck
  | authorityTransfer
  | chunk
  | leaf
  | node
  | kek
  | payload
  | nonceBase
  | privateMeta
  | claimDevice
  | slotBClaim
  | slotBCommit
  | slotCommit
  | aToDevice
  | bToDevice
  | cachedLease
  | sealKey
  | sealNonce
  | wrapNonce
  | frameNonce
  | metaNonce
  | coreHash
  | policyHash
  | slotServer
  | slotRecipient
  | slotAuthorDevice
  | claimCode
  | authorOrder
  | proveEcho
  | sessionMac
  | echoTranscript
  | deviceFpr
  | operationId
  | serverFresh
  | packageManifest
  | attestQualify
  deriving DecidableEq

/-- Label bytes: what enters a transcript or a preimage. -/
def Label.asBytes : Label → List UInt8
  | headerSig => utf8 "CC/v1/header-sig"
  | revocation => utf8 "CC/v1/revocation"
  | grant => utf8 "CC/v1/grant"
  | agentGrant => utf8 "CC/v1/agent-grant"
  | delegation => utf8 "CC/v1/delegation"
  | actionGrant => utf8 "CC/v1/action-grant"
  | actionLease => utf8 "CC/v1/action-lease"
  | actionDecision => utf8 "CC/v1/action-decision"
  | lease => utf8 "CC/v1/lease"
  | activateReq => utf8 "CC/v1/activate-req"
  | auditEntry => utf8 "CC/v1/audit-entry"
  | auditHead => utf8 "CC/v1/audit-head"
  | attestNonce => utf8 "CC/v1/attest-nonce"
  | contentMac => utf8 "CC/v1/content-mac"
  | editorSig => utf8 "CC/v1/editor-sig"
  | editorCert => utf8 "CC/v1/editor-cert"
  | editSession => utf8 "CC/v1/edit-session"
  | editionClaim => utf8 "CC/v1/edition-claim"
  | footerImprint => utf8 "CC/v1/footer-imprint"
  | witnessCosign => utf8 "CC/v1/witness-cosign"
  | directoryEntry => utf8 "CC/v1/directory-entry"
  | directoryHead => utf8 "CC/v1/directory-head"
  | markLayout => utf8 "CC/v1/mark-layout"
  | markChoice => utf8 "CC/v1/mark-choice"
  | recoveryManifest => utf8 "CC/v1/recovery-manifest"
  | authorityBinding => utf8 "CC/v1/authority-binding"
  | controlRequest => utf8 "CC/v1/control-request"
  | operationReceipt => utf8 "CC/v1/operation-receipt"
  | replicaPush => utf8 "CC/v1/replica-push"
  | replicaAck => utf8 "CC/v1/replica-ack"
  | authorityTransfer => utf8 "CC/v1/authority-transfer"
  | chunk => utf8 "CC/v1/chunk"
  | leaf => utf8 "CC/v1/leaf"
  | node => utf8 "CC/v1/node"
  | kek => utf8 "CC/v1/kek"
  | payload => utf8 "CC/v1/payload"
  | nonceBase => utf8 "CC/v1/nonce-base"
  | privateMeta => utf8 "CC/v1/private-meta"
  | claimDevice => utf8 "CC/v1/claim-device"
  | slotBClaim => utf8 "CC/v1/slot-b-claim"
  | slotBCommit => utf8 "CC/v1/slot-b-commit"
  | slotCommit => utf8 "CC/v1/slot-commit"
  | aToDevice => utf8 "CC/v1/a-to-device"
  | bToDevice => utf8 "CC/v1/b-to-device"
  | cachedLease => utf8 "CC/v1/cached-lease"
  | sealKey => utf8 "CC/v1/seal-key"
  | sealNonce => utf8 "CC/v1/seal-nonce"
  | wrapNonce => utf8 "CC/v1/wrap-nonce"
  | frameNonce => utf8 "CC/v1/frame-nonce"
  | metaNonce => utf8 "CC/v1/meta-nonce"
  | coreHash => utf8 "CC/v1/core-hash"
  | policyHash => utf8 "CC/v1/policy-hash"
  | slotServer => utf8 "CC/v1/slot-server"
  | slotRecipient => utf8 "CC/v1/slot-recipient"
  | slotAuthorDevice => utf8 "CC/v1/slot-author-device"
  | claimCode => utf8 "CC/v1/claim-code"
  | authorOrder => utf8 "CC/v1/author-order"
  | proveEcho => utf8 "CC/v1/prove-echo"
  | sessionMac => utf8 "CC/v1/session-mac"
  | echoTranscript => utf8 "CC/v1/echo-transcript"
  | deviceFpr => utf8 "CC/v1/device-fpr"
  | operationId => utf8 "CC/v1/operation-id"
  | serverFresh => utf8 "CC/v1/server-fresh"
  | packageManifest => utf8 "CC/v1/package-manifest"
  | attestQualify => utf8 "CC/v1/attest-qualify"

/-! ### The registry is prefix-free -/

namespace Label

/-- The registry, entry by entry. -/
def all : List Label :=
  [.headerSig, .revocation, .grant, .agentGrant, .delegation, .actionGrant, .actionLease,
    .actionDecision, .lease, .activateReq, .auditEntry, .auditHead, .attestNonce, .contentMac,
    .editorSig, .editorCert, .editSession, .editionClaim, .footerImprint, .witnessCosign,
    .directoryEntry, .directoryHead, .markLayout, .markChoice, .recoveryManifest,
    .authorityBinding, .controlRequest, .operationReceipt, .replicaPush, .replicaAck,
    .authorityTransfer, .chunk, .leaf, .node, .kek, .payload, .nonceBase, .privateMeta,
    .claimDevice, .slotBClaim, .slotBCommit, .slotCommit, .aToDevice, .bToDevice, .cachedLease,
    .sealKey, .sealNonce, .wrapNonce, .frameNonce, .metaNonce, .coreHash, .policyHash,
    .slotServer, .slotRecipient, .slotAuthorDevice, .claimCode, .authorOrder, .proveEcho,
    .sessionMac, .echoTranscript, .deviceFpr, .operationId, .serverFresh, .packageManifest,
    .attestQualify]

theorem mem_all (label : Label) : label ∈ all := by
  cases label <;> decide

/-- No label is the beginning of another one. -/
theorem eq_of_isPrefix_of_mem :
    ∀ a ∈ all, ∀ b ∈ all, a.asBytes <+: b.asBytes → a = b := by
  decide +kernel

/-- No label is the beginning of another one, so that a label can be read off the front of what it
starts. -/
theorem prefixFree_asBytes : PrefixFree asBytes :=
  PrefixFree.of_not_isPrefix fun a b ↦ eq_of_isPrefix_of_mem a a.mem_all b b.mem_all

end Label

/-! ### Transcripts -/

/-- Bytes prepared for signing, with a mandatory domain label. -/
structure Transcript where
  buf : List UInt8
  deriving DecidableEq

namespace Transcript

/-- Begin a transcript with a domain label. -/
def new (label : Label) : Transcript := ⟨label.asBytes ++ [0x00]⟩

/-- Append one byte. -/
def u8 (t : Transcript) (value : UInt8) : Transcript := ⟨t.buf ++ [value]⟩

/-- Append a little-endian number of four bytes. -/
def u32le (t : Transcript) (value : UInt32) : Transcript := ⟨t.buf ++ toLeBytes value⟩

/-- Append a big-endian number of eight bytes. -/
def u64be (t : Transcript) (value : UInt64) : Transcript := ⟨t.buf ++ toBeBytes value⟩

/-- Append a field whose length is fixed by the format. -/
def fixed (t : Transcript) (value : List UInt8) : Transcript := ⟨t.buf ++ value⟩

/-- Append a field of variable length, after its length. -/
def field (t : Transcript) (value : List UInt8) : Transcript :=
  ⟨t.buf ++ toLeBytes (UInt32.ofNat (min value.length (2 ^ 32 - 1))) ++ value⟩

/-- Append a final block whose length was already written. -/
def tailAfterDeclaredLength (t : Transcript) (value : List UInt8) : Transcript := ⟨t.buf ++ value⟩

/-- Completed bytes. -/
def asBytes (t : Transcript) : List UInt8 := t.buf

end Transcript

/-! ### Signatures -/

/-- Ed25519 signature length. -/
def signatureLen : ℕ := 64

/-- A signature. -/
abbrev Signature := List.Vector UInt8 signatureLen

/-- An implementation of Ed25519: decoding of public keys, and strict verification. -/
structure Ed25519 where
  VerifyingKey : Type
  fromBytes : Digest → Option VerifyingKey
  verifyStrict : VerifyingKey → List UInt8 → Signature → Bool

variable (ed : Ed25519)

/-- Verify a signature. That a key cannot be decoded and that the signature does not match are the
same refusal. -/
def verify (publicKey : Digest) (transcript : Transcript) (signature : Signature) :
    Except CryptoError Unit := do
  let key ← okOr (ed.fromBytes publicKey) .badSignature
  refuseIf (ed.verifyStrict key transcript.asBytes signature = false) .badSignature

/-- A signature is checked strictly, under a key that is read from its bytes. -/
theorem verify_eq_ok_iff {publicKey : Digest} {transcript : Transcript} {signature : Signature} :
    verify ed publicKey transcript signature = .ok () ↔
      ∃ key, ed.fromBytes publicKey = some key ∧
        ed.verifyStrict key transcript.asBytes signature = true := by
  simp only [verify, Except.bind_eq_ok_iff, Except.okOr_eq_ok_iff, Except.refuseIf_eq_ok_iff,
    Bool.not_eq_false]

/-- Something capable of signing: a software key or a hardware key. -/
structure Signer where
  publicKey : Digest
  sign : Transcript → Except CryptoError Signature

/-- What is signed verifies under the public key. -/
def Signer.Lawful (signer : Signer) : Prop :=
  ∀ {transcript signature}, signer.sign transcript = .ok signature →
    verify ed signer.publicKey transcript signature = .ok ()

/-- The public key of a signer of samples. -/
def samplePublicKey : Digest :=
  ⟨[0xbc, 0x7c, 0xbc, 0xb5, 0x63, 0x63, 0x75, 0xfa, 0x1d, 0x82, 0x43, 0x4d, 0x46, 0x67, 0x24, 0xd9,
    0x23, 0x77, 0xf5, 0x3b, 0x98, 0x06, 0x95, 0xdd, 0x49, 0xd2, 0x6d, 0x0c, 0xe1, 0x22, 0x05, 0xa5],
    rfl⟩

end OpenCrate.Crypto
