import OpenCrate.Format.TlvRecord
import OpenCrate.Protocol.SignedDocuments

/-!
# Revocations

`revocation` of `oc-protocol`: a server's signed statement that a file is revoked. Revocation is final, and
the epoch only names the entry of the journal.

Every revocation can be written, and what was written is read back.
-/

namespace OpenCrate.Protocol

open OpenCrate.Format OpenCrate.Crypto
open Except (refuseIf okOr)

/-- Parsed revocation document. -/
structure Revocation where
  fileId : List.Vector UInt8 16
  epoch : UInt64
  at_ : Int64
  deriving DecidableEq

namespace Revocation

/-- Document version. Independent of the container version. -/
def revocationVersion : UInt16 := 1

namespace Tag

def version : UInt16 := 1

def fileId : UInt16 := 2

def epoch : UInt16 := 3

def at_ : UInt16 := 4

end Tag

/-- Signature transcript. -/
def signingTranscript (body : List UInt8) : Transcript := (Transcript.new .revocation).field body

/-- Build the body. -/
def encode (revocation : Revocation) : Except FormatError (List UInt8) := do
  let w ← TlvWriter.new.put Tag.version (toLeBytes revocationVersion)
  let w ← w.put Tag.fileId revocation.fileId.toList
  let w ← w.put Tag.epoch (toLeBytes revocation.epoch)
  let w ← w.put Tag.at_ (toLeBytes revocation.at_)
  .ok w.finish

/-- The fields read so far. -/
structure Reading where
  version : Option UInt16 := none
  fileId : Option (List.Vector UInt8 16) := none
  epoch : Option UInt64 := none
  at_ : Option Int64 := none

/-- One field of a revocation. -/
def decodeStep (acc : Reading) (f : Field) : Except FormatError Reading :=
  match f.tag with
  | 1 => f.u16.map fun v ↦ { acc with version := some v }
  | 2 => (f.array 16).map fun v ↦ { acc with fileId := some v }
  | 3 => f.u64.map fun v ↦ { acc with epoch := some v }
  | 4 => f.le.map fun v ↦ { acc with at_ := some v }
  | other => skipUnknown other acc

/-- The revocation that was read. -/
def Reading.revocation (acc : Reading) : Except FormatError Revocation := do
  let version ← okOr acc.version (.missingField Tag.version)
  refuseIf (version ≠ revocationVersion) (.unknownCriticalField Tag.version)
  let fileId ← okOr acc.fileId (.missingField Tag.fileId)
  let epoch ← okOr acc.epoch (.missingField Tag.epoch)
  let at_ ← okOr acc.at_ (.missingField Tag.at_)
  .ok ⟨fileId, epoch, at_⟩

/-- Parse the body. The signature is not checked here. -/
def decode (body : List UInt8) : Except FormatError Revocation :=
  TlvReader.foldFields decodeStep (TlvReader.new body) {} >>= Reading.revocation

/-- Verify the signature, then parse: in this order only. -/
def verifySigned (ed : Ed25519) (bytes : List UInt8) (leaseVerifyKey : Digest) :
    Except FormatError Revocation := do
  let (signature, body) ← splitSignature bytes
  (verify ed leaseVerifyKey (signingTranscript body) signature).mapError fun _ ↦ .badHeaderSignature
  decode body

/-! ### Written and read back -/

/-- The tags and values of a revocation. -/
def contents (revocation : Revocation) : Contents :=
  [(Tag.version, toLeBytes revocationVersion), (Tag.fileId, revocation.fileId.toList),
    (Tag.epoch, toLeBytes revocation.epoch), (Tag.at_, toLeBytes revocation.at_)]

/-- A revocation is its records, and nothing is asked of them. -/
theorem encode_eq_ok_iff {revocation : Revocation} {bytes : List UInt8} :
    revocation.encode = .ok bytes ↔ Encodes bytes revocation.contents := by
  simp only [encode, TlvWriter.new_put_bind, TlvWriter.putMany_put_bind,
    TlvWriter.putMany_finish_eq_ok_iff, contents, List.cons_append, List.nil_append]

/-- The tags of a revocation. -/
def tags : List UInt16 := [1, 2, 3, 4]

theorem recordStep_decodeStep : RecordStep tags decodeStep where
  span_free _ _ _ _ _ := rfl
  skips acc tag value span h := by
    unfold decodeStep
    split <;> first | rfl | simp_all [tags]

/-- The loop reads every record into its place. -/
theorem foldlM_contents (revocation : Revocation) :
    revocation.contents.foldlM (readField decodeStep) {} =
      .ok ⟨some revocationVersion, some revocation.fileId, some revocation.epoch,
        some revocation.at_⟩ := by
  simp [contents, readField, decodeStep, Tag.version, Tag.fileId, Tag.epoch, Tag.at_]

/-- **A revocation that was written is read back.** -/
theorem decode_encode {revocation : Revocation} {bytes : List UInt8}
    (h : revocation.encode = .ok bytes) : decode bytes = .ok revocation := by
  rw [decode, recordStep_decodeStep.foldFields_eq (encode_eq_ok_iff.mp h), foldlM_contents,
    Except.ok_bind]
  simp [Reading.revocation, Except.refuseIf]

/-- **Every revocation can be written.** -/
theorem exists_encode (revocation : Revocation) : ∃ bytes, revocation.encode = .ok bytes := by
  obtain ⟨bytes, hbytes⟩ : ∃ bytes, Encodes bytes revocation.contents := by
    refine Encodes.exists_iff.mpr ⟨show [1, 2, 3, 4].Pairwise (· < ·) by decide, ?_⟩
    simp [contents]
  exact ⟨bytes, encode_eq_ok_iff.mpr hbytes⟩

end Revocation

end OpenCrate.Protocol
