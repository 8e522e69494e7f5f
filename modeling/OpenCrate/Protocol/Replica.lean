import OpenCrate.Protocol.Control
import OpenCrate.Format.TlvRecord

/-!
# Replication

`replica` of `oc-protocol`: a server pushes a snapshot of its state to a replica, and the replica
acknowledges the exact snapshot it stored. Both documents are a signature before a body of TLV. The
signature of a push covers the state through its fingerprint, which both sides compare with the state.
-/

namespace OpenCrate.Protocol

open OpenCrate.Format OpenCrate.Crypto
open Except (refuseIf okOr)

namespace Replica

open Control (bad splitAtChecked)

/-- Layout version of both documents. -/
def version : UInt8 := 1

/-- State snapshot limit. -/
def maxState : ℕ := 2 * 1024 * 1024

namespace PushTag

def version : UInt16 := 1

def authorityId : UInt16 := 2

def epoch : UInt16 := 3

def seq : UInt16 := 4

def previous : UInt16 := 5

def stateHash : UInt16 := 6

def snapshot : UInt16 := 7

def at_ : UInt16 := 8

def state : UInt16 := 9

end PushTag

namespace AckTag

def version : UInt16 := 1

def authorityId : UInt16 := 2

def epoch : UInt16 := 3

def seq : UInt16 := 4

def stateHash : UInt16 := 5

def replica : UInt16 := 6

def at_ : UInt16 := 7

end AckTag

/-- What a signature covers. -/
def transcript (label : Label) (body : List UInt8) : Transcript := (Transcript.new label).field body

/-- The signature before a document, and the body. -/
def splitSigned (bytes : List UInt8) : Except FormatError (Signature × List UInt8) := do
  let (sig, body) ← okOr (splitAtChecked Crypto.signatureLen bytes) (bad 0 bytes.length)
  let sig ← okOr (toVector? Crypto.signatureLen sig) (bad 0 Crypto.signatureLen)
  .ok (sig, body)

/-- A flag: strictly zero or one. -/
def flag (f : Field) : Except FormatError Bool :=
  f.u8 >>= fun
    | 0 => .ok false
    | 1 => .ok true
    | _ => .error (bad f.tag 1)

/-! ### Snapshots -/

/-- A state snapshot sent to the replica. -/
structure Push where
  authorityId : List.Vector UInt8 16
  epoch : UInt64
  seq : UInt64
  /-- The fingerprint of the snapshot before; zero for the first one. -/
  previous : Digest
  /-- The fingerprint of the state, which the replica acknowledges. -/
  stateHash : Digest
  /-- Accepted without checking continuity. -/
  snapshot : Bool
  at_ : Int64
  state : List UInt8
  deriving DecidableEq

namespace Push

variable (sha : Sha2)

/-- Unsigned body. -/
def body (push : Push) : Except FormatError (List UInt8) := do
  refuseIf (maxState < push.state.length) (bad PushTag.state push.state.length)
  refuseIf (sha.sha256 push.state ≠ push.stateHash) (bad PushTag.stateHash push.state.length)
  let w ← TlvWriter.new.put PushTag.version [version]
  let w ← w.put PushTag.authorityId push.authorityId.toList
  let w ← w.put PushTag.epoch (toLeBytes push.epoch)
  let w ← w.put PushTag.seq (toLeBytes push.seq)
  let w ← w.put PushTag.previous push.previous.toList
  let w ← w.put PushTag.stateHash push.stateHash.toList
  let w ← w.put PushTag.snapshot [push.snapshot.toUInt8]
  let w ← w.put PushTag.at_ (toLeBytes push.at_)
  let w ← w.put PushTag.state push.state
  .ok w.finish

/-- Sign with the lease key of the server. -/
def sign (push : Push) (signer : Signer) : Except FormatError (List UInt8) := do
  let body ← push.body sha
  let sig ← (signer.sign (transcript .replicaPush body)).mapError fun _ ↦ .badHeaderSignature
  .ok (sig.toList ++ body)

/-- The fields read so far. -/
structure Reading where
  version : Option UInt8 := none
  authorityId : Option (List.Vector UInt8 16) := none
  epoch : Option UInt64 := none
  seq : Option UInt64 := none
  previous : Option Digest := none
  stateHash : Option Digest := none
  snapshot : Option Bool := none
  at_ : Option Int64 := none
  state : Option (List UInt8) := none

/-- One field of a snapshot. -/
def decodeStep (acc : Reading) (f : Field) : Except FormatError Reading :=
  match f.tag with
  | 1 => f.u8.map fun v ↦ { acc with version := some v }
  | 2 => (f.array 16).map fun v ↦ { acc with authorityId := some v }
  | 3 => f.u64.map fun v ↦ { acc with epoch := some v }
  | 4 => f.u64.map fun v ↦ { acc with seq := some v }
  | 5 => (f.array 32).map fun v ↦ { acc with previous := some v }
  | 6 => (f.array 32).map fun v ↦ { acc with stateHash := some v }
  | 7 => (flag f).map fun v ↦ { acc with snapshot := some v }
  | 8 => f.le.map fun v ↦ { acc with at_ := some v }
  | 9 => do
    refuseIf (maxState < f.value.length) (bad f.tag f.value.length)
    .ok { acc with state := some f.value }
  | other => skipUnknown other acc

/-- The snapshot that was read. The signature covers the fingerprint, and the state is compared with
it. -/
def Reading.push (acc : Reading) : Except FormatError Push := do
  refuseIf (acc.version ≠ some Replica.version) (bad PushTag.version 1)
  let authorityId ← okOr acc.authorityId (.missingField PushTag.authorityId)
  let epoch ← okOr acc.epoch (.missingField PushTag.epoch)
  let seq ← okOr acc.seq (.missingField PushTag.seq)
  let previous ← okOr acc.previous (.missingField PushTag.previous)
  let stateHash ← okOr acc.stateHash (.missingField PushTag.stateHash)
  let snapshot ← okOr acc.snapshot (.missingField PushTag.snapshot)
  let at_ ← okOr acc.at_ (.missingField PushTag.at_)
  let state ← okOr acc.state (.missingField PushTag.state)
  refuseIf (sha.sha256 state ≠ stateHash) (bad PushTag.stateHash state.length)
  .ok ⟨authorityId, epoch, seq, previous, stateHash, snapshot, at_, state⟩

/-- Parse a body whose signature was verified. -/
def decodeBody (body : List UInt8) : Except FormatError Push :=
  TlvReader.foldFields decodeStep (TlvReader.new body) {} >>= Reading.push sha

/-- Parse and verify with the key of the server this replica serves. -/
def open_ (ed : Ed25519) (bytes : List UInt8) (authority : Digest) : Except FormatError Push := do
  let (sig, body) ← splitSigned bytes
  (verify ed authority (transcript .replicaPush body) sig).mapError fun _ ↦ .badHeaderSignature
  decodeBody sha body

/-- The tags and values of a snapshot. -/
def contents (push : Push) : Contents :=
  [(PushTag.version, [version]), (PushTag.authorityId, push.authorityId.toList),
    (PushTag.epoch, toLeBytes push.epoch), (PushTag.seq, toLeBytes push.seq),
    (PushTag.previous, push.previous.toList), (PushTag.stateHash, push.stateHash.toList),
    (PushTag.snapshot, [push.snapshot.toUInt8]), (PushTag.at_, toLeBytes push.at_),
    (PushTag.state, push.state)]

variable {sha} {push : Push} {bytes : List UInt8}

/-- The body of a push is its records, if the hash in it is the one of the state. -/
theorem body_eq_ok_iff :
    push.body sha = .ok bytes ↔ push.state.length ≤ maxState ∧
      sha.sha256 push.state = push.stateHash ∧ Encodes bytes push.contents := by
  simp only [body, Except.check_bind_eq_ok_iff, Except.refuseIf_eq_ok_iff, not_lt, not_not,
    TlvWriter.new_put_bind, TlvWriter.putMany_put_bind, TlvWriter.putMany_finish_eq_ok_iff, contents,
    List.cons_append, List.nil_append]

/-- The tags of a snapshot. -/
def tags : List UInt16 := [1, 2, 3, 4, 5, 6, 7, 8, 9]

theorem recordStep_decodeStep : RecordStep tags decodeStep where
  span_free _ _ _ _ _ := rfl
  skips acc tag value span h := by
    unfold decodeStep
    split <;> first | rfl | simp_all [tags]

/-- The loop reads every record of a push into its place. -/
theorem foldlM_contents (h : push.state.length ≤ maxState) :
    push.contents.foldlM (readField decodeStep) {} =
      .ok ⟨some version, some push.authorityId, some push.epoch, some push.seq, some push.previous,
        some push.stateHash, some push.snapshot, some push.at_, some push.state⟩ := by
  have hflag (tag : UInt16) (span : Span) :
      flag ⟨tag, [push.snapshot.toUInt8], span⟩ = .ok push.snapshot := by
    cases push.snapshot <;> rfl
  simp [contents, readField, decodeStep, PushTag.version, PushTag.authorityId, PushTag.epoch,
    PushTag.seq, PushTag.previous, PushTag.stateHash, PushTag.snapshot, PushTag.at_, PushTag.state,
    hflag, Except.refuseIf_of_not (not_lt.mpr h)]

/-- **A snapshot that was written is read back.** -/
theorem decodeBody_body (h : push.body sha = .ok bytes) : decodeBody sha bytes = .ok push := by
  obtain ⟨hlen, hhash, henc⟩ := body_eq_ok_iff.mp h
  rw [decodeBody, recordStep_decodeStep.foldFields_eq henc, foldlM_contents hlen, Except.ok_bind]
  simp [Reading.push, Except.refuseIf, hhash]

end Push

/-! ### Acknowledgments -/

/-- Replica acknowledgment: it stored exactly these bytes. -/
structure Ack where
  authorityId : List.Vector UInt8 16
  epoch : UInt64
  seq : UInt64
  stateHash : Digest
  /-- Who acknowledged. -/
  replica : Digest
  at_ : Int64
  deriving DecidableEq

namespace Ack

/-- Unsigned body. -/
def body (ack : Ack) : Except FormatError (List UInt8) := do
  let w ← TlvWriter.new.put AckTag.version [version]
  let w ← w.put AckTag.authorityId ack.authorityId.toList
  let w ← w.put AckTag.epoch (toLeBytes ack.epoch)
  let w ← w.put AckTag.seq (toLeBytes ack.seq)
  let w ← w.put AckTag.stateHash ack.stateHash.toList
  let w ← w.put AckTag.replica ack.replica.toList
  let w ← w.put AckTag.at_ (toLeBytes ack.at_)
  .ok w.finish

/-- Sign with the key the acknowledgment names. -/
def sign (ack : Ack) (signer : Signer) : Except FormatError (List UInt8) := do
  refuseIf (signer.publicKey ≠ ack.replica) (bad AckTag.replica 32)
  let body ← ack.body
  let sig ← (signer.sign (transcript .replicaAck body)).mapError fun _ ↦ .badHeaderSignature
  .ok (sig.toList ++ body)

/-- The fields read so far. -/
structure Reading where
  version : Option UInt8 := none
  authorityId : Option (List.Vector UInt8 16) := none
  epoch : Option UInt64 := none
  seq : Option UInt64 := none
  stateHash : Option Digest := none
  replica : Option Digest := none
  at_ : Option Int64 := none

/-- One field of an acknowledgment. -/
def decodeStep (acc : Reading) (f : Field) : Except FormatError Reading :=
  match f.tag with
  | 1 => f.u8.map fun v ↦ { acc with version := some v }
  | 2 => (f.array 16).map fun v ↦ { acc with authorityId := some v }
  | 3 => f.u64.map fun v ↦ { acc with epoch := some v }
  | 4 => f.u64.map fun v ↦ { acc with seq := some v }
  | 5 => (f.array 32).map fun v ↦ { acc with stateHash := some v }
  | 6 => (f.array 32).map fun v ↦ { acc with replica := some v }
  | 7 => f.le.map fun v ↦ { acc with at_ := some v }
  | other => skipUnknown other acc

/-- The acknowledgment that was read. -/
def Reading.ack (acc : Reading) : Except FormatError Ack := do
  refuseIf (acc.version ≠ some Replica.version) (bad AckTag.version 1)
  let authorityId ← okOr acc.authorityId (.missingField AckTag.authorityId)
  let epoch ← okOr acc.epoch (.missingField AckTag.epoch)
  let seq ← okOr acc.seq (.missingField AckTag.seq)
  let stateHash ← okOr acc.stateHash (.missingField AckTag.stateHash)
  let replica ← okOr acc.replica (.missingField AckTag.replica)
  let at_ ← okOr acc.at_ (.missingField AckTag.at_)
  .ok ⟨authorityId, epoch, seq, stateHash, replica, at_⟩

/-- Parse a body whose signature was verified. -/
def decodeBody (body : List UInt8) : Except FormatError Ack :=
  TlvReader.foldFields decodeStep (TlvReader.new body) {} >>= Reading.ack

/-- Parse and verify with a replica key known from outside. The key that the acknowledgment names must
be the same one. -/
def open_ (ed : Ed25519) (bytes : List UInt8) (replica : Digest) : Except FormatError Ack := do
  let (sig, body) ← splitSigned bytes
  (verify ed replica (transcript .replicaAck body) sig).mapError fun _ ↦ .badHeaderSignature
  let ack ← decodeBody body
  refuseIf (ack.replica ≠ replica) (bad AckTag.replica 32)
  .ok ack

/-- The tags and values of an acknowledgment. -/
def contents (ack : Ack) : Contents :=
  [(AckTag.version, [version]), (AckTag.authorityId, ack.authorityId.toList),
    (AckTag.epoch, toLeBytes ack.epoch), (AckTag.seq, toLeBytes ack.seq),
    (AckTag.stateHash, ack.stateHash.toList), (AckTag.replica, ack.replica.toList),
    (AckTag.at_, toLeBytes ack.at_)]

variable {ack : Ack} {bytes : List UInt8}

/-- The body of an acknowledgement is its records. -/
theorem body_eq_ok_iff : ack.body = .ok bytes ↔ Encodes bytes ack.contents := by
  simp only [body, TlvWriter.new_put_bind, TlvWriter.putMany_put_bind,
    TlvWriter.putMany_finish_eq_ok_iff, contents, List.cons_append, List.nil_append]

/-- The tags of an acknowledgment. -/
def tags : List UInt16 := [1, 2, 3, 4, 5, 6, 7]

theorem recordStep_decodeStep : RecordStep tags decodeStep where
  span_free _ _ _ _ _ := rfl
  skips acc tag value span h := by
    unfold decodeStep
    split <;> first | rfl | simp_all [tags]

/-- The loop reads every record of an acknowledgement into its place. -/
theorem foldlM_contents (ack : Ack) :
    ack.contents.foldlM (readField decodeStep) {} =
      .ok ⟨some version, some ack.authorityId, some ack.epoch, some ack.seq, some ack.stateHash,
        some ack.replica, some ack.at_⟩ := by
  simp [contents, readField, decodeStep, AckTag.version, AckTag.authorityId, AckTag.epoch, AckTag.seq,
    AckTag.stateHash, AckTag.replica, AckTag.at_]

/-- **An acknowledgment that was written is read back.** -/
theorem decodeBody_body (h : ack.body = .ok bytes) : decodeBody bytes = .ok ack := by
  rw [decodeBody, recordStep_decodeStep.foldFields_eq (body_eq_ok_iff.mp h), foldlM_contents,
    Except.ok_bind]
  simp [Reading.ack, Except.refuseIf]

end Ack

/-! ### What is signed is opened -/

section

variable {sha : Sha2} {ed : Ed25519} {signer : Signer} {bytes : List UInt8}

/-- A signed document is its signature and its body. -/
theorem splitSigned_eq_ok_iff {sig : Signature} {body : List UInt8} :
    splitSigned bytes = .ok (sig, body) ↔ bytes = sig.toList ++ body := by
  simp only [splitSigned, Except.bind_eq_ok_iff, Except.okOr_eq_ok_iff]
  constructor
  · rintro ⟨⟨first, rest⟩, hsplit, v, hv, h⟩
    obtain ⟨rfl, rfl⟩ := Prod.mk.inj (Except.ok.inj h)
    obtain ⟨-, rfl⟩ := Control.splitAtChecked_eq_some_iff.mp hsplit
    obtain rfl := toVector?_eq_some_iff.mp hv
    rfl
  · rintro rfl
    exact ⟨(sig.toList, body), Control.splitAtChecked_eq_some_iff.mpr ⟨sig.toList_length, rfl⟩, sig,
      toVector?_eq_some_iff.mpr rfl, rfl⟩

theorem splitSigned_append (sig : Signature) (body : List UInt8) :
    splitSigned (sig.toList ++ body) = .ok (sig, body) :=
  splitSigned_eq_ok_iff.mpr rfl

/-- A snapshot opens under the key that signed it. -/
theorem Push.open_sign (hlawful : signer.Lawful ed) {push : Push}
    (h : push.sign sha signer = .ok bytes) :
    Push.open_ sha ed bytes signer.publicKey = .ok push := by
  obtain ⟨body, hbody, h⟩ := Except.bind_eq_ok_iff.mp h
  obtain ⟨sig, hsig, h⟩ := Except.bind_eq_ok_iff.mp h
  cases h
  have hvalid := hlawful (Except.mapError_eq_ok_iff.mp hsig)
  simp only [Push.open_, splitSigned_append, Except.ok_bind, hvalid, Except.ok_mapError]
  exact Push.decodeBody_body hbody

/-- An acknowledgment opens under the key that signed it. -/
theorem Ack.open_sign (hlawful : signer.Lawful ed) {ack : Ack} (h : ack.sign signer = .ok bytes) :
    Ack.open_ ed bytes signer.publicKey = .ok ack := by
  obtain ⟨hkey, h⟩ := Except.check_bind_eq_ok_iff.mp h
  obtain ⟨body, hbody, h⟩ := Except.bind_eq_ok_iff.mp h
  obtain ⟨sig, hsig, h⟩ := Except.bind_eq_ok_iff.mp h
  cases h
  have hvalid := hlawful (Except.mapError_eq_ok_iff.mp hsig)
  have hnamed : ack.replica = signer.publicKey :=
    (not_not.mp (Except.refuseIf_eq_ok_iff.mp hkey)).symm
  simp only [Ack.open_, splitSigned_append, Except.ok_bind, hvalid, Except.ok_mapError,
    Ack.decodeBody_body hbody, Except.refuseIf_of_not (not_not.mpr hnamed)]

end

end Replica

end OpenCrate.Protocol
