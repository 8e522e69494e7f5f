import OpenCrate.Crypto.Agreement
import OpenCrate.Data.Framed
import OpenCrate.Format.Verify
import OpenCrate.Protocol.Access

/-!
# Activation documents

`activation` of `oc-protocol`: how a device introduces itself and is challenged, what it asks of the server to
open a file, and what it is granted or denied. None of these documents is signed; possession of the device key
is proved by the handshake.

A reader checks the lengths of what it reads. A writer writes whatever it is given, so that what is written is
read back only when it has these lengths (`decodeHello_encodeHello_iff` and the theorems after it).
-/

namespace OpenCrate.Protocol.Activation

open OpenCrate.Format OpenCrate.Crypto
open Except (refuseIf okOr)

/-- Maximum activation-document size. -/
def maxDocument : ℕ := maxHeaderLen.toNat

/-! ### Sealed blocks -/

/-- Server slot as received from the device. -/
structure SlotBlob where
  enc : List UInt8
  nonce : List.Vector UInt8 24
  ct : List UInt8
  deriving DecidableEq

/-- The layout of a slot. -/
def encodeSlot (slot : SlotBlob) : Except FormatError (List UInt8) := do
  let encLen ← okOr (UInt32.tryFrom slot.enc.length) .offsetOverflow
  let ctLen ← okOr (UInt32.tryFrom slot.ct.length) .offsetOverflow
  .ok (toLeBytes encLen ++ slot.enc ++ slot.nonce.toList ++ toLeBytes ctLen ++ slot.ct)

/-- The length at a position. -/
def readLen (bytes : List UInt8) (pos : ℕ) : Except FormatError ℕ := do
  let raw ← okOr (slice? bytes pos (pos + 4)) .offsetOverflow
  let value : UInt32 ← okOr (ofLeBytes? raw) .offsetOverflow
  .ok value.toNat

/-- Parse a slot to its last byte. -/
def decodeSlot (bytes : List UInt8) : Except FormatError SlotBlob := do
  let encLen ← readLen bytes 0
  let enc ← okOr (slice? bytes 4 (4 + encLen)) .offsetOverflow
  let nonce ← okOr ((slice? bytes (4 + encLen) (4 + encLen + 24)).bind (toVector? 24)) .offsetOverflow
  let ctLen ← readLen bytes (4 + encLen + 24)
  let ct ← okOr (slice? bytes (4 + encLen + 24 + 4) (4 + encLen + 24 + 4 + ctLen)) .offsetOverflow
  refuseIf (4 + encLen + 24 + 4 + ctLen ≠ bytes.length) .offsetOverflow
  .ok ⟨enc, nonce, ct⟩

/-- A slot that can be written. -/
def SlotBlob.Fits (slot : SlotBlob) : Prop := slot.enc.length < 2 ^ 32 ∧ slot.ct.length < 2 ^ 32

/-- The bytes of a slot. -/
def slotBytes (slot : SlotBlob) : List UInt8 := frame slot.enc ++ (slot.nonce.toList ++ frame slot.ct)

/-- A slot is written if its parts can be counted. -/
theorem encodeSlot_eq_ok_iff {slot : SlotBlob} {bytes : List UInt8} :
    encodeSlot slot = .ok bytes ↔ slot.Fits ∧ bytes = slotBytes slot := by
  simp only [encodeSlot, Except.bind_eq_ok_iff, Except.okOr_eq_ok_iff, UInt32.tryFrom_eq_some_iff,
    Except.ok.injEq, SlotBlob.Fits, slotBytes, frame]
  constructor
  · rintro ⟨encLen, henc, ctLen, hct, rfl⟩
    refine ⟨⟨henc ▸ encLen.toNat_lt, hct ▸ ctLen.toNat_lt⟩, ?_⟩
    rw [← henc, ← hct, UInt32.ofNat_toNat, UInt32.ofNat_toNat]
    simp only [List.append_assoc]
  · rintro ⟨⟨henc, hct⟩, rfl⟩
    refine ⟨_, UInt32.toNat_ofNat_of_lt' henc, _, UInt32.toNat_ofNat_of_lt' hct, ?_⟩
    simp only [List.append_assoc]

/-- A length is four bytes where it stands. -/
theorem readLen_eq_ok_iff {bytes : List UInt8} {pos len : ℕ} :
    readLen bytes pos = .ok len ↔ ∃ value : UInt32, slice? bytes pos (pos + 4) = some (toLeBytes value) ∧
      value.toNat = len := by
  simp only [readLen, Except.bind_eq_ok_iff, Except.okOr_eq_ok_iff, ofLeBytes?_eq_some_iff, Except.ok.injEq]
  constructor
  · rintro ⟨_, hraw, value, rfl, hlen⟩
    exact ⟨value, hraw, hlen⟩
  · rintro ⟨value, hraw, hlen⟩
    exact ⟨_, hraw, value, rfl, hlen⟩

/-- **A slot has one spelling**: the lengths in it account for all of its bytes. -/
theorem decodeSlot_eq_ok_iff {bytes : List UInt8} {slot : SlotBlob} :
    decodeSlot bytes = .ok slot ↔ slot.Fits ∧ bytes = slotBytes slot := by
  simp only [decodeSlot, Except.bind_eq_ok_iff, Except.okOr_eq_ok_iff, readLen_eq_ok_iff,
    Option.bind_eq_some_iff, toVector?_eq_some_iff, Except.refuseIf_eq_ok_iff, not_not, Except.ok.injEq]
  constructor
  · rintro ⟨_, ⟨encLen, hencLen, rfl⟩, enc, henc, nonce, ⟨_, hnonce, rfl⟩, _, ⟨ctLen, hctLen, rfl⟩, ct, hct,
      ⟨⟩, hend, rfl⟩
    obtain ⟨henc, hencLength⟩ := drop_eq_append_of_slice? henc
    obtain ⟨hct, hctLength⟩ := drop_eq_append_of_slice? hct
    have hencLength : enc.length = encLen.toNat := by omega
    have hctLength : ct.length = ctLen.toNat := by omega
    refine ⟨⟨hencLength ▸ encLen.toNat_lt, hctLength ▸ ctLen.toNat_lt⟩, ?_⟩
    rw [← List.drop_zero (l := bytes), (drop_eq_append_of_slice? hencLen).1, henc,
      (drop_eq_append_of_slice? hnonce).1, (drop_eq_append_of_slice? hctLen).1, hct, hend, List.drop_length,
      List.append_nil, slotBytes, frame, frame, hencLength, hctLength, UInt32.ofNat_toNat,
      UInt32.ofNat_toNat]
    simp only [List.append_assoc]
  · rintro ⟨⟨henc, hct⟩, rfl⟩
    have hencNat := UInt32.toNat_ofNat_of_lt' henc
    have hctNat := UInt32.toNat_ofNat_of_lt' hct
    have hlength : (slotBytes slot).length = 4 + slot.enc.length + 24 + 4 + slot.ct.length := by
      simp only [slotBytes, List.length_append, length_frame, List.Vector.toList_length]
      omega
    have h0 : (slotBytes slot).drop 0 = toLeBytes (UInt32.ofNat slot.enc.length) ++
        (slot.enc ++ (slot.nonce.toList ++ frame slot.ct)) := by
      rw [List.drop_zero, slotBytes, frame, List.append_assoc]
    have h4 : (slotBytes slot).drop 4 = slot.enc ++ (slot.nonce.toList ++ frame slot.ct) := by
      rw [← List.drop_zero (l := slotBytes slot), h0]
      exact List.drop_left' (length_toLeBytes _)
    have hnonce : (slotBytes slot).drop (4 + slot.enc.length) = slot.nonce.toList ++ frame slot.ct := by
      rw [← List.drop_drop, h4, List.drop_left]
    have hframe : (slotBytes slot).drop (4 + slot.enc.length + 24) =
        toLeBytes (UInt32.ofNat slot.ct.length) ++ slot.ct := by
      rw [← List.drop_drop, hnonce, List.drop_left' slot.nonce.toList_length, frame]
    have hct : (slotBytes slot).drop (4 + slot.enc.length + 24 + 4) = slot.ct ++ [] := by
      rw [← List.drop_drop, hframe, List.append_nil]
      exact List.drop_left' (length_toLeBytes _)
    have hsliceLen := slice?_of_drop h0 (Nat.zero_le _)
    have hsliceEnc := slice?_of_drop h4 (by omega)
    have hsliceNonce := slice?_of_drop hnonce (by omega)
    have hsliceCtLen := slice?_of_drop hframe (by omega)
    have hsliceCt := slice?_of_drop hct (by omega)
    rw [length_toLeBytes] at hsliceLen hsliceCtLen
    rw [List.Vector.toList_length] at hsliceNonce
    refine ⟨slot.enc.length, ⟨_, hsliceLen, hencNat⟩, _, hsliceEnc, _, ⟨_, hsliceNonce, rfl⟩,
      slot.ct.length, ⟨_, hsliceCtLen, hctNat⟩, _, hsliceCt, (), hlength.symm, rfl⟩

/-! ### Activation requests -/

namespace ReqTag

def fileId : UInt16 := 1

def policyHash : UInt16 := 2

def deviceFpr : UInt16 := 3

def deviceKem : UInt16 := 4

def devicePublic : UInt16 := 5

def serverSlot : UInt16 := 6

def leaseSeconds : UInt16 := 7

def deviceClock : UInt16 := 8

def operationId : UInt16 := 9

end ReqTag

/-- Device hardware-clock reading on the wire. -/
structure ClockReport where
  resetCount : UInt32
  clockMs : UInt64
  readAt : Int64
  deriving DecidableEq

/-- Activation request. -/
structure ActivateReq where
  fileId : List.Vector UInt8 16
  policyHash : Digest
  deviceFpr : Digest
  deviceKem : UInt8
  devicePublic : List UInt8
  serverSlot : SlotBlob
  leaseSeconds : Int64
  deviceClock : Option ClockReport
  /-- Operation identity; absent from an old request. -/
  operationId : Option Digest
  deriving DecidableEq

/-- The value of a clock reading. -/
def clockBytes (clock : ClockReport) : List UInt8 :=
  toLeBytes clock.resetCount ++ toLeBytes clock.clockMs ++ toLeBytes clock.readAt

/-- Encode an activation request. -/
def encodeReq (req : ActivateReq) : Except FormatError (List UInt8) := do
  let w ← TlvWriter.new.put ReqTag.fileId req.fileId.toList
  let w ← w.put ReqTag.policyHash req.policyHash.toList
  let w ← w.put ReqTag.deviceFpr req.deviceFpr.toList
  let w ← w.put ReqTag.deviceKem [req.deviceKem]
  let w ← w.put ReqTag.devicePublic req.devicePublic
  let slot ← encodeSlot req.serverSlot
  let w ← w.put ReqTag.serverSlot slot
  let w ← w.put ReqTag.leaseSeconds (toLeBytes req.leaseSeconds)
  let w ← w.putOpt ReqTag.deviceClock (req.deviceClock.map clockBytes)
  let w ← w.putOpt ReqTag.operationId (req.operationId.map List.Vector.toList)
  .ok w.finish

/-- A clock reading of twenty bytes. -/
def clockField (f : Field) : Except FormatError ClockReport := do
  let resetCount ← okOr ((slice? f.value 0 4).bind ofLeBytes?) f.badLength
  let clockMs ← okOr ((slice? f.value 4 12).bind ofLeBytes?) f.badLength
  let readAt ← okOr ((slice? f.value 12 20).bind ofLeBytes?) f.badLength
  refuseIf (f.value.length ≠ 20) f.badLength
  .ok ⟨resetCount, clockMs, readAt⟩

/-- A value that is not empty. -/
def nonemptyField (f : Field) : Except FormatError (List UInt8) := do
  refuseIf (f.value = []) f.badLength
  .ok f.value

/-- The fields of a request read so far. -/
structure ReqReading where
  fileId : Option (List.Vector UInt8 16) := none
  policyHash : Option Digest := none
  deviceFpr : Option Digest := none
  deviceKem : Option UInt8 := none
  devicePublic : Option (List UInt8) := none
  serverSlot : Option SlotBlob := none
  leaseSeconds : Option Int64 := none
  deviceClock : Option ClockReport := none
  operationId : Option Digest := none

/-- One field of a request, by the tags of `ReqTag`. The length of the key is compared with its mechanism by
whoever takes the request. -/
def decodeReqStep (acc : ReqReading) (f : Field) : Except FormatError ReqReading :=
  match f.tag with
  | 1 => (f.array 16).map fun v ↦ { acc with fileId := some v }
  | 2 => (f.array 32).map fun v ↦ { acc with policyHash := some v }
  | 3 => (f.array 32).map fun v ↦ { acc with deviceFpr := some v }
  | 4 => f.u8.map fun v ↦ { acc with deviceKem := some v }
  | 5 => (nonemptyField f).map fun v ↦ { acc with devicePublic := some v }
  | 6 => (decodeSlot f.value).map fun v ↦ { acc with serverSlot := some v }
  | 7 => f.le.map fun v ↦ { acc with leaseSeconds := some v }
  | 8 => (clockField f).map fun v ↦ { acc with deviceClock := some v }
  | 9 => (f.array 32).map fun v ↦ { acc with operationId := some v }
  | other => skipUnknown other acc

/-- The request that was read. -/
def ReqReading.req (acc : ReqReading) : Except FormatError ActivateReq := do
  let fileId ← okOr acc.fileId (.missingField ReqTag.fileId)
  let policyHash ← okOr acc.policyHash (.missingField ReqTag.policyHash)
  let deviceFpr ← okOr acc.deviceFpr (.missingField ReqTag.deviceFpr)
  let deviceKem ← okOr acc.deviceKem (.missingField ReqTag.deviceKem)
  let devicePublic ← okOr acc.devicePublic (.missingField ReqTag.devicePublic)
  let serverSlot ← okOr acc.serverSlot (.missingField ReqTag.serverSlot)
  let leaseSeconds ← okOr acc.leaseSeconds (.missingField ReqTag.leaseSeconds)
  .ok ⟨fileId, policyHash, deviceFpr, deviceKem, devicePublic, serverSlot, leaseSeconds, acc.deviceClock,
    acc.operationId⟩

/-- Parse an activation request. -/
def decodeReq (bytes : List UInt8) : Except FormatError ActivateReq := do
  refuseIf (maxDocument < bytes.length) .offsetOverflow
  TlvReader.foldFields decodeReqStep (TlvReader.new bytes) {} >>= ReqReading.req

/-- The tags and values of a request. -/
def ActivateReq.contents (req : ActivateReq) : Contents :=
  [(ReqTag.fileId, req.fileId.toList), (ReqTag.policyHash, req.policyHash.toList),
    (ReqTag.deviceFpr, req.deviceFpr.toList), (ReqTag.deviceKem, [req.deviceKem]),
    (ReqTag.devicePublic, req.devicePublic), (ReqTag.serverSlot, slotBytes req.serverSlot),
    (ReqTag.leaseSeconds, toLeBytes req.leaseSeconds)] ++
    optField ReqTag.deviceClock (req.deviceClock.map clockBytes) ++
    optField ReqTag.operationId (req.operationId.map List.Vector.toList)

/-- A request is its records, if its slot can be written. -/
theorem encodeReq_eq_ok_iff {req : ActivateReq} {bytes : List UInt8} :
    encodeReq req = .ok bytes ↔ req.serverSlot.Fits ∧ Encodes bytes req.contents := by
  simp only [encodeReq, TlvWriter.new_put_bind, TlvWriter.putMany_put_bind, TlvWriter.putMany_putOpt_bind,
    TlvWriter.putMany_bind_eq_ok_iff, TlvWriter.putMany_finish_eq_ok_iff, encodeSlot_eq_ok_iff,
    ActivateReq.contents, List.cons_append, List.nil_append]
  constructor
  · rintro ⟨_, ⟨hfits, rfl⟩, hbytes⟩
    exact ⟨hfits, hbytes⟩
  · rintro ⟨hfits, hbytes⟩
    exact ⟨_, ⟨hfits, rfl⟩, hbytes⟩

/-- The tags of a request. -/
def reqTags : List UInt16 := [1, 2, 3, 4, 5, 6, 7, 8, 9]

theorem recordStep_decodeReqStep : RecordStep reqTags decodeReqStep where
  span_free _ _ _ _ _ := rfl
  skips acc tag value span h := by
    unfold decodeReqStep
    split <;> first | rfl | simp_all [reqTags]

/-- A clock is read back from its twenty bytes. -/
theorem clockField_mk (tag : UInt16) (clock : ClockReport) (span : Span) :
    clockField ⟨tag, clockBytes clock, span⟩ = .ok clock := by
  have h0 : (clockBytes clock).drop 0 =
      toLeBytes clock.resetCount ++ (toLeBytes clock.clockMs ++ toLeBytes clock.readAt) := by
    rw [List.drop_zero, clockBytes, List.append_assoc]
  have h4 : (clockBytes clock).drop 4 = toLeBytes clock.clockMs ++ toLeBytes clock.readAt := by
    rw [← List.drop_zero (l := clockBytes clock), h0]
    exact List.drop_left' (length_toLeBytes _)
  have h12 : (clockBytes clock).drop 12 = toLeBytes clock.readAt ++ [] := by
    rw [show 12 = 4 + 8 from rfl, ← List.drop_drop, h4, List.append_nil]
    exact List.drop_left' (length_toLeBytes _)
  have hlength : (clockBytes clock).length = 20 := by
    simp only [clockBytes, List.length_append, length_toLeBytes]
    rfl
  have hresetCount := slice?_of_drop h0 (Nat.zero_le _)
  have hclockMs := slice?_of_drop h4 (by omega)
  have hreadAt := slice?_of_drop h12 (by omega)
  rw [length_toLeBytes] at hresetCount hclockMs hreadAt
  simp only [clockField, Except.bind_eq_ok_iff, Except.okOr_eq_ok_iff, Option.bind_eq_some_iff,
    ofLeBytes?_eq_some_iff, Except.refuseIf_eq_ok_iff, Except.ok.injEq]
  exact ⟨_, ⟨_, hresetCount, rfl⟩, _, ⟨_, hclockMs, rfl⟩, _, ⟨_, hreadAt, rfl⟩, (), not_not.mpr hlength, rfl⟩

/-- The fields read off what was written. -/
def ReqReading.of (req : ActivateReq) : ReqReading :=
  ⟨some req.fileId, some req.policyHash, some req.deviceFpr, some req.deviceKem, some req.devicePublic,
    some req.serverSlot, some req.leaseSeconds, req.deviceClock, req.operationId⟩

/-- The loop reads every record of a request into its place. -/
theorem foldlM_req_contents {req : ActivateReq} (hslot : req.serverSlot.Fits)
    (hpublic : req.devicePublic ≠ []) :
    req.contents.foldlM (readField decodeReqStep) {} = .ok (ReqReading.of req) := by
  have hdecode : decodeSlot (slotBytes req.serverSlot) = .ok req.serverSlot :=
    decodeSlot_eq_ok_iff.mpr ⟨hslot, rfl⟩
  obtain ⟨fileId, policyHash, deviceFpr, deviceKem, devicePublic, serverSlot, leaseSeconds, clock, id⟩ := req
  cases clock <;> cases id
  all_goals
    simp_all [ActivateReq.contents, readField, decodeReqStep, ReqTag.fileId, ReqTag.policyHash,
      ReqTag.deviceFpr, ReqTag.deviceKem, ReqTag.devicePublic, ReqTag.serverSlot, ReqTag.leaseSeconds,
      ReqTag.deviceClock, ReqTag.operationId, nonemptyField, Except.refuseIf, clockField_mk, ReqReading.of]

/-- The reader requires a public key. -/
theorem devicePublic_ne_nil_of_decodeReq {bytes : List UInt8} {req : ActivateReq}
    (h : decodeReq bytes = .ok req) : req.devicePublic ≠ [] := by
  obtain ⟨-, h⟩ := Except.check_bind_eq_ok_iff.mp h
  obtain ⟨acc, hloop, hreq⟩ := Except.bind_eq_ok_iff.mp h
  obtain ⟨l, henc, -⟩ := exists_encodes_of_foldFields hloop
  rw [recordStep_decodeReqStep.foldFields_eq henc] at hloop
  have hpublic : ∀ key ∈ acc.devicePublic, key ≠ [] := by
    refine Except.foldlM_invariant (P := fun acc ↦ ∀ key ∈ acc.devicePublic, key ≠ []) hloop nofun ?_
    intro p _ acc acc' hacc hstep
    rw [readField, decodeReqStep] at hstep
    split at hstep
    case h_5 =>
      obtain ⟨v, hv, rfl⟩ := Except.map_eq_ok_iff.mp hstep
      obtain ⟨hne, hok⟩ := Except.check_bind_eq_ok_iff.mp hv
      rintro _ ⟨⟩
      exact Except.ok.inj hok ▸ Except.refuseIf_eq_ok_iff.mp hne
    case h_10 => exact eq_of_skipUnknown hstep ▸ hacc
    all_goals
      obtain ⟨v, -, rfl⟩ := Except.map_eq_ok_iff.mp hstep
      exact hacc
  simp only [ReqReading.req, Except.bind_eq_ok_iff, Except.okOr_eq_ok_iff] at hreq
  obtain ⟨_, -, _, -, _, -, _, -, key, hread, _, -, _, -, hok⟩ := hreq
  obtain rfl := Except.ok.inj hok
  exact hpublic key hread

/-- How long the document of a request is. -/
def ActivateReq.size (req : ActivateReq) : ℕ :=
  163 + req.devicePublic.length + req.serverSlot.enc.length + req.serverSlot.ct.length +
    (if req.deviceClock.isSome then 26 else 0) + if req.operationId.isSome then 38 else 0

theorem length_clockBytes (clock : ClockReport) : (clockBytes clock).length = 20 := by
  simp only [clockBytes, List.length_append, length_toLeBytes]
  rfl

theorem length_slotBytes (slot : SlotBlob) :
    (slotBytes slot).length = 32 + slot.enc.length + slot.ct.length := by
  simp only [slotBytes, List.length_append, length_frame, List.Vector.toList_length]
  omega

/-- The length of a request is the sum of its parts. -/
theorem ActivateReq.encodedLength_contents (req : ActivateReq) : encodedLength req.contents = req.size := by
  obtain ⟨fileId, policyHash, deviceFpr, deviceKem, devicePublic, serverSlot, leaseSeconds, clock, id⟩ := req
  cases clock <;> cases id
  all_goals
    simp [ActivateReq.contents, ActivateReq.size, length_slotBytes, length_clockBytes,
      fieldPrefixLen]
    omega

/-- **A written request is read back** if and only if it names a key and is no longer than a document. -/
theorem decodeReq_encodeReq_iff {req : ActivateReq} {bytes : List UInt8} (h : encodeReq req = .ok bytes) :
    decodeReq bytes = .ok req ↔ req.devicePublic ≠ [] ∧ req.size ≤ maxDocument := by
  obtain ⟨hslot, henc⟩ := encodeReq_eq_ok_iff.mp h
  have hlength : bytes.length = req.size := henc.length_eq.trans req.encodedLength_contents
  constructor
  · intro hread
    refine ⟨devicePublic_ne_nil_of_decodeReq hread, ?_⟩
    rw [← hlength]
    exact not_lt.mp (Except.refuseIf_eq_ok_iff.mp (Except.check_bind_eq_ok_iff.mp hread).1)
  · rintro ⟨hpublic, hsize⟩
    rw [decodeReq, Except.refuseIf_of_not (not_lt.mpr (hlength.trans_le hsize)), Except.ok_bind,
      recordStep_decodeReqStep.foldFields_eq henc, foldlM_req_contents hslot hpublic, Except.ok_bind]
    rfl

/-! ### Grants -/

namespace GrantTag

def share : UInt16 := 1

def lease : UInt16 := 2

def operationId : UInt16 := 3

end GrantTag

/-- Grant: share and signed lease. -/
structure Grant where
  share : List UInt8
  lease : List UInt8
  /-- Operation-identity echo. -/
  operationId : Option Digest
  deriving DecidableEq

/-- Encode a grant. -/
def encodeGrant (grant : Grant) : Except FormatError (List UInt8) := do
  let w ← TlvWriter.new.put GrantTag.share grant.share
  let w ← w.put GrantTag.lease grant.lease
  let w ← w.putOpt GrantTag.operationId (grant.operationId.map List.Vector.toList)
  .ok w.finish

/-- The fields of a grant read so far. -/
structure GrantReading where
  share : Option (List UInt8) := none
  lease : Option (List UInt8) := none
  operationId : Option Digest := none

/-- One field of a grant, by the tags of `GrantTag`. -/
def decodeGrantStep (acc : GrantReading) (f : Field) : Except FormatError GrantReading :=
  match f.tag with
  | 1 => .ok { acc with share := some f.value }
  | 2 => .ok { acc with lease := some f.value }
  | 3 => (f.array 32).map fun v ↦ { acc with operationId := some v }
  | other => skipUnknown other acc

/-- The grant that was read. -/
def GrantReading.grant (acc : GrantReading) : Except FormatError Grant := do
  let share ← okOr acc.share (.missingField GrantTag.share)
  let lease ← okOr acc.lease (.missingField GrantTag.lease)
  .ok ⟨share, lease, acc.operationId⟩

/-- Parse a grant. -/
def decodeGrant (bytes : List UInt8) : Except FormatError Grant := do
  refuseIf (maxDocument < bytes.length) .offsetOverflow
  TlvReader.foldFields decodeGrantStep (TlvReader.new bytes) {} >>= GrantReading.grant

/-- The tags and values of a grant. -/
def Grant.contents (grant : Grant) : Contents :=
  [(GrantTag.share, grant.share), (GrantTag.lease, grant.lease)] ++
    optField GrantTag.operationId (grant.operationId.map List.Vector.toList)

/-- A grant is its records, and nothing is asked of them. -/
theorem encodeGrant_eq_ok_iff {grant : Grant} {bytes : List UInt8} :
    encodeGrant grant = .ok bytes ↔ Encodes bytes grant.contents := by
  simp only [encodeGrant, TlvWriter.new_put_bind, TlvWriter.putMany_put_bind,
    TlvWriter.putMany_putOpt_bind, TlvWriter.putMany_finish_eq_ok_iff, Grant.contents, List.cons_append,
    List.nil_append]

/-- The tags of a grant. -/
def grantTags : List UInt16 := [1, 2, 3]

theorem recordStep_decodeGrantStep : RecordStep grantTags decodeGrantStep where
  span_free _ _ _ _ _ := rfl
  skips acc tag value span h := by
    unfold decodeGrantStep
    split <;> first | rfl | simp_all [grantTags]

/-- The loop reads every record of a grant into its place. -/
theorem foldlM_grant_contents (grant : Grant) :
    grant.contents.foldlM (readField decodeGrantStep) {} =
      .ok ⟨some grant.share, some grant.lease, grant.operationId⟩ := by
  obtain ⟨share, lease, id⟩ := grant
  cases id <;>
    simp [Grant.contents, readField, decodeGrantStep, GrantTag.share, GrantTag.lease, GrantTag.operationId]

/-- How long the document of a grant is. -/
def Grant.size (grant : Grant) : ℕ :=
  12 + grant.share.length + grant.lease.length + if grant.operationId.isSome then 38 else 0

theorem Grant.encodedLength_contents (grant : Grant) : encodedLength grant.contents = grant.size := by
  obtain ⟨share, lease, id⟩ := grant
  cases id
  all_goals
    simp [Grant.contents, Grant.size, fieldPrefixLen]
    omega

/-- **A written grant is read back** if and only if it is no longer than a document. -/
theorem decodeGrant_encodeGrant_iff {grant : Grant} {bytes : List UInt8}
    (h : encodeGrant grant = .ok bytes) : decodeGrant bytes = .ok grant ↔ grant.size ≤ maxDocument := by
  have henc := encodeGrant_eq_ok_iff.mp h
  have hlength : bytes.length = grant.size := henc.length_eq.trans grant.encodedLength_contents
  rw [decodeGrant, Except.check_bind_eq_ok_iff, Except.refuseIf_eq_ok_iff, not_lt, hlength,
    recordStep_decodeGrantStep.foldFields_eq henc, foldlM_grant_contents, Except.ok_bind]
  exact and_iff_left rfl

/-! ### Refusals -/

namespace DenyTag

def text : UInt16 := 1

def operationId : UInt16 := 2

end DenyTag

/-- Refusal. -/
structure Deny where
  text : String
  /-- Operation-identity echo. -/
  operationId : Option Digest
  deriving DecidableEq

/-- Encode a refusal. -/
def encodeDeny (deny : Deny) : Except FormatError (List UInt8) := do
  let w ← TlvWriter.new.put DenyTag.text (utf8 deny.text)
  let w ← w.putOpt DenyTag.operationId (deny.operationId.map List.Vector.toList)
  .ok w.finish

/-- The fields of a refusal read so far. -/
structure DenyReading where
  text : Option String := none
  operationId : Option Digest := none

/-- One field of a refusal, by the tags of `DenyTag`. -/
def decodeDenyStep (acc : DenyReading) (f : Field) : Except FormatError DenyReading :=
  match f.tag with
  | 1 => (okOr (fromUtf8? f.value) (.badFieldLength DenyTag.text f.value.length)).map fun v ↦
      { acc with text := some v }
  | 2 => (f.array 32).map fun v ↦ { acc with operationId := some v }
  | other => skipUnknown other acc

/-- The refusal that was read. -/
def DenyReading.deny (acc : DenyReading) : Except FormatError Deny := do
  let text ← okOr acc.text (.missingField DenyTag.text)
  .ok ⟨text, acc.operationId⟩

/-- Parse a refusal. -/
def decodeDeny (bytes : List UInt8) : Except FormatError Deny := do
  refuseIf (maxDocument < bytes.length) .offsetOverflow
  TlvReader.foldFields decodeDenyStep (TlvReader.new bytes) {} >>= DenyReading.deny

/-- The tags and values of a refusal. -/
def Deny.contents (deny : Deny) : Contents :=
  (DenyTag.text, utf8 deny.text) :: optField DenyTag.operationId (deny.operationId.map List.Vector.toList)

/-- A denial is its records, too. -/
theorem encodeDeny_eq_ok_iff {deny : Deny} {bytes : List UInt8} :
    encodeDeny deny = .ok bytes ↔ Encodes bytes deny.contents := by
  simp only [encodeDeny, TlvWriter.new_put_bind, TlvWriter.putMany_putOpt_bind,
    TlvWriter.putMany_finish_eq_ok_iff, Deny.contents, List.cons_append, List.nil_append]

/-- The tags of a refusal. -/
def denyTags : List UInt16 := [1, 2]

theorem recordStep_decodeDenyStep : RecordStep denyTags decodeDenyStep where
  span_free _ _ _ _ _ := rfl
  skips acc tag value span h := by
    unfold decodeDenyStep
    split <;> first | rfl | simp_all [denyTags]

/-- The loop reads them back. -/
theorem foldlM_deny_contents (deny : Deny) :
    deny.contents.foldlM (readField decodeDenyStep) {} = .ok ⟨some deny.text, deny.operationId⟩ := by
  obtain ⟨text, id⟩ := deny
  have htext : fromUtf8? (utf8 text) = some text := fromUtf8?_eq_some_iff.mpr rfl
  cases id <;> simp [Deny.contents, readField, decodeDenyStep, DenyTag.text, DenyTag.operationId, htext]

/-- How long the document of a refusal is. -/
def Deny.size (deny : Deny) : ℕ :=
  6 + (utf8 deny.text).length + if deny.operationId.isSome then 38 else 0

theorem Deny.encodedLength_contents (deny : Deny) : encodedLength deny.contents = deny.size := by
  obtain ⟨text, id⟩ := deny
  cases id <;> simp [Deny.contents, Deny.size, fieldPrefixLen]

/-- **A written refusal is read back** if and only if it is no longer than a document. -/
theorem decodeDeny_encodeDeny_iff {deny : Deny} {bytes : List UInt8} (h : encodeDeny deny = .ok bytes) :
    decodeDeny bytes = .ok deny ↔ deny.size ≤ maxDocument := by
  have henc := encodeDeny_eq_ok_iff.mp h
  have hlength : bytes.length = deny.size := henc.length_eq.trans deny.encodedLength_contents
  rw [decodeDeny, Except.check_bind_eq_ok_iff, Except.refuseIf_eq_ok_iff, not_lt, hlength,
    recordStep_decodeDenyStep.foldFields_eq henc, foldlM_deny_contents, Except.ok_bind]
  exact and_iff_left rfl

end OpenCrate.Protocol.Activation
