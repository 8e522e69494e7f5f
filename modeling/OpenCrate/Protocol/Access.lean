import OpenCrate.Crypto.Sign
import OpenCrate.Data.Bytes
import OpenCrate.Format.Text
import OpenCrate.Format.TlvRecord

/-!
# Access requests

`access` of `oc-protocol`: what a device asks of the author, how the request waits in the queue of the
server, and what the author decides. A note is text from a stranger that is shown to a person, so its
characters are checked.
-/

namespace OpenCrate.Protocol

open OpenCrate.Format OpenCrate.Crypto
open Except (refuseIf okOr)

/-- Maximum note length. -/
def maxNote : ℕ := 256

/-- Validate a note using the shared character rules. -/
def checkNote (note : String) (tag : UInt16) : Except FormatError Unit := do
  refuseIf (maxNote < (utf8 note).length) (.badFieldLength tag (utf8 note).length)
  checkDisplay note tag

/-- Field value as text. -/
def textField (field : Field) (tag : UInt16) : Except FormatError String :=
  okOr (fromUtf8? field.value) (.notUtf8 tag)

/-- Field value as a note. -/
def noteField (field : Field) (tag : UInt16) : Except FormatError String := do
  let note ← textField field tag
  checkNote note tag
  .ok note

/-- A note that passed its check has a bounded length. -/
theorem length_utf8_le_of_checkNote {note : String} {tag : UInt16} (h : checkNote note tag = .ok ()) :
    (utf8 note).length ≤ maxNote :=
  not_lt.mp (Except.refuseIf_eq_ok_iff.mp (Except.check_bind_eq_ok_iff.mp h).1)

@[simp] theorem textField_utf8 (tag tag' : UInt16) (text : String) (span : Span) :
    textField ⟨tag, utf8 text, span⟩ tag' = .ok text :=
  Except.okOr_eq_ok_iff.mpr (fromUtf8?_eq_some_iff.mpr rfl)

/-- A checked note is read back. -/
theorem noteField_utf8 {tag tag' : UInt16} {note : String} {span : Span}
    (h : checkNote note tag' = .ok ()) : noteField ⟨tag, utf8 note, span⟩ tag' = .ok note := by
  rw [noteField, textField_utf8, Except.ok_bind, h, Except.ok_bind]

/-- And what is read has passed the check. -/
theorem checkNote_of_noteField {field : Field} {tag : UInt16} {note : String}
    (h : noteField field tag = .ok note) : checkNote note tag = .ok () := by
  obtain ⟨note', -, h⟩ := Except.bind_eq_ok_iff.mp h
  obtain ⟨hnote, h⟩ := Except.check_bind_eq_ok_iff.mp h
  exact Except.ok.inj h ▸ hnote

namespace Access

namespace Tag

def fileId : UInt16 := 1

def deviceFpr : UInt16 := 2

def devicePublic : UInt16 := 3

def deviceKem : UInt16 := 4

def note : UInt16 := 5

def seq : UInt16 := 6

def at_ : UInt16 := 7

def approve : UInt16 := 8

def enc : UInt16 := 9

def nonce : UInt16 := 10

def ct : UInt16 := 11

def authorKey : UInt16 := 12

def signature : UInt16 := 13

end Tag

/-- An access request sent by a device. -/
structure AskAccess where
  fileId : List.Vector UInt8 16
  deviceFpr : Digest
  devicePublic : List UInt8
  deviceKem : UInt8
  note : String
  deriving DecidableEq

/-- A request awaiting a decision, as seen by the author. -/
structure Pending where
  seq : UInt64
  fileId : List.Vector UInt8 16
  deviceFpr : Digest
  devicePublic : List UInt8
  deviceKem : UInt8
  note : String
  at_ : Int64
  deriving DecidableEq

/-- A request or queue entry read so far. -/
structure Reading where
  fileId : Option (List.Vector UInt8 16) := none
  deviceFpr : Option Digest := none
  devicePublic : Option (List UInt8) := none
  deviceKem : Option UInt8 := none
  note : Option String := none
  seq : Option UInt64 := none
  at_ : Option Int64 := none

/-- One field of a request, by the tags of `Tag`. -/
def decodeAskStep (acc : Reading) (f : Field) : Except FormatError Reading :=
  match f.tag with
  | 1 => (f.array 16).map fun v ↦ { acc with fileId := some v }
  | 2 => (f.array 32).map fun v ↦ { acc with deviceFpr := some v }
  | 3 => .ok { acc with devicePublic := some f.value }
  | 4 => f.u8.map fun v ↦ { acc with deviceKem := some v }
  | 5 => (noteField f Tag.note).map fun v ↦ { acc with note := some v }
  | other => skipUnknown other acc

/-- Parse a request. -/
def decodeAsk (bytes : List UInt8) : Except FormatError AskAccess := do
  let acc ← TlvReader.foldFields decodeAskStep (TlvReader.new bytes) {}
  let fileId ← okOr acc.fileId (.missingField Tag.fileId)
  let deviceFpr ← okOr acc.deviceFpr (.missingField Tag.deviceFpr)
  let devicePublic ← okOr acc.devicePublic (.missingField Tag.devicePublic)
  let deviceKem ← okOr acc.deviceKem (.missingField Tag.deviceKem)
  let note ← okOr acc.note (.missingField Tag.note)
  .ok ⟨fileId, deviceFpr, devicePublic, deviceKem, note⟩

/-- One field of a queue entry, by the tags of `Tag`. -/
def decodePendingStep (acc : Reading) (f : Field) : Except FormatError Reading :=
  match f.tag with
  | 1 => (f.array 16).map fun v ↦ { acc with fileId := some v }
  | 2 => (f.array 32).map fun v ↦ { acc with deviceFpr := some v }
  | 3 => .ok { acc with devicePublic := some f.value }
  | 4 => f.u8.map fun v ↦ { acc with deviceKem := some v }
  | 5 => (noteField f Tag.note).map fun v ↦ { acc with note := some v }
  | 6 => f.le.map fun v ↦ { acc with seq := some v }
  | 7 => f.le.map fun v ↦ { acc with at_ := some v }
  | other => skipUnknown other acc

/-- Parse a queue entry. -/
def decodePending (bytes : List UInt8) : Except FormatError Pending := do
  let acc ← TlvReader.foldFields decodePendingStep (TlvReader.new bytes) {}
  let seq ← okOr acc.seq (.missingField Tag.seq)
  let fileId ← okOr acc.fileId (.missingField Tag.fileId)
  let deviceFpr ← okOr acc.deviceFpr (.missingField Tag.deviceFpr)
  let devicePublic ← okOr acc.devicePublic (.missingField Tag.devicePublic)
  let deviceKem ← okOr acc.deviceKem (.missingField Tag.deviceKem)
  let note ← okOr acc.note (.missingField Tag.note)
  let at_ ← okOr acc.at_ (.missingField Tag.at_)
  .ok ⟨seq, fileId, deviceFpr, devicePublic, deviceKem, note, at_⟩

/-- A share sealed to a device. -/
structure Blob where
  enc : List UInt8
  nonce : List.Vector UInt8 24
  ct : List UInt8
  deriving DecidableEq

/-- The author's decision on a request, or in advance of one. -/
structure Decision where
  seq : UInt64
  fileId : List.Vector UInt8 16
  deviceFpr : Digest
  approve : Bool
  /-- Share B, sealed to the device key; a denial has none. -/
  shareB : Option Blob
  authorKey : Digest
  signature : Signature
  deriving DecidableEq

/-- The number in the place of a queue number in a decision for an heir. -/
def heirSeq : UInt64 := UInt64.ofNat (2 ^ 64 - 1)

/-- A decision read so far. -/
structure DecisionReading where
  seq : Option UInt64 := none
  fileId : Option (List.Vector UInt8 16) := none
  deviceFpr : Option Digest := none
  approve : Option Bool := none
  enc : Option (List UInt8) := none
  nonce : Option (List.Vector UInt8 24) := none
  ct : Option (List UInt8) := none
  authorKey : Option Digest := none
  signature : Option Signature := none

/-- Strictly zero or one. -/
def decodeApprove : UInt8 → Except FormatError Bool
  | 0 => .ok false
  | 1 => .ok true
  | _ => .error (.badFieldLength Tag.approve 1)

/-- One field of a decision, by the tags of `Tag`. Every unknown tag is refused: the signature is
verified over a body built anew, and a skipped field would not be covered by it. -/
def decodeDecisionStep (acc : DecisionReading) (f : Field) : Except FormatError DecisionReading :=
  match f.tag with
  | 6 => f.le.map fun v ↦ { acc with seq := some v }
  | 1 => (f.array 16).map fun v ↦ { acc with fileId := some v }
  | 2 => (f.array 32).map fun v ↦ { acc with deviceFpr := some v }
  | 8 => (f.u8 >>= decodeApprove).map fun v ↦ { acc with approve := some v }
  | 9 => .ok { acc with enc := some f.value }
  | 10 => (f.array 24).map fun v ↦ { acc with nonce := some v }
  | 11 => .ok { acc with ct := some f.value }
  | 12 => (f.array 32).map fun v ↦ { acc with authorKey := some v }
  | 13 => (f.array 64).map fun v ↦ { acc with signature := some v }
  | other => .error (.unknownCriticalField other)

/-- Decision signature transcript. -/
def decisionTranscript (body : List UInt8) : Transcript := (Transcript.new .grant).field body

/-- The share is there with an approval and absent with a denial. -/
def shareOf (approve : Bool) (acc : DecisionReading) : Except FormatError (Option Blob) :=
  match approve, acc.enc, acc.nonce, acc.ct with
  | true, some enc, some nonce, some ct => .ok (some ⟨enc, nonce, ct⟩)
  | true, _, _, _ => .error (.missingField Tag.ct)
  | false, none, none, none => .ok none
  | false, _, _, _ => .error (.badFieldLength Tag.ct 0)

/-- Parse a decision. -/
def decodeDecision (bytes : List UInt8) : Except FormatError Decision := do
  let acc ← TlvReader.foldFields decodeDecisionStep (TlvReader.new bytes) {}
  let approve ← okOr acc.approve (.missingField Tag.approve)
  let shareB ← shareOf approve acc
  let seq ← okOr acc.seq (.missingField Tag.seq)
  let fileId ← okOr acc.fileId (.missingField Tag.fileId)
  let deviceFpr ← okOr acc.deviceFpr (.missingField Tag.deviceFpr)
  let authorKey ← okOr acc.authorKey (.missingField Tag.authorKey)
  let signature ← okOr acc.signature (.missingField Tag.signature)
  .ok ⟨seq, fileId, deviceFpr, approve, shareB, authorKey, signature⟩

/-! ### Written and read back -/

/-- Encode a request. -/
def encodeAsk (ask : AskAccess) : Except FormatError (List UInt8) := do
  checkNote ask.note Tag.note
  let w ← TlvWriter.new.put Tag.fileId ask.fileId.toList
  let w ← w.put Tag.deviceFpr ask.deviceFpr.toList
  let w ← w.put Tag.devicePublic ask.devicePublic
  let w ← w.put Tag.deviceKem [ask.deviceKem]
  let w ← w.put Tag.note (utf8 ask.note)
  .ok w.finish

/-- Encode a queue entry. -/
def encodePending (p : Pending) : Except FormatError (List UInt8) := do
  checkNote p.note Tag.note
  let w ← TlvWriter.new.put Tag.fileId p.fileId.toList
  let w ← w.put Tag.deviceFpr p.deviceFpr.toList
  let w ← w.put Tag.devicePublic p.devicePublic
  let w ← w.put Tag.deviceKem [p.deviceKem]
  let w ← w.put Tag.note (utf8 p.note)
  let w ← w.put Tag.seq (toLeBytes p.seq)
  let w ← w.put Tag.at_ (toLeBytes p.at_)
  .ok w.finish

/-- The tags and values of a request. -/
def AskAccess.contents (ask : AskAccess) : Contents :=
  [(Tag.fileId, ask.fileId.toList), (Tag.deviceFpr, ask.deviceFpr.toList),
    (Tag.devicePublic, ask.devicePublic), (Tag.deviceKem, [ask.deviceKem]), (Tag.note, utf8 ask.note)]

/-- The tags and values of a queue entry. -/
def Pending.contents (p : Pending) : Contents :=
  [(Tag.fileId, p.fileId.toList), (Tag.deviceFpr, p.deviceFpr.toList), (Tag.devicePublic, p.devicePublic),
    (Tag.deviceKem, [p.deviceKem]), (Tag.note, utf8 p.note), (Tag.seq, toLeBytes p.seq),
    (Tag.at_, toLeBytes p.at_)]

/-- A request for access is its records, if its note is displayable. -/
theorem encodeAsk_eq_ok_iff {ask : AskAccess} {bytes : List UInt8} :
    encodeAsk ask = .ok bytes ↔ checkNote ask.note Tag.note = .ok () ∧ Encodes bytes ask.contents := by
  rw [encodeAsk, Except.check_bind_eq_ok_iff]
  simp only [TlvWriter.new_put_bind, TlvWriter.putMany_put_bind, TlvWriter.putMany_finish_eq_ok_iff,
    AskAccess.contents, List.cons_append, List.nil_append]

/-- So is what waits for a decision. -/
theorem encodePending_eq_ok_iff {p : Pending} {bytes : List UInt8} :
    encodePending p = .ok bytes ↔ checkNote p.note Tag.note = .ok () ∧ Encodes bytes p.contents := by
  rw [encodePending, Except.check_bind_eq_ok_iff]
  simp only [TlvWriter.new_put_bind, TlvWriter.putMany_put_bind, TlvWriter.putMany_finish_eq_ok_iff,
    Pending.contents, List.cons_append, List.nil_append]

/-- The tags of a request. -/
def askTags : List UInt16 := [1, 2, 3, 4, 5]

/-- The tags of a queue entry. -/
def pendingTags : List UInt16 := [1, 2, 3, 4, 5, 6, 7]

theorem recordStep_decodeAskStep : RecordStep askTags decodeAskStep where
  span_free _ _ _ _ _ := rfl
  skips acc tag value span h := by
    unfold decodeAskStep
    split <;> first | rfl | simp_all [askTags]

theorem recordStep_decodePendingStep : RecordStep pendingTags decodePendingStep where
  span_free _ _ _ _ _ := rfl
  skips acc tag value span h := by
    unfold decodePendingStep
    split <;> first | rfl | simp_all [pendingTags]

/-- **A written request is read back.** -/
theorem decodeAsk_encodeAsk {ask : AskAccess} {bytes : List UInt8} (h : encodeAsk ask = .ok bytes) :
    decodeAsk bytes = .ok ask := by
  obtain ⟨hnote, henc⟩ := encodeAsk_eq_ok_iff.mp h
  rw [decodeAsk, recordStep_decodeAskStep.foldFields_eq henc]
  simp [AskAccess.contents, readField, decodeAskStep, Tag.fileId, Tag.deviceFpr, Tag.devicePublic,
    Tag.deviceKem, Tag.note, noteField_utf8 (show checkNote ask.note 5 = .ok () from hnote)]

/-- **A written queue entry is read back.** -/
theorem decodePending_encodePending {p : Pending} {bytes : List UInt8} (h : encodePending p = .ok bytes) :
    decodePending bytes = .ok p := by
  obtain ⟨hnote, henc⟩ := encodePending_eq_ok_iff.mp h
  rw [decodePending, recordStep_decodePendingStep.foldFields_eq henc]
  simp [Pending.contents, readField, decodePendingStep, Tag.fileId, Tag.deviceFpr, Tag.devicePublic,
    Tag.deviceKem, Tag.note, Tag.seq, Tag.at_,
    noteField_utf8 (show checkNote p.note 5 = .ok () from hnote)]

end Access

end OpenCrate.Protocol
