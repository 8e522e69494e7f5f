import OpenCrate.Protocol.Access
import OpenCrate.Protocol.AttributeRule
import OpenCrate.Protocol.SignedDocuments

/-!
# Orders of an author

`order` of `oc-protocol`: what an author tells the server to do with a file, or with all files of a key.
There is one layout for all kinds; which fields a kind needs and which it must not have is one list of
conditions (`Order.check`), used on writing and on reading.
-/

namespace OpenCrate.Protocol

open OpenCrate.Format OpenCrate.Crypto
open Except (refuseIf okOr)

/-- What to do. -/
inductive Order.Kind where
  | register
  | revoke
  | setLimits
  | setCoauthors
  | setApprovers
  | approveDevice
  | alive
  | setHeir
  | freeze
  | replaceDevice
  | setRule
  | watchAuthor
  | revokeGrant
  deriving DecidableEq

/-- What to do when the author's silence exceeds the interval. -/
inductive Order.HeirMode where
  /-- Clear the heir and interval entirely. -/
  | off
  /-- Open the bequest for the heir. -/
  | open_
  /-- Close the file for everyone. -/
  | close
  deriving DecidableEq

/-- The order as seen by both parties. -/
structure Order where
  fileId : List.Vector UInt8 16
  kind : Order.Kind
  /-- Issuance time by the author's clock. -/
  at_ : Int64
  maxDevices : Option UInt32
  maxGrants : Option UInt32
  /-- Roster for assigning coauthors and approvers. -/
  keys : Option (List Digest)
  threshold : Option UInt8
  deviceFpr : Option Digest
  approve : Option Bool
  silenceSeconds : Option UInt64
  heirMode : Option Order.HeirMode
  /-- Complete author decisions for heirs. -/
  bequests : Option (List (List UInt8))
  signerKey : Option Digest
  proposalTtl : Option UInt64
  frozen : Option Bool
  oldDevices : Option (List Digest)
  newDevices : Option (List Digest)
  rule : Option AttributeRule.Rule
  authorityKey : Option Digest
  grantId : Option (List.Vector UInt8 16)
  deriving DecidableEq

namespace Order

/-- Order body version. -/
def orderVersion : UInt16 := 1

/-- Maximum heirs accepted by one order. -/
def maxHeirs : ℕ := 16

/-- Maximum keys in one coauthor or approver roster. -/
def maxKeys : ℕ := 16

/-- Number of names for one device in a replacement. -/
def maxDeviceNames : ℕ := 4

namespace Tag

def version : UInt16 := 1

def fileId : UInt16 := 2

def kind : UInt16 := 3

def at_ : UInt16 := 4

def maxDevices : UInt16 := 5

def maxGrants : UInt16 := 6

def keys : UInt16 := 7

def threshold : UInt16 := 8

def deviceFpr : UInt16 := 9

def approve : UInt16 := 10

def silenceSeconds : UInt16 := 11

def heirMode : UInt16 := 12

def bequest : UInt16 := 13

def signerKey : UInt16 := 14

def proposalTtl : UInt16 := 15

def frozen : UInt16 := 16

def oldDevices : UInt16 := 17

def newDevices : UInt16 := 18

def rule : UInt16 := 19

def authorityKey : UInt16 := 20

def grantId : UInt16 := 21

end Tag

namespace Kind

def toU8 : Kind → UInt8
  | register => 1
  | revoke => 2
  | setLimits => 3
  | setCoauthors => 4
  | setApprovers => 5
  | approveDevice => 6
  | alive => 7
  | setHeir => 8
  | freeze => 9
  | replaceDevice => 10
  | setRule => 11
  | watchAuthor => 12
  | revokeGrant => 13

def fromByte : UInt8 → Option Kind
  | 1 => some register
  | 2 => some revoke
  | 3 => some setLimits
  | 4 => some setCoauthors
  | 5 => some setApprovers
  | 6 => some approveDevice
  | 7 => some alive
  | 8 => some setHeir
  | 9 => some freeze
  | 10 => some replaceDevice
  | 11 => some setRule
  | 12 => some watchAuthor
  | 13 => some revokeGrant
  | _ => none

@[simp] theorem fromByte_toU8 (kind : Kind) : fromByte kind.toU8 = some kind := by
  cases kind <;> rfl

end Kind

namespace HeirMode

def toU8 : HeirMode → UInt8
  | off => 0
  | open_ => 1
  | close => 2

def fromByte : UInt8 → Option HeirMode
  | 0 => some off
  | 1 => some open_
  | 2 => some close
  | _ => none

@[simp] theorem fromByte_toU8 (mode : HeirMode) : fromByte mode.toU8 = some mode := by
  cases mode <;> rfl

end HeirMode

/-! ### The conditions -/

/-- A field required under exactly one condition and forbidden otherwise. -/
def required (present wanted : Bool) (tag : UInt16) : Except FormatError Unit :=
  match present, wanted with
  | false, true => .error (.missingField tag)
  | true, false => .error (.unknownCriticalField tag)
  | _, _ => .ok ()

/-- A field allowed only for certain kinds, and optional even there. -/
def onlyIf (present allowed : Bool) (tag : UInt16) : Except FormatError Unit :=
  refuseIf (present = true ∧ allowed = false) (.unknownCriticalField tag)

/-- The roster is satisfiable and contains no person twice. -/
def checkRoster (keys : List Digest) (threshold : UInt8) : Except FormatError Unit := do
  refuseIf (maxKeys < keys.length) (.badFieldLength Tag.keys keys.length)
  refuseIf (¬keys.Nodup) (.unknownCriticalField Tag.keys)
  refuseIf (¬if keys = [] then threshold.toNat = 0
    else 1 ≤ threshold.toNat ∧ threshold.toNat ≤ keys.length) (.unknownCriticalField Tag.threshold)

/-- Device names: one to `maxDeviceNames`, no duplicates and no zero name. -/
def checkNames (names : List Digest) (tag : UInt16) : Except FormatError Unit := do
  refuseIf (names = [] ∨ maxDeviceNames < names.length) (.badFieldLength tag names.length)
  refuseIf (List.Vector.replicate 32 0 ∈ names ∨ ¬names.Nodup) (.unknownCriticalField tag)

/-- One bequest: a decision about this file that opens it for an heir, the first for its device. -/
def checkBequest (fileId : List.Vector UInt8 16) (seen : List Digest) (bytes : List UInt8) :
    Except FormatError (List Digest) := do
  let decision ← Access.decodeDecision bytes
  refuseIf (¬(decision.fileId = fileId ∧ decision.seq = Access.heirSeq ∧ decision.approve = true ∧
    decision.shareB.isSome = true)) (.unknownCriticalField Tag.bequest)
  refuseIf (decision.deviceFpr ∈ seen) (.unknownCriticalField Tag.bequest)
  .ok (seen ++ [decision.deviceFpr])

/-- Bequests are valid author decisions about this file, all for different people. -/
def checkBequests (all : List (List UInt8)) (fileId : List.Vector UInt8 16) :
    Except FormatError Unit := do
  refuseIf (all = [] ∨ maxHeirs < all.length) (.badFieldLength Tag.bequest all.length)
  let _ ← all.foldlM (checkBequest fileId) []
  .ok ()

/-- The name of a file that there is none of. -/
def noFile : List.Vector UInt8 16 := List.Vector.replicate 16 0

/-- The roster of the order, if it has one. -/
def checkRosterOpt (order : Order) : Except FormatError Unit :=
  match order.keys, order.threshold with
  | some keys, some threshold => checkRoster keys threshold
  | _, _ => .ok ()

/-- The names of the replacement, if it is one. -/
def checkReplacement (order : Order) : Except FormatError Unit :=
  match order.oldDevices, order.newDevices with
  | some old, some new => do
    checkNames old Tag.oldDevices
    checkNames new Tag.newDevices
    refuseIf (∃ name ∈ old, name ∈ new) (.unknownCriticalField Tag.newDevices)
  | _, _ => .ok ()

/-- The bequests of the order, if it has any. -/
def checkBequestsOpt (order : Order) : Except FormatError Unit :=
  match order.bequests with
  | some all => checkBequests all order.fileId
  | none => .ok ()

/-- One place checks field-set consistency with kind for both sides. -/
def check (order : Order) : Except FormatError Unit := do
  let register := order.kind == .register
  let setLimits := order.kind == .setLimits
  onlyIf order.maxDevices.isSome (register || setLimits) Tag.maxDevices
  onlyIf order.maxGrants.isSome (register || setLimits) Tag.maxGrants
  refuseIf (setLimits = true ∧ order.maxDevices = none ∧ order.maxGrants = none)
    (.missingField Tag.maxDevices)
  let roster := order.kind == .setCoauthors || order.kind == .setApprovers
  required order.keys.isSome roster Tag.keys
  required order.threshold.isSome roster Tag.threshold
  order.checkRosterOpt
  let vote := order.kind == .approveDevice
  required order.deviceFpr.isSome vote Tag.deviceFpr
  required order.approve.isSome vote Tag.approve
  required order.heirMode.isSome (order.kind == .setHeir) Tag.heirMode
  required order.silenceSeconds.isSome
    (order.heirMode == some .open_ || order.heirMode == some .close) Tag.silenceSeconds
  required order.bequests.isSome (order.heirMode == some .open_) Tag.bequest
  onlyIf order.proposalTtl.isSome (order.kind == .setCoauthors) Tag.proposalTtl
  refuseIf (order.proposalTtl = some 0) (.badFieldLength Tag.proposalTtl 0)
  let freeze := order.kind == .freeze
  required order.frozen.isSome freeze Tag.frozen
  refuseIf (freeze = true ∧ order.fileId ≠ noFile) (.unknownCriticalField Tag.fileId)
  let watch := order.kind == .watchAuthor
  required order.authorityKey.isSome watch Tag.authorityKey
  refuseIf (watch = true ∧ order.fileId ≠ noFile) (.unknownCriticalField Tag.fileId)
  let revokeGrant := order.kind == .revokeGrant
  required order.grantId.isSome revokeGrant Tag.grantId
  refuseIf (revokeGrant = true ∧ order.fileId ≠ noFile) (.unknownCriticalField Tag.fileId)
  -- the key is named exactly where it cannot be taken from the file
  required order.signerKey.isSome
    ((order.kind == .alive && decide (order.fileId = noFile)) || vote || freeze || watch || revokeGrant)
    Tag.signerKey
  order.checkBequestsOpt
  let replace := order.kind == .replaceDevice
  required order.oldDevices.isSome replace Tag.oldDevices
  required order.newDevices.isSome replace Tag.newDevices
  refuseIf (replace = true ∧ order.fileId = noFile) (.missingField Tag.fileId)
  order.checkReplacement
  let setRule := order.kind == .setRule
  required order.rule.isSome setRule Tag.rule
  refuseIf (setRule = true ∧ order.fileId = noFile) (.missingField Tag.fileId)

/-! ### The body -/

/-- Bequest stream: each after its length. -/
def encodeBequests : Option (List (List UInt8)) → Except FormatError (Option (List UInt8))
  | none => .ok none
  | some all => (enframe (.badFieldLength Tag.bequest) all).map some

/-- The rule of the file. -/
def encodeRule : Option AttributeRule.Rule → Except FormatError (Option (List UInt8))
  | none => .ok none
  | some rule => (AttributeRule.encode rule).map some

/-- Keys or names one behind the other. -/
def flat (keys : List Digest) : List UInt8 := keys.flatMap List.Vector.toList

/-- Encode the body. -/
def encode (order : Order) : Except FormatError (List UInt8) := do
  order.check
  let w ← TlvWriter.new.put Tag.version (toLeBytes orderVersion)
  let w ← w.put Tag.fileId order.fileId.toList
  let w ← w.put Tag.kind [order.kind.toU8]
  let w ← w.put Tag.at_ (toLeBytes order.at_)
  let w ← w.putOpt Tag.maxDevices (order.maxDevices.map toLeBytes)
  let w ← w.putOpt Tag.maxGrants (order.maxGrants.map toLeBytes)
  let w ← w.putOpt Tag.keys (order.keys.map flat)
  let w ← w.putOpt Tag.threshold (order.threshold.map fun n ↦ [n])
  let w ← w.putOpt Tag.deviceFpr (order.deviceFpr.map List.Vector.toList)
  let w ← w.putOpt Tag.approve (order.approve.map fun b ↦ [b.toUInt8])
  let w ← w.putOpt Tag.silenceSeconds (order.silenceSeconds.map toLeBytes)
  let w ← w.putOpt Tag.heirMode (order.heirMode.map fun mode ↦ [mode.toU8])
  let bequests ← encodeBequests order.bequests
  let w ← w.putOpt Tag.bequest bequests
  let w ← w.putOpt Tag.signerKey (order.signerKey.map List.Vector.toList)
  let w ← w.putOpt Tag.proposalTtl (order.proposalTtl.map toLeBytes)
  let w ← w.putOpt Tag.frozen (order.frozen.map fun b ↦ [b.toUInt8])
  let w ← w.putOpt Tag.oldDevices (order.oldDevices.map flat)
  let w ← w.putOpt Tag.newDevices (order.newDevices.map flat)
  let rule ← encodeRule order.rule
  let w ← w.putOpt Tag.rule rule
  let w ← w.putOpt Tag.authorityKey (order.authorityKey.map List.Vector.toList)
  let w ← w.putOpt Tag.grantId (order.grantId.map List.Vector.toList)
  .ok w.finish

/-- Zero or one. -/
def flag (f : Field) : Except FormatError Bool :=
  match f.value with
  | [0] => .ok false
  | [1] => .ok true
  | other => .error (.badFieldLength f.tag other.length)

/-- Consecutive keys, no more than a roster has. -/
def splitKeys (value : List UInt8) : Except FormatError (List Digest) := do
  refuseIf (value.length % 32 ≠ 0 ∨ maxKeys * 32 < value.length)
    (.badFieldLength Tag.keys value.length)
  okOr (chunksExact? 32 value) (.badFieldLength Tag.keys value.length)

/-- Device names: some, and no more than a device has. -/
def splitNames (tag : UInt16) (value : List UInt8) : Except FormatError (List Digest) := do
  refuseIf (value = [] ∨ value.length % 32 ≠ 0 ∨ maxDeviceNames * 32 < value.length)
    (.badFieldLength tag value.length)
  okOr (chunksExact? 32 value) (.badFieldLength tag value.length)

/-- Bequest stream. -/
def splitBequests (value : List UInt8) : Except FormatError (List (List UInt8)) :=
  unframe (.badFieldLength Tag.bequest) (.badFieldLength Tag.bequest)
    (fun len _ ↦ .badFieldLength Tag.bequest len) maxHeirs value []

/-- The fields read so far. -/
structure Reading where
  version : Option UInt16 := none
  fileId : Option (List.Vector UInt8 16) := none
  kind : Option Kind := none
  at_ : Option Int64 := none
  maxDevices : Option UInt32 := none
  maxGrants : Option UInt32 := none
  keys : Option (List Digest) := none
  threshold : Option UInt8 := none
  deviceFpr : Option Digest := none
  approve : Option Bool := none
  silenceSeconds : Option UInt64 := none
  heirMode : Option HeirMode := none
  bequests : Option (List (List UInt8)) := none
  signerKey : Option Digest := none
  proposalTtl : Option UInt64 := none
  frozen : Option Bool := none
  oldDevices : Option (List Digest) := none
  newDevices : Option (List Digest) := none
  rule : Option AttributeRule.Rule := none
  authorityKey : Option Digest := none
  grantId : Option (List.Vector UInt8 16) := none

/-- One field of an order, by the tags of `Tag`. -/
def decodeStep (acc : Reading) (f : Field) : Except FormatError Reading :=
  match f.tag with
  | 1 => f.u16.map fun v ↦ { acc with version := some v }
  | 2 => (f.array 16).map fun v ↦ { acc with fileId := some v }
  | 3 => do
    let byte ← f.u8
    let kind ← okOr (Kind.fromByte byte) (.unknownCriticalField Tag.kind)
    .ok { acc with kind := some kind }
  | 4 => f.le.map fun v ↦ { acc with at_ := some v }
  | 5 => f.u32.map fun v ↦ { acc with maxDevices := some v }
  | 6 => f.u32.map fun v ↦ { acc with maxGrants := some v }
  | 7 => (splitKeys f.value).map fun v ↦ { acc with keys := some v }
  | 8 => f.u8.map fun v ↦ { acc with threshold := some v }
  | 9 => (f.array 32).map fun v ↦ { acc with deviceFpr := some v }
  | 10 => (flag f).map fun v ↦ { acc with approve := some v }
  | 11 => f.u64.map fun v ↦ { acc with silenceSeconds := some v }
  | 12 => do
    let byte ← f.u8
    let mode ← okOr (HeirMode.fromByte byte) (.unknownCriticalField Tag.heirMode)
    .ok { acc with heirMode := some mode }
  | 13 => (splitBequests f.value).map fun v ↦ { acc with bequests := some v }
  | 14 => (f.array 32).map fun v ↦ { acc with signerKey := some v }
  | 15 => f.u64.map fun v ↦ { acc with proposalTtl := some v }
  | 16 => (flag f).map fun v ↦ { acc with frozen := some v }
  | 17 => (splitNames Tag.oldDevices f.value).map fun v ↦ { acc with oldDevices := some v }
  | 18 => (splitNames Tag.newDevices f.value).map fun v ↦ { acc with newDevices := some v }
  | 19 => (AttributeRule.decode f.value).map fun v ↦ { acc with rule := some v }
  | 20 => (f.array 32).map fun v ↦ { acc with authorityKey := some v }
  | 21 => (f.array 16).map fun v ↦ { acc with grantId := some v }
  | other => skipUnknown other acc

/-- The order that was read. -/
def Reading.order (acc : Reading) : Except FormatError Order := do
  let version ← okOr acc.version (.missingField Tag.version)
  refuseIf (version ≠ orderVersion) (.unknownCriticalField Tag.version)
  let fileId ← okOr acc.fileId (.missingField Tag.fileId)
  let kind ← okOr acc.kind (.missingField Tag.kind)
  let at_ ← okOr acc.at_ (.missingField Tag.at_)
  let order : Order := ⟨fileId, kind, at_, acc.maxDevices, acc.maxGrants, acc.keys, acc.threshold,
    acc.deviceFpr, acc.approve, acc.silenceSeconds, acc.heirMode, acc.bequests, acc.signerKey,
    acc.proposalTtl, acc.frozen, acc.oldDevices, acc.newDevices, acc.rule, acc.authorityKey, acc.grantId⟩
  order.check
  .ok order

/-- Parse the body strictly: exact lengths, one version, fields determined by kind. -/
def decode (body : List UInt8) : Except FormatError Order :=
  TlvReader.foldFields decodeStep (TlvReader.new body) {} >>= Reading.order

/-- Signature transcript: domain label and body as one field. -/
def signingTranscript (body : List UInt8) : Transcript := (Transcript.new .authorOrder).field body

/-- Verify and parse the complete signed document. -/
def verifySigned (ed : Ed25519) (bytes : List UInt8) (authorKey : Digest) : Except FormatError Order := do
  let (signature, body) ← splitSignature bytes
  (verify ed authorKey (signingTranscript body) signature).mapError fun _ ↦ .badHeaderSignature
  decode body

end Order

end OpenCrate.Protocol
