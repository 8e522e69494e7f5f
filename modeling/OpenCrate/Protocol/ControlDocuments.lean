import OpenCrate.Protocol.Control

/-!
# Bindings, requests, receipts and transfers

The four control documents, each with its body, its signed form and its reader. A reader puts the
fields into their slots, builds the value and compares its body with the bytes it read, without the
fields it skipped.
-/

namespace OpenCrate.Protocol

open OpenCrate.Format OpenCrate.Crypto
open Except (refuseIf okOr)

namespace Control

/-! ### Bindings -/

namespace BindingTag

def version : UInt16 := 1

def tenant : UInt16 := 2

def authorityId : UInt16 := 3

def epoch : UInt16 := 4

def revision : UInt16 := 5

def leasePublic : UInt16 := 6

def sealingPublic : UInt16 := 7

def urls : UInt16 := 8

def pins : UInt16 := 9

def durability : UInt16 := 10

def recovery : UInt16 := 11

def status : UInt16 := 12

def roster : UInt16 := 13

def threshold : UInt16 := 14

def operationId : UInt16 := 15

def previous : UInt16 := 16

def issuedAt : UInt16 := 17

def expiresAt : UInt16 := 18

end BindingTag

/-- Server binding. -/
structure Binding where
  tenant : String
  /-- Stable server identity: unchanged across key changes. -/
  authorityId : List.Vector UInt8 16
  /-- Authority epoch: increases only on transfer. -/
  epoch : UInt64
  /-- Binding revision within an epoch: increases on each control operation. -/
  revision : UInt64
  leasePublic : Digest
  sealingPublic : Digest
  urls : List String
  pins : List Digest
  durability : Durability
  recovery : Recovery
  status : Status
  /-- Controller keys in ascending order. -/
  roster : List Digest
  /-- Roster signatures required for an intent; zero for an empty roster. -/
  threshold : UInt8
  /-- Operation that produced this revision; zero for creation. -/
  operationId : List.Vector UInt8 16
  /-- Previous revision fingerprint; zero at revision 0. -/
  previous : Digest
  issuedAt : Int64
  expiresAt : Int64
  deriving DecidableEq

/-- All bytes are zero. -/
def zeros (n : ℕ) : List.Vector UInt8 n := List.Vector.replicate n 0

/-- A threshold that the roster can reach: zero for an empty one. -/
def quorumOk (roster : List Digest) (threshold : UInt8) : Prop :=
  if roster = [] then threshold = 0 else 1 ≤ threshold ∧ threshold.toNat ≤ roster.length

instance (roster : List Digest) (threshold : UInt8) : Decidable (quorumOk roster threshold) :=
  inferInstanceAs (Decidable (if roster = [] then _ else _))

namespace Binding

/-- The rules of a binding, checked on writing and on reading. -/
def check (binding : Binding) : Except FormatError Unit := do
  checkTenant binding.tenant BindingTag.tenant
  refuseIf (maxPins < binding.pins.length) (bad BindingTag.pins binding.pins.length)
  refuseIf (¬quorumOk binding.roster binding.threshold)
    (bad BindingTag.threshold binding.threshold.toNat)
  refuseIf (binding.expiresAt ≤ binding.issuedAt) (bad BindingTag.expiresAt 8)
  refuseIf (binding.revision = 0 ∧ (binding.previous ≠ zeros 32 ∨ binding.operationId ≠ zeros 16))
    (bad BindingTag.previous 32)
  refuseIf (0 < binding.revision ∧ binding.previous = zeros 32) (bad BindingTag.previous 32)

/-- Unsigned body. -/
def body (binding : Binding) : Except FormatError (List UInt8) := do
  binding.check
  let w ← TlvWriter.new.put BindingTag.version [Control.version]
  let w ← w.put BindingTag.tenant (utf8 binding.tenant)
  let w ← w.put BindingTag.authorityId binding.authorityId.toList
  let w ← w.put BindingTag.epoch (toLeBytes binding.epoch)
  let w ← w.put BindingTag.revision (toLeBytes binding.revision)
  let w ← w.put BindingTag.leasePublic binding.leasePublic.toList
  let w ← w.put BindingTag.sealingPublic binding.sealingPublic.toList
  let urls ← encodeUrls binding.urls BindingTag.urls
  let w ← w.put BindingTag.urls urls
  let pins ← encodeKeys binding.pins maxPins BindingTag.pins
  let w ← w.put BindingTag.pins pins
  let w ← w.put BindingTag.durability [binding.durability.toU8]
  let w ← w.put BindingTag.recovery [binding.recovery.toU8]
  let w ← w.put BindingTag.status [binding.status.toU8]
  let roster ← encodeKeys binding.roster maxRoster BindingTag.roster
  let w ← w.put BindingTag.roster roster
  let w ← w.put BindingTag.threshold [binding.threshold]
  let w ← w.put BindingTag.operationId binding.operationId.toList
  let w ← w.put BindingTag.previous binding.previous.toList
  let w ← w.put BindingTag.issuedAt (toLeBytes binding.issuedAt)
  let w ← w.put BindingTag.expiresAt (toLeBytes binding.expiresAt)
  .ok w.finish

/-- Sign with the lease-signing key named in the binding itself. -/
def sign (binding : Binding) (signer : Signer) : Except FormatError (List UInt8) := do
  refuseIf (signer.publicKey ≠ binding.leasePublic) (bad BindingTag.leasePublic 32)
  let body ← binding.body
  let sig ← (signer.sign (transcript .authorityBinding body)).mapError fun _ ↦ .badHeaderSignature
  .ok (sig.toList ++ body)

/-- The binding read so far. -/
structure Reading where
  version : Option UInt8 := none
  tenant : Option String := none
  authorityId : Option (List.Vector UInt8 16) := none
  epoch : Option UInt64 := none
  revision : Option UInt64 := none
  leasePublic : Option Digest := none
  sealingPublic : Option Digest := none
  urls : Option (List String) := none
  pins : Option (List Digest) := none
  durability : Option Durability := none
  recovery : Option Recovery := none
  status : Option Status := none
  roster : Option (List Digest) := none
  threshold : Option UInt8 := none
  operationId : Option (List.Vector UInt8 16) := none
  previous : Option Digest := none
  issuedAt : Option Int64 := none
  expiresAt : Option Int64 := none

/-- One field of a binding, by the tags of `BindingTag`. -/
def peekStep (acc : Reading × Skipped) (f : Field) : Except FormatError (Reading × Skipped) :=
  match f.tag with
  | 1 => f.u8.map fun v ↦ ({ acc.1 with version := some v }, acc.2)
  | 2 => (text f).map fun v ↦ ({ acc.1 with tenant := some v }, acc.2)
  | 3 => (f.array 16).map fun v ↦ ({ acc.1 with authorityId := some v }, acc.2)
  | 4 => f.u64.map fun v ↦ ({ acc.1 with epoch := some v }, acc.2)
  | 5 => f.u64.map fun v ↦ ({ acc.1 with revision := some v }, acc.2)
  | 6 => (f.array 32).map fun v ↦ ({ acc.1 with leasePublic := some v }, acc.2)
  | 7 => (f.array 32).map fun v ↦ ({ acc.1 with sealingPublic := some v }, acc.2)
  | 8 => (decodeUrls f.value 8).map fun v ↦ ({ acc.1 with urls := some v }, acc.2)
  | 9 => (decodeKeys f.value maxPins 9).map fun v ↦ ({ acc.1 with pins := some v }, acc.2)
  | 10 => (enumField Durability.fromU8 f).map fun v ↦ ({ acc.1 with durability := some v }, acc.2)
  | 11 => (enumField Recovery.fromU8 f).map fun v ↦ ({ acc.1 with recovery := some v }, acc.2)
  | 12 => (enumField Status.fromU8 f).map fun v ↦ ({ acc.1 with status := some v }, acc.2)
  | 13 => (decodeKeys f.value maxRoster 13).map fun v ↦ ({ acc.1 with roster := some v }, acc.2)
  | 14 => f.u8.map fun v ↦ ({ acc.1 with threshold := some v }, acc.2)
  | 15 => (f.array 16).map fun v ↦ ({ acc.1 with operationId := some v }, acc.2)
  | 16 => (f.array 32).map fun v ↦ ({ acc.1 with previous := some v }, acc.2)
  | 17 => f.le.map fun v ↦ ({ acc.1 with issuedAt := some v }, acc.2)
  | 18 => f.le.map fun v ↦ ({ acc.1 with expiresAt := some v }, acc.2)
  | _ => (acc.2.see f).map fun skipped ↦ (acc.1, skipped)

/-- The binding that was read. -/
def Reading.binding (acc : Reading) : Except FormatError Binding := do
  refuseIf (acc.version ≠ some Control.version) (bad BindingTag.version 1)
  let tenant ← okOr acc.tenant (.missingField BindingTag.tenant)
  let authorityId ← okOr acc.authorityId (.missingField BindingTag.authorityId)
  let epoch ← okOr acc.epoch (.missingField BindingTag.epoch)
  let revision ← okOr acc.revision (.missingField BindingTag.revision)
  let leasePublic ← okOr acc.leasePublic (.missingField BindingTag.leasePublic)
  let sealingPublic ← okOr acc.sealingPublic (.missingField BindingTag.sealingPublic)
  let urls ← okOr acc.urls (.missingField BindingTag.urls)
  let pins ← okOr acc.pins (.missingField BindingTag.pins)
  let durability ← okOr acc.durability (.missingField BindingTag.durability)
  let recovery ← okOr acc.recovery (.missingField BindingTag.recovery)
  let status ← okOr acc.status (.missingField BindingTag.status)
  let roster ← okOr acc.roster (.missingField BindingTag.roster)
  let threshold ← okOr acc.threshold (.missingField BindingTag.threshold)
  let operationId ← okOr acc.operationId (.missingField BindingTag.operationId)
  let previous ← okOr acc.previous (.missingField BindingTag.previous)
  let issuedAt ← okOr acc.issuedAt (.missingField BindingTag.issuedAt)
  let expiresAt ← okOr acc.expiresAt (.missingField BindingTag.expiresAt)
  let binding : Binding := ⟨tenant, authorityId, epoch, revision, leasePublic, sealingPublic, urls,
    pins, durability, recovery, status, roster, threshold, operationId, previous, issuedAt, expiresAt⟩
  binding.check
  .ok binding

/-- Parse without verification of the signature. -/
def peek (bytes : List UInt8) : Except FormatError Binding := do
  let (_, body) ← splitSigned bytes
  decodeCanonical peekStep {} Reading.binding Binding.body (bad 0) body

/-- Verify with an externally trusted key, then parse. The embedded key must match it. -/
def open_ (ed : Ed25519) (bytes : List UInt8) (anchor : Digest) : Except FormatError Binding := do
  let (sig, body) ← splitSigned bytes
  (verify ed anchor (transcript .authorityBinding body) sig).mapError fun _ ↦ .badHeaderSignature
  let binding ← peek bytes
  refuseIf (binding.leasePublic ≠ anchor) (bad BindingTag.leasePublic 32)
  .ok binding

end Binding

/-! ### Requests -/

/-- What was ordered. -/
inductive Payload where
  /-- Addresses and TLS fingerprints. -/
  | setEndpoints (urls : List String) (pins : List Digest)
  | setDurability (durability : Durability)
  /-- Controller roster and threshold. -/
  | setRoster (keys : List Digest) (threshold : UInt8)
  | setRecovery (recovery : Recovery)
  /-- Service termination. -/
  | decommission (status : Status) (reason : String)
  | addAuthor (key : Digest)
  | removeAuthor (key : Digest)
  deriving DecidableEq

namespace RequestTag

def version : UInt16 := 1

def tenant : UInt16 := 2

def authorityId : UInt16 := 3

def epoch : UInt16 := 4

def operationId : UInt16 := 5

def scope : UInt16 := 6

def expectedRevision : UInt16 := 7

def issuedAt : UInt16 := 8

def expiresAt : UInt16 := 9

def payloadKind : UInt16 := 10

def payload : UInt16 := 11

end RequestTag

/-- Intent scope: the entire server. -/
def scopeAuthority : UInt8 := 1

namespace Payload

def kind : Payload → UInt8
  | setEndpoints .. => 1
  | setDurability _ => 2
  | setRoster .. => 3
  | setRecovery _ => 4
  | decommission .. => 5
  | addAuthor _ => 6
  | removeAuthor _ => 7

/-- Service ends by stopping or by keeping the archive. -/
def checkDecommission (status : Status) : Except FormatError Unit :=
  refuseIf (status ≠ .stopped ∧ status ≠ .archiveOnly) (bad 1 1)

/-- The bytes of a payload. -/
def encode : Payload → Except FormatError (List UInt8)
  | setEndpoints urls pins => do
    let urls ← encodeUrls urls 1
    let w ← TlvWriter.new.put 1 urls
    let pins ← encodeKeys pins maxPins 2
    let w ← w.put 2 pins
    .ok w.finish
  | setDurability durability => do
    let w ← TlvWriter.new.put 1 [durability.toU8]
    .ok w.finish
  | setRoster keys threshold => do
    let keys ← encodeKeys keys maxRoster 1
    let w ← TlvWriter.new.put 1 keys
    let w ← w.put 2 [threshold]
    .ok w.finish
  | setRecovery recovery => do
    let w ← TlvWriter.new.put 1 [recovery.toU8]
    .ok w.finish
  | decommission status reason => do
    checkDecommission status
    checkReason reason 2
    let w ← TlvWriter.new.put 1 [status.toU8]
    let w ← w.put 2 (utf8 reason)
    .ok w.finish
  | addAuthor key => do
    let w ← TlvWriter.new.put 1 key.toList
    .ok w.finish
  | removeAuthor key => do
    let w ← TlvWriter.new.put 1 key.toList
    .ok w.finish

/-- The two fields of a payload. -/
structure Reading where
  first : Option (List UInt8) := none
  second : Option (List UInt8) := none

/-- One field of a payload. -/
def decodeStep (acc : Reading × Skipped) (f : Field) : Except FormatError (Reading × Skipped) :=
  match f.tag with
  | 1 => .ok ({ acc.1 with first := some f.value }, acc.2)
  | 2 => .ok ({ acc.1 with second := some f.value }, acc.2)
  | _ => (acc.2.see f).map fun skipped ↦ (acc.1, skipped)

/-- A value outside of a field, with the tag that a refusal names. -/
def valueField (tag : UInt16) (value : List UInt8) : Field := ⟨tag, value, ⟨0, 0⟩⟩

/-- The payload of a kind that was read: the kind says whether there is a second field. -/
def Reading.payload (kind : UInt8) (acc : Reading) : Except FormatError Payload := do
  let one ← okOr acc.first (.missingField 1)
  match kind, acc.second with
  | 1, some pins => do
    let urls ← decodeUrls one 1
    let pins ← decodeKeys pins maxPins 2
    .ok (.setEndpoints urls pins)
  | 2, none => (enumField Durability.fromU8 (valueField 1 one)).map setDurability
  | 3, some threshold => do
    let keys ← decodeKeys one maxRoster 1
    let threshold ← (valueField 2 threshold).u8
    .ok (.setRoster keys threshold)
  | 4, none => (enumField Recovery.fromU8 (valueField 1 one)).map setRecovery
  | 5, some reason => do
    let status ← enumField Status.fromU8 (valueField 1 one)
    checkDecommission status
    let reason ← text (valueField 2 reason)
    checkReason reason 2
    .ok (.decommission status reason)
  | 6, none => ((valueField 1 one).array 32).map addAuthor
  | 7, none => ((valueField 1 one).array 32).map removeAuthor
  | kind, second =>
    if 1 ≤ kind ∧ kind ≤ 7 then .error (bad 2 (second.elim 0 List.length))
    else .error (bad RequestTag.payloadKind 1)

/-- Parse a payload of a kind. -/
def decode (kind : UInt8) (body : List UInt8) : Except FormatError Payload :=
  decodeCanonical decodeStep {} (Reading.payload kind) encode (bad RequestTag.payload) body

end Payload

/-- Controller intent. -/
structure ControlRequest where
  tenant : String
  authorityId : List.Vector UInt8 16
  epoch : UInt64
  operationId : List.Vector UInt8 16
  /-- Binding revision on which the intent was based. -/
  expectedRevision : UInt64
  issuedAt : Int64
  expiresAt : Int64
  payload : Payload
  deriving DecidableEq

/-- An intent with verified signatures. -/
structure SignedRequest where
  request : ControlRequest
  /-- Body fingerprint, shared by all signers. -/
  bodyHash : Digest
  /-- Signers in ascending order. -/
  signers : List Digest
  deriving DecidableEq

/-- Intent signatures in ascending order of their keys, behind their number and before the body. -/
def assemble (body : List UInt8) (signatures : List (Digest × Signature)) :
    Except FormatError (List UInt8) := do
  let sorted := signatures.insertionSort fun a b ↦ a.1.toList ≤ b.1.toList
  refuseIf (sorted = [] ∨ maxSigners < sorted.length ∨ ¬sorted.IsChain fun a b ↦ a.1 ≠ b.1)
    (bad 0 sorted.length)
  .ok (UInt8.ofNat sorted.length :: (sorted.flatMap fun s ↦ s.1.toList ++ s.2.toList) ++ body)

/-- The first signatures of an envelope, and what stands behind them. -/
def splitSignatures : ℕ → List UInt8 → Except FormatError (List (Digest × Signature) × List UInt8)
  | 0, rest => .ok ([], rest)
  | count + 1, rest => do
    let (key, tail) ← okOr (splitAtChecked 32 rest) (bad 0 rest.length)
    let (sig, tail) ← okOr (splitAtChecked Crypto.signatureLen tail) (bad 0 tail.length)
    let key ← okOr (toVector? 32 key) (bad 0 key.length)
    let sig ← okOr (toVector? Crypto.signatureLen sig) (bad 0 sig.length)
    let (signatures, rest) ← splitSignatures count tail
    .ok ((key, sig) :: signatures, rest)

/-- The signatures of an envelope, in strictly ascending order of their keys, and the body. -/
def splitRequest (bytes : List UInt8) :
    Except FormatError (List (Digest × Signature) × List UInt8) := do
  refuseIf (maxDocumentLen < bytes.length) (bad 0 bytes.length)
  let count ← okOr bytes.head? (bad 0 0)
  refuseIf (count = 0 ∨ maxSigners < count.toNat) (bad 0 count.toNat)
  let (signatures, body) ← splitSignatures count.toNat bytes.tail
  refuseIf (¬signatures.IsChain fun a b ↦ keyLt a.1 b.1) (bad 0 count.toNat)
  .ok (signatures, body)

/-- Every signature of an envelope covers the body. -/
def verifyAll (ed : Ed25519) (label : Label) (body : List UInt8)
    (signatures : List (Digest × Signature)) : Except FormatError Unit :=
  signatures.forM fun s ↦
    (verify ed s.1 (transcript label body) s.2).mapError fun _ ↦ .badHeaderSignature

namespace ControlRequest

/-- Body without signatures. -/
def body (request : ControlRequest) : Except FormatError (List UInt8) := do
  checkTenant request.tenant RequestTag.tenant
  let lifetime ← okOr (request.expiresAt.checkedSub request.issuedAt) (bad RequestTag.expiresAt 8)
  refuseIf (lifetime ≤ 0 ∨ maxRequestLifetime < lifetime) (bad RequestTag.expiresAt 8)
  let w ← TlvWriter.new.put RequestTag.version [Control.version]
  let w ← w.put RequestTag.tenant (utf8 request.tenant)
  let w ← w.put RequestTag.authorityId request.authorityId.toList
  let w ← w.put RequestTag.epoch (toLeBytes request.epoch)
  let w ← w.put RequestTag.operationId request.operationId.toList
  let w ← w.put RequestTag.scope [scopeAuthority]
  let w ← w.put RequestTag.expectedRevision (toLeBytes request.expectedRevision)
  let w ← w.put RequestTag.issuedAt (toLeBytes request.issuedAt)
  let w ← w.put RequestTag.expiresAt (toLeBytes request.expiresAt)
  let w ← w.put RequestTag.payloadKind [request.payload.kind]
  let payload ← request.payload.encode
  let w ← w.put RequestTag.payload payload
  .ok w.finish

/-- The request read so far; the payload waits for its kind. -/
structure Reading where
  version : Option UInt8 := none
  tenant : Option String := none
  authorityId : Option (List.Vector UInt8 16) := none
  epoch : Option UInt64 := none
  operationId : Option (List.Vector UInt8 16) := none
  scope : Option UInt8 := none
  expectedRevision : Option UInt64 := none
  issuedAt : Option Int64 := none
  expiresAt : Option Int64 := none
  payloadKind : Option UInt8 := none
  payload : Option (List UInt8) := none

/-- One field of a request, by the tags of `RequestTag`. -/
def decodeStep (acc : Reading × Skipped) (f : Field) : Except FormatError (Reading × Skipped) :=
  match f.tag with
  | 1 => f.u8.map fun v ↦ ({ acc.1 with version := some v }, acc.2)
  | 2 => (text f).map fun v ↦ ({ acc.1 with tenant := some v }, acc.2)
  | 3 => (f.array 16).map fun v ↦ ({ acc.1 with authorityId := some v }, acc.2)
  | 4 => f.u64.map fun v ↦ ({ acc.1 with epoch := some v }, acc.2)
  | 5 => (f.array 16).map fun v ↦ ({ acc.1 with operationId := some v }, acc.2)
  | 6 => f.u8.map fun v ↦ ({ acc.1 with scope := some v }, acc.2)
  | 7 => f.u64.map fun v ↦ ({ acc.1 with expectedRevision := some v }, acc.2)
  | 8 => f.le.map fun v ↦ ({ acc.1 with issuedAt := some v }, acc.2)
  | 9 => f.le.map fun v ↦ ({ acc.1 with expiresAt := some v }, acc.2)
  | 10 => f.u8.map fun v ↦ ({ acc.1 with payloadKind := some v }, acc.2)
  | 11 => .ok ({ acc.1 with payload := some f.value }, acc.2)
  | _ => (acc.2.see f).map fun skipped ↦ (acc.1, skipped)

/-- The request that was read. -/
def Reading.request (acc : Reading) : Except FormatError ControlRequest := do
  refuseIf (acc.version ≠ some Control.version) (bad RequestTag.version 1)
  refuseIf (acc.scope ≠ some scopeAuthority) (bad RequestTag.scope 1)
  let kind ← okOr acc.payloadKind (.missingField RequestTag.payloadKind)
  let tenant ← okOr acc.tenant (.missingField RequestTag.tenant)
  let authorityId ← okOr acc.authorityId (.missingField RequestTag.authorityId)
  let epoch ← okOr acc.epoch (.missingField RequestTag.epoch)
  let operationId ← okOr acc.operationId (.missingField RequestTag.operationId)
  let expectedRevision ← okOr acc.expectedRevision (.missingField RequestTag.expectedRevision)
  let issuedAt ← okOr acc.issuedAt (.missingField RequestTag.issuedAt)
  let expiresAt ← okOr acc.expiresAt (.missingField RequestTag.expiresAt)
  let payload ← okOr acc.payload (.missingField RequestTag.payload)
  let payload ← Payload.decode kind payload
  .ok ⟨tenant, authorityId, epoch, operationId, expectedRevision, issuedAt, expiresAt, payload⟩

/-- Parse a body. -/
def decodeBody (body : List UInt8) : Except FormatError ControlRequest :=
  decodeCanonical decodeStep {} Reading.request ControlRequest.body (bad 0) body

/-- Sign with one key. -/
def sign (request : ControlRequest) (signer : Signer) : Except FormatError (List UInt8) := do
  let body ← request.body
  let sig ← (signer.sign (transcript .controlRequest body)).mapError fun _ ↦ .badHeaderSignature
  assemble body [(signer.publicKey, sig)]

end ControlRequest

/-- Verify every intent signature, then parse the body. -/
def openRequest (sha : Sha2) (ed : Ed25519) (bytes : List UInt8) :
    Except FormatError SignedRequest := do
  let (signatures, body) ← splitRequest bytes
  verifyAll ed .controlRequest body signatures
  let request ← ControlRequest.decodeBody body
  .ok ⟨request, sha.sha256 body, signatures.map Prod.fst⟩

/-! ### Receipts -/

namespace ReceiptTag

def version : UInt16 := 1

def requestHash : UInt16 := 2

def operationId : UInt16 := 3

def outcome : UInt16 := 4

def revision : UInt16 := 5

def commit : UInt16 := 6

def epoch : UInt16 := 7

def durability : UInt16 := 8

def reason : UInt16 := 9

def at_ : UInt16 := 10

end ReceiptTag

/-- Server receipt. -/
structure Receipt where
  requestHash : Digest
  operationId : List.Vector UInt8 16
  outcome : Outcome
  /-- Binding revision after the operation. -/
  revision : UInt64
  /-- Committed binding fingerprint; zero if nothing was committed. -/
  commit : Digest
  epoch : UInt64
  /-- Achieved durability. -/
  durability : Durability
  reason : String
  at_ : Int64
  deriving DecidableEq

namespace Receipt

/-- Unsigned body. -/
def body (receipt : Receipt) : Except FormatError (List UInt8) := do
  checkReason receipt.reason ReceiptTag.reason
  let w ← TlvWriter.new.put ReceiptTag.version [Control.version]
  let w ← w.put ReceiptTag.requestHash receipt.requestHash.toList
  let w ← w.put ReceiptTag.operationId receipt.operationId.toList
  let w ← w.put ReceiptTag.outcome [receipt.outcome.toU8]
  let w ← w.put ReceiptTag.revision (toLeBytes receipt.revision)
  let w ← w.put ReceiptTag.commit receipt.commit.toList
  let w ← w.put ReceiptTag.epoch (toLeBytes receipt.epoch)
  let w ← w.put ReceiptTag.durability [receipt.durability.toU8]
  let w ← w.put ReceiptTag.reason (utf8 receipt.reason)
  let w ← w.put ReceiptTag.at_ (toLeBytes receipt.at_)
  .ok w.finish

/-- Sign with the lease-signing key. -/
def sign (receipt : Receipt) (signer : Signer) : Except FormatError (List UInt8) := do
  let body ← receipt.body
  let sig ← (signer.sign (transcript .operationReceipt body)).mapError fun _ ↦ .badHeaderSignature
  .ok (sig.toList ++ body)

/-- The receipt read so far. -/
structure Reading where
  version : Option UInt8 := none
  requestHash : Option Digest := none
  operationId : Option (List.Vector UInt8 16) := none
  outcome : Option Outcome := none
  revision : Option UInt64 := none
  commit : Option Digest := none
  epoch : Option UInt64 := none
  durability : Option Durability := none
  reason : Option String := none
  at_ : Option Int64 := none

/-- One field of a receipt, by the tags of `ReceiptTag`. -/
def openStep (acc : Reading × Skipped) (f : Field) : Except FormatError (Reading × Skipped) :=
  match f.tag with
  | 1 => f.u8.map fun v ↦ ({ acc.1 with version := some v }, acc.2)
  | 2 => (f.array 32).map fun v ↦ ({ acc.1 with requestHash := some v }, acc.2)
  | 3 => (f.array 16).map fun v ↦ ({ acc.1 with operationId := some v }, acc.2)
  | 4 => (enumField Outcome.fromU8 f).map fun v ↦ ({ acc.1 with outcome := some v }, acc.2)
  | 5 => f.u64.map fun v ↦ ({ acc.1 with revision := some v }, acc.2)
  | 6 => (f.array 32).map fun v ↦ ({ acc.1 with commit := some v }, acc.2)
  | 7 => f.u64.map fun v ↦ ({ acc.1 with epoch := some v }, acc.2)
  | 8 => (enumField Durability.fromU8 f).map fun v ↦ ({ acc.1 with durability := some v }, acc.2)
  | 9 => (text f).map fun v ↦ ({ acc.1 with reason := some v }, acc.2)
  | 10 => f.le.map fun v ↦ ({ acc.1 with at_ := some v }, acc.2)
  | _ => (acc.2.see f).map fun skipped ↦ (acc.1, skipped)

/-- The receipt that was read. -/
def Reading.receipt (acc : Reading) : Except FormatError Receipt := do
  refuseIf (acc.version ≠ some Control.version) (bad ReceiptTag.version 1)
  let requestHash ← okOr acc.requestHash (.missingField ReceiptTag.requestHash)
  let operationId ← okOr acc.operationId (.missingField ReceiptTag.operationId)
  let outcome ← okOr acc.outcome (.missingField ReceiptTag.outcome)
  let revision ← okOr acc.revision (.missingField ReceiptTag.revision)
  let commit ← okOr acc.commit (.missingField ReceiptTag.commit)
  let epoch ← okOr acc.epoch (.missingField ReceiptTag.epoch)
  let durability ← okOr acc.durability (.missingField ReceiptTag.durability)
  let reason ← okOr acc.reason (.missingField ReceiptTag.reason)
  let at_ ← okOr acc.at_ (.missingField ReceiptTag.at_)
  .ok ⟨requestHash, operationId, outcome, revision, commit, epoch, durability, reason, at_⟩

/-- Parse a body. -/
def decodeBody (body : List UInt8) : Except FormatError Receipt :=
  decodeCanonical openStep {} Reading.receipt Receipt.body (bad 0) body

/-- Verify with the server key, then parse. -/
def open_ (ed : Ed25519) (bytes : List UInt8) (leasePublic : Digest) : Except FormatError Receipt := do
  let (sig, body) ← splitSigned bytes
  (verify ed leasePublic (transcript .operationReceipt body) sig).mapError fun _ ↦
    .badHeaderSignature
  decodeBody body

end Receipt

/-! ### Transfers -/

namespace TransferTag

def version : UInt16 := 1

def authorityId : UInt16 := 2

def fromEpoch : UInt16 := 3

def toEpoch : UInt16 := 4

def fromLease : UInt16 := 5

def transitionAt : UInt16 := 6

def oldLeases : UInt16 := 7

def issuedAt : UInt16 := 8

def expiresAt : UInt16 := 9

def binding : UInt16 := 10

end TransferTag

/-- Authority transfer certificate: the previous epoch names the next. -/
structure Transfer where
  /-- Server identity: does not change on transfer. -/
  authorityId : List.Vector UInt8 16
  fromEpoch : UInt64
  toEpoch : UInt64
  /-- Lease-signing key of the previous epoch. -/
  fromLease : Digest
  /-- When the new epoch takes authority. -/
  transitionAt : Int64
  oldLeases : OldLeases
  issuedAt : Int64
  expiresAt : Int64
  /-- Signed binding of the new epoch. -/
  binding : List UInt8
  deriving DecidableEq

namespace Transfer

/-- The rules of a transfer. -/
def check (transfer : Transfer) : Except FormatError Unit := do
  let next ← okOr (transfer.fromEpoch.checkedAdd 1) (bad TransferTag.toEpoch 8)
  refuseIf (transfer.toEpoch ≠ next) (bad TransferTag.toEpoch 8)
  refuseIf (transfer.expiresAt ≤ transfer.issuedAt) (bad TransferTag.expiresAt 8)
  refuseIf (transfer.binding = [] ∨ maxDocumentLen < transfer.binding.length)
    (bad TransferTag.binding transfer.binding.length)

/-- Body without signatures. -/
def body (transfer : Transfer) : Except FormatError (List UInt8) := do
  transfer.check
  let w ← TlvWriter.new.put TransferTag.version [Control.version]
  let w ← w.put TransferTag.authorityId transfer.authorityId.toList
  let w ← w.put TransferTag.fromEpoch (toLeBytes transfer.fromEpoch)
  let w ← w.put TransferTag.toEpoch (toLeBytes transfer.toEpoch)
  let w ← w.put TransferTag.fromLease transfer.fromLease.toList
  let w ← w.put TransferTag.transitionAt (toLeBytes transfer.transitionAt)
  let w ← w.put TransferTag.oldLeases [transfer.oldLeases.toU8]
  let w ← w.put TransferTag.issuedAt (toLeBytes transfer.issuedAt)
  let w ← w.put TransferTag.expiresAt (toLeBytes transfer.expiresAt)
  let w ← w.put TransferTag.binding transfer.binding
  .ok w.finish

/-- Sign with one roster key. -/
def sign (transfer : Transfer) (signer : Signer) : Except FormatError (List UInt8) := do
  let body ← transfer.body
  let sig ← (signer.sign (transcript .authorityTransfer body)).mapError fun _ ↦ .badHeaderSignature
  assemble body [(signer.publicKey, sig)]

/-- The transfer read so far. -/
structure Reading where
  version : Option UInt8 := none
  authorityId : Option (List.Vector UInt8 16) := none
  fromEpoch : Option UInt64 := none
  toEpoch : Option UInt64 := none
  fromLease : Option Digest := none
  transitionAt : Option Int64 := none
  oldLeases : Option OldLeases := none
  issuedAt : Option Int64 := none
  expiresAt : Option Int64 := none
  binding : Option (List UInt8) := none

/-- One field of a transfer, by the tags of `TransferTag`. -/
def decodeStep (acc : Reading × Skipped) (f : Field) : Except FormatError (Reading × Skipped) :=
  match f.tag with
  | 1 => f.u8.map fun v ↦ ({ acc.1 with version := some v }, acc.2)
  | 2 => (f.array 16).map fun v ↦ ({ acc.1 with authorityId := some v }, acc.2)
  | 3 => f.u64.map fun v ↦ ({ acc.1 with fromEpoch := some v }, acc.2)
  | 4 => f.u64.map fun v ↦ ({ acc.1 with toEpoch := some v }, acc.2)
  | 5 => (f.array 32).map fun v ↦ ({ acc.1 with fromLease := some v }, acc.2)
  | 6 => f.le.map fun v ↦ ({ acc.1 with transitionAt := some v }, acc.2)
  | 7 => (enumField OldLeases.fromU8 f).map fun v ↦ ({ acc.1 with oldLeases := some v }, acc.2)
  | 8 => f.le.map fun v ↦ ({ acc.1 with issuedAt := some v }, acc.2)
  | 9 => f.le.map fun v ↦ ({ acc.1 with expiresAt := some v }, acc.2)
  | 10 => .ok ({ acc.1 with binding := some f.value }, acc.2)
  | _ => (acc.2.see f).map fun skipped ↦ (acc.1, skipped)

/-- The transfer that was read. -/
def Reading.transfer (acc : Reading) : Except FormatError Transfer := do
  refuseIf (acc.version ≠ some Control.version) (bad TransferTag.version 1)
  let authorityId ← okOr acc.authorityId (.missingField TransferTag.authorityId)
  let fromEpoch ← okOr acc.fromEpoch (.missingField TransferTag.fromEpoch)
  let toEpoch ← okOr acc.toEpoch (.missingField TransferTag.toEpoch)
  let fromLease ← okOr acc.fromLease (.missingField TransferTag.fromLease)
  let transitionAt ← okOr acc.transitionAt (.missingField TransferTag.transitionAt)
  let oldLeases ← okOr acc.oldLeases (.missingField TransferTag.oldLeases)
  let issuedAt ← okOr acc.issuedAt (.missingField TransferTag.issuedAt)
  let expiresAt ← okOr acc.expiresAt (.missingField TransferTag.expiresAt)
  let binding ← okOr acc.binding (.missingField TransferTag.binding)
  .ok ⟨authorityId, fromEpoch, toEpoch, fromLease, transitionAt, oldLeases, issuedAt, expiresAt,
    binding⟩

/-- Parse a body. -/
def decodeBody (body : List UInt8) : Except FormatError Transfer :=
  decodeCanonical decodeStep {} Reading.transfer Transfer.body (bad 0) body

end Transfer

/-- Verify every transfer signature, then parse the certificate. -/
def openTransfer (ed : Ed25519) (bytes : List UInt8) :
    Except FormatError (Transfer × List Digest) := do
  let (signatures, body) ← splitRequest bytes
  verifyAll ed .authorityTransfer body signatures
  let transfer ← Transfer.decodeBody body
  .ok (transfer, signatures.map Prod.fst)

/-! ### Cosigning -/

/-- Append another controller's signature over the same body. -/
def cosign (sha : Sha2) (ed : Ed25519) (bytes : List UInt8) (signer : Signer) :
    Except FormatError (List UInt8) := do
  let (signatures, body) ← splitRequest bytes
  let _ ← openRequest sha ed bytes
  refuseIf (signer.publicKey ∈ signatures.map Prod.fst) (bad 0 signatures.length)
  let sig ← (signer.sign (transcript .controlRequest body)).mapError fun _ ↦ .badHeaderSignature
  assemble body (signatures ++ [(signer.publicKey, sig)])

/-- Append another controller's signature over the same certificate. -/
def cosignTransfer (ed : Ed25519) (bytes : List UInt8) (signer : Signer) :
    Except FormatError (List UInt8) := do
  let (signatures, body) ← splitRequest bytes
  let _ ← openTransfer ed bytes
  refuseIf (signer.publicKey ∈ signatures.map Prod.fst) (bad 0 signatures.length)
  let sig ← (signer.sign (transcript .authorityTransfer body)).mapError fun _ ↦ .badHeaderSignature
  assemble body (signatures ++ [(signer.publicKey, sig)])

end Control

end OpenCrate.Protocol
