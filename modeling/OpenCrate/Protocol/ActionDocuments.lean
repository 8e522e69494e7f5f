import OpenCrate.Protocol.Access
import OpenCrate.Protocol.ActionCodec

/-!
# Requests, leases and decisions on actions

The documents of `action` beside the grant: a door asks (`ActionRequest`), the server lends a single
execution (`ActionLease`) or queues the request for the owner (`PendingAction`), who decides
(`ActionDecision`). All carry the arguments of the action verbatim or name the request that does. A
lease and a decision are signed, with the signature before the body.
-/

namespace OpenCrate.Protocol

open OpenCrate.Format OpenCrate.Crypto
open Except (refuseIf okOr)

/-- Action lease lifetime, in seconds. -/
def actionLeaseSeconds : Int64 := 30

namespace Action

/-! ### Arguments -/

namespace ArgTag

def bodyDigest : UInt16 := 10

def bodyLen : UInt16 := 11

end ArgTag

/-- The shape of arguments, checked on writing and on reading. -/
def checkArgsShape : Args → Except FormatError Unit
  | .gitPush remote branch => do
    checkName remote FieldTag.remote
    checkTreePath branch FieldTag.branch
  | .treeRemove path => checkTreePath path FieldTag.path
  | .treeRename source target => do
    checkTreePath source FieldTag.source
    checkTreePath target FieldTag.target
  | .httpRequest host _ path _ bodyLen => do
    checkHost host FieldTag.host
    checkHttpPath path FieldTag.pathPrefix
    refuseIf (maxBodyLen < bodyLen) (.badFieldLength ArgTag.bodyLen bodyLen.toNat)

/-- The bytes of arguments. -/
def encodeArgs (args : Args) : Except FormatError (List UInt8) := do
  checkArgsShape args
  match args with
  | .gitPush remote branch => do
    let w ← TlvWriter.new.put FieldTag.remote (utf8 remote)
    let w ← w.put FieldTag.branch (utf8 branch)
    .ok w.finish
  | .treeRemove path => do
    let w ← TlvWriter.new.put FieldTag.path (utf8 path)
    .ok w.finish
  | .treeRename source target => do
    let w ← TlvWriter.new.put FieldTag.source (utf8 source)
    let w ← w.put FieldTag.target (utf8 target)
    .ok w.finish
  | .httpRequest host method path bodyDigest bodyLen => do
    let w ← TlvWriter.new.put FieldTag.host (utf8 host)
    let w ← w.put FieldTag.methods [method.asU8]
    let w ← w.put FieldTag.pathPrefix (utf8 path)
    let w ← w.put ArgTag.bodyDigest bodyDigest.toList
    let w ← w.put ArgTag.bodyLen (toLeBytes bodyLen)
    .ok w.finish

/-- The arguments read so far. -/
structure ArgsReading where
  remote : Option String := none
  branch : Option String := none
  path : Option String := none
  source : Option String := none
  target : Option String := none
  host : Option String := none
  method : Option Method := none
  httpPath : Option String := none
  bodyDigest : Option Digest := none
  bodyLen : Option UInt32 := none

/-- One field of arguments. What the kind does not expect is an unknown tag. -/
def decodeArgsStep (kind : ActionKind) (acc : ArgsReading) (f : Field) :
    Except FormatError ArgsReading :=
  match kind, f.tag with
  | .gitPush, 1 => (text f FieldTag.remote).map fun v ↦ { acc with remote := some v }
  | .gitPush, 2 => (text f FieldTag.branch).map fun v ↦ { acc with branch := some v }
  | .treeRemove, 3 => (text f FieldTag.path).map fun v ↦ { acc with path := some v }
  | .treeRename, 4 => (text f FieldTag.source).map fun v ↦ { acc with source := some v }
  | .treeRename, 5 => (text f FieldTag.target).map fun v ↦ { acc with target := some v }
  | .httpRequest, 6 => (text f FieldTag.host).map fun v ↦ { acc with host := some v }
  -- an execution has one method
  | .httpRequest, 7 => do
    let byte ← f.u8
    let method ← Method.fromU8 byte FieldTag.methods
    .ok { acc with method := some method }
  | .httpRequest, 8 => (text f FieldTag.pathPrefix).map fun v ↦ { acc with httpPath := some v }
  | .httpRequest, 10 => (f.array 32).map fun v ↦ { acc with bodyDigest := some v }
  | .httpRequest, 11 => f.u32.map fun v ↦ { acc with bodyLen := some v }
  | _, other => skipUnknown other acc

/-- The arguments of a kind that were read. -/
def ArgsReading.args (acc : ArgsReading) : ActionKind → Except FormatError Args
  | .gitPush => do
    let remote ← okOr acc.remote (.missingField FieldTag.remote)
    let branch ← okOr acc.branch (.missingField FieldTag.branch)
    .ok (.gitPush remote branch)
  | .treeRemove => do
    let path ← okOr acc.path (.missingField FieldTag.path)
    .ok (.treeRemove path)
  | .treeRename => do
    let source ← okOr acc.source (.missingField FieldTag.source)
    let target ← okOr acc.target (.missingField FieldTag.target)
    .ok (.treeRename source target)
  | .httpRequest => do
    let host ← okOr acc.host (.missingField FieldTag.host)
    let method ← okOr acc.method (.missingField FieldTag.methods)
    let path ← okOr acc.httpPath (.missingField FieldTag.pathPrefix)
    let bodyDigest ← okOr acc.bodyDigest (.missingField ArgTag.bodyDigest)
    let bodyLen ← okOr acc.bodyLen (.missingField ArgTag.bodyLen)
    .ok (.httpRequest host method path bodyDigest bodyLen)

/-- Parse the arguments of a kind. -/
def decodeArgs (bytes : List UInt8) (kind : ActionKind) : Except FormatError Args := do
  let acc ← TlvReader.foldFields (decodeArgsStep kind) (TlvReader.new bytes) {}
  let args ← acc.args kind
  checkArgsShape args
  .ok args

/-- Field value as a kind. -/
def kindField (f : Field) (tag : UInt16) : Except FormatError ActionKind := do
  let number ← f.u16
  ActionKind.fromU16 number tag

/-! ### Requests -/

/-- A request to execute an action. -/
structure ActionRequest where
  grantId : List.Vector UInt8 16
  doorFpr : Digest
  kind : ActionKind
  args : Args
  nonce : List.Vector UInt8 16
  note : String
  deriving DecidableEq

namespace RequestTag

def grantId : UInt16 := 1

def doorFpr : UInt16 := 2

def kind : UInt16 := 3

def args : UInt16 := 4

def nonce : UInt16 := 5

def note : UInt16 := 6

end RequestTag

/-- The shape of a request, checked on writing and on reading. -/
def checkRequestShape (ask : ActionRequest) : Except FormatError Unit := do
  refuseIf (ask.kind ≠ ask.args.kind) (.badFieldLength RequestTag.kind 2)
  checkNote ask.note RequestTag.note
  checkArgsShape ask.args

/-- Encode a request. It has no signature. -/
def encodeRequest (ask : ActionRequest) : Except FormatError (List UInt8) := do
  checkRequestShape ask
  let w ← TlvWriter.new.put RequestTag.grantId ask.grantId.toList
  let w ← w.put RequestTag.doorFpr ask.doorFpr.toList
  let w ← w.put RequestTag.kind (toLeBytes ask.kind.asU16)
  let args ← encodeArgs ask.args
  let w ← w.put RequestTag.args args
  let w ← w.put RequestTag.nonce ask.nonce.toList
  let w ← w.put RequestTag.note (utf8 ask.note)
  .ok w.finish

/-- The request read so far; the arguments wait for their kind. -/
structure RequestReading where
  grantId : Option (List.Vector UInt8 16) := none
  doorFpr : Option Digest := none
  kind : Option ActionKind := none
  rawArgs : Option (List UInt8) := none
  nonce : Option (List.Vector UInt8 16) := none
  note : Option String := none

/-- One field of a request, by the tags of `RequestTag`. -/
def decodeRequestStep (acc : RequestReading) (f : Field) : Except FormatError RequestReading :=
  match f.tag with
  | 1 => (f.array 16).map fun v ↦ { acc with grantId := some v }
  | 2 => (f.array 32).map fun v ↦ { acc with doorFpr := some v }
  | 3 => (kindField f RequestTag.kind).map fun v ↦ { acc with kind := some v }
  | 4 => .ok { acc with rawArgs := some f.value }
  | 5 => (f.array 16).map fun v ↦ { acc with nonce := some v }
  | 6 => (noteField f RequestTag.note).map fun v ↦ { acc with note := some v }
  | other => skipUnknown other acc

/-- Parse a request. -/
def decodeRequest (bytes : List UInt8) : Except FormatError ActionRequest := do
  let acc ← TlvReader.foldFields decodeRequestStep (TlvReader.new bytes) {}
  let kind ← okOr acc.kind (.missingField RequestTag.kind)
  let rawArgs ← okOr acc.rawArgs (.missingField RequestTag.args)
  let grantId ← okOr acc.grantId (.missingField RequestTag.grantId)
  let doorFpr ← okOr acc.doorFpr (.missingField RequestTag.doorFpr)
  let args ← decodeArgs rawArgs kind
  let nonce ← okOr acc.nonce (.missingField RequestTag.nonce)
  let note ← okOr acc.note (.missingField RequestTag.note)
  let ask : ActionRequest := ⟨grantId, doorFpr, kind, args, nonce, note⟩
  checkRequestShape ask
  .ok ask

/-! ### Leases -/

/-- Action lease, signed by the server with the lease-signing key. -/
structure ActionLease where
  grantId : List.Vector UInt8 16
  doorFpr : Digest
  kind : ActionKind
  args : Args
  nonce : List.Vector UInt8 16
  issuedAt : Int64
  expiresAt : Int64
  seq : UInt64
  signature : Signature
  deriving DecidableEq

namespace LeaseTag

def grantId : UInt16 := 1

def doorFpr : UInt16 := 2

def kind : UInt16 := 3

def args : UInt16 := 4

def nonce : UInt16 := 5

def issuedAt : UInt16 := 6

def expiresAt : UInt16 := 7

def seq : UInt16 := 8

end LeaseTag

/-- The shape of a lease, checked on writing and on reading. -/
def checkLeaseShape (lease : ActionLease) : Except FormatError Unit := do
  refuseIf (lease.kind ≠ lease.args.kind) (.badFieldLength LeaseTag.kind 2)
  refuseIf (lease.expiresAt < lease.issuedAt) (.badFieldLength LeaseTag.expiresAt 8)
  refuseIf (lease.issuedAt.saturatingAdd actionLeaseSeconds < lease.expiresAt)
    (.badFieldLength LeaseTag.expiresAt 8)
  checkArgsShape lease.args

/-- Lease bytes without the signature. -/
def leaseBody (lease : ActionLease) : Except FormatError (List UInt8) := do
  checkLeaseShape lease
  let w ← TlvWriter.new.put LeaseTag.grantId lease.grantId.toList
  let w ← w.put LeaseTag.doorFpr lease.doorFpr.toList
  let w ← w.put LeaseTag.kind (toLeBytes lease.kind.asU16)
  let args ← encodeArgs lease.args
  let w ← w.put LeaseTag.args args
  let w ← w.put LeaseTag.nonce lease.nonce.toList
  let w ← w.put LeaseTag.issuedAt (toLeBytes lease.issuedAt)
  let w ← w.put LeaseTag.expiresAt (toLeBytes lease.expiresAt)
  let w ← w.put LeaseTag.seq (toLeBytes lease.seq)
  .ok w.finish

/-- Action lease signature transcript. -/
def leaseTranscript (body : List UInt8) : Transcript := (Transcript.new .actionLease).field body

/-- Encode the complete lease: the signature and the body. -/
def encodeLease (lease : ActionLease) : Except FormatError (List UInt8) := do
  let body ← leaseBody lease
  .ok (lease.signature.toList ++ body)

/-- The lease read so far. -/
structure LeaseReading where
  grantId : Option (List.Vector UInt8 16) := none
  doorFpr : Option Digest := none
  kind : Option ActionKind := none
  rawArgs : Option (List UInt8) := none
  nonce : Option (List.Vector UInt8 16) := none
  issuedAt : Option Int64 := none
  expiresAt : Option Int64 := none
  seq : Option UInt64 := none

/-- One field of a lease, by the tags of `LeaseTag`. -/
def decodeLeaseStep (acc : LeaseReading) (f : Field) : Except FormatError LeaseReading :=
  match f.tag with
  | 1 => (f.array 16).map fun v ↦ { acc with grantId := some v }
  | 2 => (f.array 32).map fun v ↦ { acc with doorFpr := some v }
  | 3 => (kindField f LeaseTag.kind).map fun v ↦ { acc with kind := some v }
  | 4 => .ok { acc with rawArgs := some f.value }
  | 5 => (f.array 16).map fun v ↦ { acc with nonce := some v }
  | 6 => f.le.map fun v ↦ { acc with issuedAt := some v }
  | 7 => f.le.map fun v ↦ { acc with expiresAt := some v }
  | 8 => f.u64.map fun v ↦ { acc with seq := some v }
  | other => skipUnknown other acc

/-- Parse a lease body; the signature lies outside it. -/
def decodeLeaseBody (signature : Signature) (body : List UInt8) : Except FormatError ActionLease := do
  let acc ← TlvReader.foldFields decodeLeaseStep (TlvReader.new body) {}
  let kind ← okOr acc.kind (.missingField LeaseTag.kind)
  let rawArgs ← okOr acc.rawArgs (.missingField LeaseTag.args)
  let grantId ← okOr acc.grantId (.missingField LeaseTag.grantId)
  let doorFpr ← okOr acc.doorFpr (.missingField LeaseTag.doorFpr)
  let args ← decodeArgs rawArgs kind
  let nonce ← okOr acc.nonce (.missingField LeaseTag.nonce)
  let issuedAt ← okOr acc.issuedAt (.missingField LeaseTag.issuedAt)
  let expiresAt ← okOr acc.expiresAt (.missingField LeaseTag.expiresAt)
  let seq ← okOr acc.seq (.missingField LeaseTag.seq)
  let lease : ActionLease := ⟨grantId, doorFpr, kind, args, nonce, issuedAt, expiresAt, seq, signature⟩
  checkLeaseShape lease
  .ok lease

/-! ### The queue of the owner -/

/-- One request awaiting a live owner, as seen by the owner. -/
structure PendingAction where
  seq : UInt64
  grantId : List.Vector UInt8 16
  doorFpr : Digest
  kind : ActionKind
  args : Args
  nonce : List.Vector UInt8 16
  note : String
  at_ : Int64
  deriving DecidableEq

namespace PendingTag

def seq : UInt16 := 1

def grantId : UInt16 := 2

def doorFpr : UInt16 := 3

def kind : UInt16 := 4

def args : UInt16 := 5

def nonce : UInt16 := 6

def note : UInt16 := 7

def at_ : UInt16 := 8

end PendingTag

/-- The shape of a queue entry, checked on writing and on reading. -/
def checkPendingShape (pending : PendingAction) : Except FormatError Unit := do
  refuseIf (pending.kind ≠ pending.args.kind) (.badFieldLength PendingTag.kind 2)
  checkNote pending.note PendingTag.note
  checkArgsShape pending.args

/-- Encode a queue entry. -/
def encodePending (pending : PendingAction) : Except FormatError (List UInt8) := do
  checkPendingShape pending
  let w ← TlvWriter.new.put PendingTag.seq (toLeBytes pending.seq)
  let w ← w.put PendingTag.grantId pending.grantId.toList
  let w ← w.put PendingTag.doorFpr pending.doorFpr.toList
  let w ← w.put PendingTag.kind (toLeBytes pending.kind.asU16)
  let args ← encodeArgs pending.args
  let w ← w.put PendingTag.args args
  let w ← w.put PendingTag.nonce pending.nonce.toList
  let w ← w.put PendingTag.note (utf8 pending.note)
  let w ← w.put PendingTag.at_ (toLeBytes pending.at_)
  .ok w.finish

/-- The queue entry read so far. -/
structure PendingReading where
  seq : Option UInt64 := none
  grantId : Option (List.Vector UInt8 16) := none
  doorFpr : Option Digest := none
  kind : Option ActionKind := none
  rawArgs : Option (List UInt8) := none
  nonce : Option (List.Vector UInt8 16) := none
  note : Option String := none
  at_ : Option Int64 := none

/-- One field of a queue entry, by the tags of `PendingTag`. -/
def decodePendingStep (acc : PendingReading) (f : Field) : Except FormatError PendingReading :=
  match f.tag with
  | 1 => f.u64.map fun v ↦ { acc with seq := some v }
  | 2 => (f.array 16).map fun v ↦ { acc with grantId := some v }
  | 3 => (f.array 32).map fun v ↦ { acc with doorFpr := some v }
  | 4 => (kindField f PendingTag.kind).map fun v ↦ { acc with kind := some v }
  | 5 => .ok { acc with rawArgs := some f.value }
  | 6 => (f.array 16).map fun v ↦ { acc with nonce := some v }
  | 7 => (noteField f PendingTag.note).map fun v ↦ { acc with note := some v }
  | 8 => f.le.map fun v ↦ { acc with at_ := some v }
  | other => skipUnknown other acc

/-- Parse a queue entry. -/
def decodePending (bytes : List UInt8) : Except FormatError PendingAction := do
  let acc ← TlvReader.foldFields decodePendingStep (TlvReader.new bytes) {}
  let kind ← okOr acc.kind (.missingField PendingTag.kind)
  let rawArgs ← okOr acc.rawArgs (.missingField PendingTag.args)
  let seq ← okOr acc.seq (.missingField PendingTag.seq)
  let grantId ← okOr acc.grantId (.missingField PendingTag.grantId)
  let doorFpr ← okOr acc.doorFpr (.missingField PendingTag.doorFpr)
  let args ← decodeArgs rawArgs kind
  let nonce ← okOr acc.nonce (.missingField PendingTag.nonce)
  let note ← okOr acc.note (.missingField PendingTag.note)
  let at_ ← okOr acc.at_ (.missingField PendingTag.at_)
  let pending : PendingAction := ⟨seq, grantId, doorFpr, kind, args, nonce, note, at_⟩
  checkPendingShape pending
  .ok pending

/-! ### Decisions of the owner -/

/-- Owner decision on one execution request, signed by the author. -/
structure ActionDecision where
  seq : UInt64
  grantId : List.Vector UInt8 16
  doorFpr : Digest
  approve : Bool
  note : String
  authorKey : Digest
  signature : Signature
  deriving DecidableEq

namespace DecisionTag

def grantId : UInt16 := 1

def doorFpr : UInt16 := 2

def seq : UInt16 := 3

def approve : UInt16 := 4

def note : UInt16 := 5

def authorKey : UInt16 := 6

end DecisionTag

/-- Decision bytes without the signature. -/
def decisionBody (decision : ActionDecision) : Except FormatError (List UInt8) := do
  checkNote decision.note DecisionTag.note
  let w ← TlvWriter.new.put DecisionTag.grantId decision.grantId.toList
  let w ← w.put DecisionTag.doorFpr decision.doorFpr.toList
  let w ← w.put DecisionTag.seq (toLeBytes decision.seq)
  let w ← w.put DecisionTag.approve [decision.approve.toUInt8]
  let w ← w.put DecisionTag.note (utf8 decision.note)
  let w ← w.put DecisionTag.authorKey decision.authorKey.toList
  .ok w.finish

/-- Owner decision signature transcript. -/
def decisionTranscript (body : List UInt8) : Transcript := (Transcript.new .actionDecision).field body

/-- Encode the complete decision: the signature and the body. -/
def encodeDecision (decision : ActionDecision) : Except FormatError (List UInt8) := do
  let body ← decisionBody decision
  .ok (decision.signature.toList ++ body)

/-- The decision read so far. -/
structure DecisionReading where
  grantId : Option (List.Vector UInt8 16) := none
  doorFpr : Option Digest := none
  seq : Option UInt64 := none
  approve : Option Bool := none
  note : Option String := none
  authorKey : Option Digest := none

/-- One field of a decision, by the tags of `DecisionTag`. -/
def decodeDecisionStep (acc : DecisionReading) (f : Field) : Except FormatError DecisionReading :=
  match f.tag with
  | 1 => (f.array 16).map fun v ↦ { acc with grantId := some v }
  | 2 => (f.array 32).map fun v ↦ { acc with doorFpr := some v }
  | 3 => f.u64.map fun v ↦ { acc with seq := some v }
  | 4 =>
    match f.value with
    | [0] => .ok { acc with approve := some false }
    | [1] => .ok { acc with approve := some true }
    | other => .error (.badFieldLength DecisionTag.approve other.length)
  | 5 => (noteField f DecisionTag.note).map fun v ↦ { acc with note := some v }
  | 6 => (f.array 32).map fun v ↦ { acc with authorKey := some v }
  | other => skipUnknown other acc

/-- Parse a decision body; the signature lies outside it. -/
def decodeDecisionBody (signature : Signature) (body : List UInt8) :
    Except FormatError ActionDecision := do
  let acc ← TlvReader.foldFields decodeDecisionStep (TlvReader.new body) {}
  let seq ← okOr acc.seq (.missingField DecisionTag.seq)
  let grantId ← okOr acc.grantId (.missingField DecisionTag.grantId)
  let doorFpr ← okOr acc.doorFpr (.missingField DecisionTag.doorFpr)
  let approve ← okOr acc.approve (.missingField DecisionTag.approve)
  let note ← okOr acc.note (.missingField DecisionTag.note)
  let authorKey ← okOr acc.authorKey (.missingField DecisionTag.authorKey)
  .ok ⟨seq, grantId, doorFpr, approve, note, authorKey, signature⟩

/-! ### Signed documents -/

variable (ed : Ed25519)

/-- Verify the server signature of a lease, then parse: in this order only. -/
def decodeLease (bytes : List UInt8) (leaseVerifyKey : Digest) : Except FormatError ActionLease := do
  let (signature, body) ← splitSignature bytes
  (verify ed leaseVerifyKey (leaseTranscript body) signature).mapError fun _ ↦ .badHeaderSignature
  decodeLeaseBody signature body

/-- Verify the author's signature of a decision, then parse: in this order only. -/
def decodeDecision (bytes : List UInt8) (authorKey : Digest) :
    Except FormatError ActionDecision := do
  let (signature, body) ← splitSignature bytes
  (verify ed authorKey (decisionTranscript body) signature).mapError fun _ ↦ .badHeaderSignature
  let decision ← decodeDecisionBody signature body
  refuseIf (decision.authorKey ≠ authorKey) (.badFieldLength DecisionTag.authorKey 32)
  .ok decision

end Action

end OpenCrate.Protocol
