import OpenCrate.Protocol.Agent
import OpenCrate.Protocol.Attestation
import OpenCrate.Protocol.Handshake
import OpenCrate.Protocol.LogViews

/-!
# The envelope

The shared request/response envelope of `activation`: one byte that names the kind of a message, and its body.
The bodies are of three kinds: documents over TLV, fixed layouts, and documents that the envelope carries
without parsing them, because a signature covers their bytes.
-/

namespace OpenCrate.Protocol.Activation

open OpenCrate.Format OpenCrate.Crypto
open Except (refuseIf okOr)
open Control (splitAtChecked)

/-- A refusal of a body by its length. -/
def badLength (len : ℕ) : FormatError := .badFieldLength 0 len

/-- A body of an exact length. -/
def exact (n : ℕ) (body : List UInt8) : Except FormatError (List.Vector UInt8 n) :=
  okOr (toVector? n body) (badLength body.length)

/-- A body that is one integer. -/
def exactLe {τ : Type} [LeInt τ] (body : List UInt8) : Except FormatError τ :=
  okOr (ofLeBytes? body) (badLength body.length)

/-- A body carried by the envelope without parsing: neither empty nor longer than a document. -/
def opaqueBody (bytes : List UInt8) : Except FormatError (List UInt8) := do
  refuseIf (bytes = [] ∨ maxDocument < bytes.length) (badLength bytes.length)
  .ok bytes

/-- For a contentless kind, trailing bytes mean layout disagreement. -/
def noBody (body : List UInt8) : Except FormatError Unit := refuseIf (body ≠ []) (badLength body.length)

/-- The kind byte and the body. -/
def splitKind (bytes : List UInt8) : Except FormatError (UInt8 × List UInt8) :=
  match bytes with
  | [] => .error (.missingField 0)
  | kind :: body => .ok (kind, body)

/-! ### Chains of documents -/

/-- Number of documents in a chain: grant and links through the holder. -/
def maxChainDocuments : ℕ := 1 + Agent.maxGrantDepth.toNat

/-- Documents, each behind its length, while there is room for more. -/
def splitChainFrom : ℕ → List UInt8 → List (List UInt8) → Except FormatError (List (List UInt8))
  | _, [], out => do
    refuseIf (out = []) (badLength 0)
    .ok out
  | 0, _ :: _, out => .error (badLength (out.length + 1))
  | room + 1, byte :: rest, out => do
    let (head, tail) ← okOr (splitAtChecked 4 (byte :: rest)) (badLength (byte :: rest).length)
    let len : UInt32 ← okOr (ofLeBytes? head) (badLength (byte :: rest).length)
    refuseIf (len.toNat = 0 ∨ maxDocument < len.toNat) (badLength len.toNat)
    let (document, after) ← okOr (splitAtChecked len.toNat tail) (badLength len.toNat)
    splitChainFrom room after (out ++ [document])

/-- Parse a chain into its documents. -/
def splitChain (body : List UInt8) : Except FormatError (List (List UInt8)) :=
  splitChainFrom maxChainDocuments body []

namespace ChainTag

/-- Chain document stream. Critical. -/
def documents : UInt16 := 1

/-- Server lease-signing key. Optional. -/
def leaseVerifyKey : UInt16 := 0x8001

/-- Action grant for this chain. Optional. -/
def actionGrant : UInt16 := 0x8002

end ChainTag

/-- An action grant that is not empty; an empty one is not written. -/
def writtenGrant (actionGrant : Option (List UInt8)) : Option (List UInt8) :=
  actionGrant.filter fun bytes ↦ bytes ≠ []

/-- Build a chain response. -/
def encodeChainReply (documents : List UInt8) (leaseVerifyKey : Option Digest)
    (actionGrant : Option (List UInt8)) : Except FormatError (List UInt8) := do
  let _ ← splitChain documents
  let w ← TlvWriter.new.put ChainTag.documents documents
  let w ← w.putOpt ChainTag.leaseVerifyKey (leaseVerifyKey.map List.Vector.toList)
  let w ← w.putOpt ChainTag.actionGrant (writtenGrant actionGrant)
  .ok w.finish

/-- The fields of a chain response read so far. -/
structure ChainReading where
  documents : Option (List UInt8) := none
  leaseVerifyKey : Option Digest := none
  actionGrant : Option (List UInt8) := none

/-- The stream of documents, which is parsed and kept as it came. -/
def chainField (f : Field) : Except FormatError (List UInt8) := do
  let _ ← splitChain f.value
  .ok f.value

/-- One field of a chain response, by the tags of `ChainTag`. -/
def decodeChainStep (acc : ChainReading) (f : Field) : Except FormatError ChainReading :=
  match f.tag with
  | 1 => (chainField f).map fun v ↦ { acc with documents := some v }
  | 0x8001 => (f.array 32).map fun v ↦ { acc with leaseVerifyKey := some v }
  | 0x8002 => (nonemptyField f).map fun v ↦ { acc with actionGrant := some v }
  | other => skipUnknown other acc

/-- Parse a chain response. -/
def decodeChainReply (body : List UInt8) :
    Except FormatError (List UInt8 × Option Digest × Option (List UInt8)) := do
  let acc ← TlvReader.foldFields decodeChainStep (TlvReader.new body) {}
  let documents ← okOr acc.documents (.missingField ChainTag.documents)
  .ok (documents, acc.leaseVerifyKey, acc.actionGrant)

/-! ### Fixed layouts -/

/-- How many files one subscription accepts. -/
def maxWatchFiles : ℕ := 32

/-- A question about a log: two sizes. -/
def viewRequest (since upto : UInt64) : List UInt8 := toLeBytes since ++ toLeBytes upto

def decodeViewRequest (body : List UInt8) : Except FormatError (UInt64 × UInt64) := do
  refuseIf (body.length ≠ 16) (badLength body.length)
  let since ← okOr (ofLeBytes? (body.take 8)) (badLength body.length)
  let upto ← okOr (ofLeBytes? (body.drop 8)) (badLength body.length)
  .ok (since, upto)

/-- Subscription: where to begin, the file count, and the files. -/
def encodeWatch (files : List (List.Vector UInt8 16)) (since : UInt64) : Except FormatError (List UInt8) := do
  refuseIf (files = [] ∨ maxWatchFiles < files.length) (badLength files.length)
  let count ← okOr (UInt8.tryFrom files.length) (badLength files.length)
  .ok (toLeBytes since ++ [count] ++ files.flatMap List.Vector.toList)

def decodeWatch (body : List UInt8) : Except FormatError (List (List.Vector UInt8 16) × UInt64) := do
  let bad := badLength body.length
  let since ← okOr ((slice? body 0 8).bind ofLeBytes?) bad
  let count ← okOr body[8]? bad
  refuseIf (count.toNat = 0 ∨ maxWatchFiles < count.toNat) bad
  let rest ← okOr (slice? body 9 body.length) bad
  refuseIf (rest.length ≠ count.toNat * 16) bad
  let files ← okOr (chunksExact? 16 rest) bad
  .ok (files, since)

/-- Who is collecting a decision, and for which file. -/
structure CollectReq where
  fileId : List.Vector UInt8 16
  deviceFpr : Digest
  deriving DecidableEq

def collectLen : ℕ := 48

def encodeCollect (c : CollectReq) : List UInt8 := c.fileId.toList ++ c.deviceFpr.toList

def decodeCollect (bytes : List UInt8) : Except FormatError CollectReq := do
  let bad := badLength bytes.length
  refuseIf (bytes.length ≠ collectLen) bad
  let fileId ← okOr ((slice? bytes 0 16).bind (toVector? 16)) bad
  let deviceFpr ← okOr ((slice? bytes 16 collectLen).bind (toVector? 32)) bad
  .ok ⟨fileId, deviceFpr⟩

/-- Co-author signature: key and signed order. -/
def encodeEndorse (signer : Digest) (order : List UInt8) : Except FormatError (List UInt8) := do
  let body ← opaqueBody order
  .ok (signer.toList ++ body)

def decodeEndorse (body : List UInt8) : Except FormatError (Digest × List UInt8) := do
  let (head, rest) ← okOr (splitAtChecked 32 body) (badLength body.length)
  let signer ← okOr (toVector? 32 head) (badLength head.length)
  let order ← opaqueBody rest
  .ok (signer, order)

/-- Registration: the header behind its length, and the order to the end of the message. -/
def encodeRegister (header order : List UInt8) : Except FormatError (List UInt8) := do
  refuseIf (header = [] ∨ maxDocument < header.length) (badLength header.length)
  let order ← opaqueBody order
  let len ← okOr (UInt32.tryFrom header.length) (badLength header.length)
  .ok (toLeBytes len ++ header ++ order)

def decodeRegister (body : List UInt8) : Except FormatError (List UInt8 × List UInt8) := do
  let (len, rest) ← okOr (splitAtChecked 4 body) (.truncated 4 body.length)
  let len : UInt32 ← okOr (ofLeBytes? len) (.truncated 4 body.length)
  refuseIf (len.toNat = 0 ∨ maxDocument < len.toNat) (badLength len.toNat)
  let (header, order) ← okOr (splitAtChecked len.toNat rest) (.truncated (len.toNat + 4) body.length)
  let order ← opaqueBody order
  .ok (header, order)

/-- Subscription to the author's files: where to begin, and the signed order that proves the key. -/
def encodeWatchAuthor (since : UInt64) (proof : List UInt8) : Except FormatError (List UInt8) := do
  refuseIf (proof.length ≤ signatureLen ∨ maxDocument < proof.length) (badLength proof.length)
  .ok (toLeBytes since ++ proof)

def decodeWatchAuthor (body : List UInt8) : Except FormatError (UInt64 × List UInt8) := do
  let (since, proof) ← okOr (splitAtChecked 8 body) (badLength body.length)
  refuseIf (proof.length ≤ signatureLen ∨ maxDocument < proof.length) (badLength proof.length)
  let since ← okOr (ofLeBytes? since) (badLength body.length)
  .ok (since, proof)

/-- A page of directory records: where to begin, and how many. -/
def recordsRequest (start : UInt64) (count : UInt32) : List UInt8 := toLeBytes start ++ toLeBytes count

def decodeRecordsRequest (body : List UInt8) : Except FormatError (UInt64 × UInt32) := do
  let bad := badLength body.length
  refuseIf (body.length ≠ 12) bad
  let count : UInt32 ← okOr (ofLeBytes? (body.drop 8)) bad
  refuseIf (count = 0 ∨ Directory.maxPage < count.toNat) bad
  let start ← okOr (ofLeBytes? (body.take 8)) bad
  .ok (start, count)

/-- Execution report: number, outcome and digest. -/
def encodeReport (seq : UInt64) (ok : Bool) (digest : Digest) : List UInt8 :=
  toLeBytes seq ++ [ok.toUInt8] ++ digest.toList

/-- Strictly zero or one. -/
def decodeFlag (bad : FormatError) : UInt8 → Except FormatError Bool
  | 0 => .ok false
  | 1 => .ok true
  | _ => .error bad

def decodeReport (body : List UInt8) : Except FormatError (UInt64 × Bool × Digest) := do
  let bad := badLength body.length
  let seq ← okOr (slice? body 0 8) bad
  let ok ← okOr body[8]? bad >>= decodeFlag bad
  let digest ← okOr ((slice? body 9 body.length).bind (toVector? 32)) bad
  let seq ← okOr (ofLeBytes? seq) bad
  .ok (seq, ok, digest)

/-- What happened to a subscribed file. -/
inductive Notice where
  /-- Server alive, no events. -/
  | heartbeat
  /-- Server journal entry for one of the subscribed files. -/
  | event (seq : UInt64) (event : UInt8) (fileId : List.Vector UInt8 16) (deviceFpr : Option Digest)
  deriving DecidableEq

def noticeHeartbeat : UInt8 := 0

def noticeEvent : UInt8 := 4

/-- Event body: number, kind, file, whether there is a fingerprint, and the fingerprint. -/
def noticeEventLen : ℕ := 8 + 1 + 16 + 1 + 32

/-- A fingerprint behind its presence; zeros stand for none. -/
def fprBytes : Option Digest → List UInt8
  | some fpr => 1 :: fpr.toList
  | none => 0 :: List.replicate 32 0

def encodeNotice : Notice → List UInt8
  | .heartbeat => [noticeHeartbeat]
  | .event seq event fileId deviceFpr =>
    noticeEvent :: (toLeBytes seq ++ [event] ++ fileId.toList ++ fprBytes deviceFpr)

/-- The body of an event. -/
def decodeEvent (body : List UInt8) : Except FormatError Notice := do
  let bad := badLength body.length
  refuseIf (body.length ≠ noticeEventLen) bad
  let seq ← okOr ((slice? body 0 8).bind ofLeBytes?) bad
  let event ← okOr body[8]? bad
  let fileId ← okOr ((slice? body 9 25).bind (toVector? 16)) bad
  let has ← okOr body[25]? bad
  let fpr ← okOr ((slice? body 26 58).bind (toVector? 32)) bad
  let has ← decodeFlag bad has
  .ok (.event seq event fileId (if has then some fpr else none))

def decodeNotice (bytes : List UInt8) : Except FormatError Notice := do
  let (kind, body) ← splitKind bytes
  match kind with
  | 0 => (noBody body).map fun _ ↦ .heartbeat
  | 4 => decodeEvent body
  | other => .error (.unknownCriticalField other.toUInt16)

/-- The longest reason of a refusal. -/
def maxRefusal : ℕ := 1024

/-- Valid refusal reason: nonempty, within the limit, without characters used to spoof display. -/
def checkRefusal (why : String) : Except FormatError Unit := do
  refuseIf (utf8 why = [] ∨ maxRefusal < (utf8 why).length) (badLength (utf8 why).length)
  checkDisplay why 0

/-! ### Messages of a device -/

namespace Kind

def hello : UInt8 := 1

def prove : UInt8 := 2

def activate : UInt8 := 3

def challenge : UInt8 := 4

def proven : UInt8 := 5

def granted : UInt8 := 6

def denied : UInt8 := 7

def ask : UInt8 := 8

def collect : UInt8 := 9

def decide : UInt8 := 10

def asked : UInt8 := 11

def decided : UInt8 := 12

def waiting : UInt8 := 13

def accepted : UInt8 := 14

def requests : UInt8 := 15

def queue : UInt8 := 16

def watch : UInt8 := 17

def notice : UInt8 := 18

def revocationReq : UInt8 := 19

def revocation : UInt8 := 20

def notRevoked : UInt8 := 21

def renew : UInt8 := 22

def register : UInt8 := 23

def revoke : UInt8 := 24

def order : UInt8 := 25

def endorse : UInt8 := 26

def standingReq : UInt8 := 27

def endorsed : UInt8 := 28

def standing : UInt8 := 29

def watchAuthor : UInt8 := 30

def attestOpen : UInt8 := 31

def attestEvidence : UInt8 := 32

def attestSecret : UInt8 := 33

def attestNonce : UInt8 := 34

def attestCredential : UInt8 := 35

def attested : UInt8 := 36

def registerEdition : UInt8 := 37

def journalViewReq : UInt8 := 38

def logView : UInt8 := 39

def directoryViewReq : UInt8 := 40

def directoryLookupReq : UInt8 := 41

def directoryEntry : UInt8 := 42

def directoryRecordsReq : UInt8 := 43

def directoryRecords : UInt8 := 44

def control : UInt8 := 45

def receipt : UInt8 := 46

def bindingReq : UInt8 := 47

def binding : UInt8 := 48

def replicaPush : UInt8 := 49

def replicaAck : UInt8 := 50

def putGrant : UInt8 := 51

def putDelegation : UInt8 := 52

def fetchChain : UInt8 := 53

def chainStored : UInt8 := 54

def chain : UInt8 := 55

def noChain : UInt8 := 56

def putActionGrant : UInt8 := 57

def requestAction : UInt8 := 58

def reportAction : UInt8 := 59

def actionRequests : UInt8 := 60

def decideAction : UInt8 := 61

def actionGranted : UInt8 := 62

def actionPending : UInt8 := 63

def actionRefused : UInt8 := 64

def actionQueue : UInt8 := 65

end Kind

/-- A message of a device to the server. Documents that a signature covers are carried as bytes. -/
inductive Request where
  | hello (hello : Hello)
  | prove (proof : Proof)
  | activate (req : ActivateReq)
  /-- A recipient not issued a share asks for it. -/
  | ask (ask : Access.AskAccess)
  | requests (fileId : List.Vector UInt8 16)
  | collect (collect : CollectReq)
  | watch (files : List (List.Vector UInt8 16)) (since : UInt64)
  | watchAuthor (since : UInt64) (proof : List UInt8)
  | revocation (fileId : List.Vector UInt8 16)
  /-- The same body as an activation, for an already activated device. -/
  | renew (req : ActivateReq)
  | register (header order : List UInt8)
  | revoke (order : List UInt8)
  | decide (signed : List UInt8)
  | order (order : List UInt8)
  | endorse (signer : Digest) (order : List UInt8)
  | standing (fileId : List.Vector UInt8 16)
  | attestOpen
  | attestEvidence (evidence : Attestation.Evidence)
  | attestSecret (secret : List.Vector UInt8 Attestation.secretLen)
  | registerEdition (claim : List UInt8)
  | journalView (since upto : UInt64)
  | directoryView (since upto : UInt64)
  | directoryLookup (tenant name : String) (size : UInt64)
  | directoryRecords (start : UInt64) (count : UInt32)
  | control (intent : List UInt8)
  | binding
  | replicaPush (push : List UInt8)
  | putGrant (grant : List UInt8)
  | putDelegation (link : List UInt8)
  | fetchChain (holderFpr : Digest)
  | putActionGrant (grant : List UInt8)
  | requestAction (ask : List UInt8)
  | reportAction (seq : UInt64) (ok : Bool) (digest : Digest)
  | actionRequests (grantId : List.Vector UInt8 16)
  | decideAction (signed : List UInt8)
  deriving DecidableEq

/-- The kind of a device message and its body. -/
def requestParts : Request → Except FormatError (UInt8 × List UInt8)
  | .hello hello => (encodeHello hello).map (Prod.mk Kind.hello)
  | .prove proof => (encodeProof proof).map (Prod.mk Kind.prove)
  | .activate req => (encodeReq req).map (Prod.mk Kind.activate)
  | .ask ask => (Access.encodeAsk ask).map (Prod.mk Kind.ask)
  | .requests fileId => .ok (Kind.requests, fileId.toList)
  | .collect collect => .ok (Kind.collect, encodeCollect collect)
  | .decide signed => (opaqueBody signed).map (Prod.mk Kind.decide)
  | .watch files since => (encodeWatch files since).map (Prod.mk Kind.watch)
  | .watchAuthor since proof => (encodeWatchAuthor since proof).map (Prod.mk Kind.watchAuthor)
  | .revocation fileId => .ok (Kind.revocationReq, fileId.toList)
  | .renew req => (encodeReq req).map (Prod.mk Kind.renew)
  | .register header order => (encodeRegister header order).map (Prod.mk Kind.register)
  | .revoke order => (opaqueBody order).map (Prod.mk Kind.revoke)
  | .order order => (opaqueBody order).map (Prod.mk Kind.order)
  | .endorse signer order => (encodeEndorse signer order).map (Prod.mk Kind.endorse)
  | .standing fileId => .ok (Kind.standingReq, fileId.toList)
  | .attestOpen => .ok (Kind.attestOpen, [])
  | .attestEvidence evidence => (Attestation.encodeEvidence evidence).map (Prod.mk Kind.attestEvidence)
  | .attestSecret secret => .ok (Kind.attestSecret, secret.toList)
  | .registerEdition claim => (opaqueBody claim).map (Prod.mk Kind.registerEdition)
  | .journalView since upto => .ok (Kind.journalViewReq, viewRequest since upto)
  | .directoryView since upto => .ok (Kind.directoryViewReq, viewRequest since upto)
  | .directoryLookup tenant name size =>
    (Directory.encodeLookupRequest tenant name size).map (Prod.mk Kind.directoryLookupReq)
  | .directoryRecords start count => .ok (Kind.directoryRecordsReq, recordsRequest start count)
  | .control intent => (opaqueBody intent).map (Prod.mk Kind.control)
  | .binding => .ok (Kind.bindingReq, [])
  | .replicaPush push => (opaqueBody push).map (Prod.mk Kind.replicaPush)
  | .putGrant grant => (opaqueBody grant).map (Prod.mk Kind.putGrant)
  | .putDelegation link => (opaqueBody link).map (Prod.mk Kind.putDelegation)
  | .fetchChain holderFpr => .ok (Kind.fetchChain, holderFpr.toList)
  | .putActionGrant grant => (opaqueBody grant).map (Prod.mk Kind.putActionGrant)
  | .requestAction ask => (opaqueBody ask).map (Prod.mk Kind.requestAction)
  | .reportAction seq ok digest => .ok (Kind.reportAction, encodeReport seq ok digest)
  | .actionRequests grantId => .ok (Kind.actionRequests, grantId.toList)
  | .decideAction signed => (opaqueBody signed).map (Prod.mk Kind.decideAction)

/-- Encode a device message: kind, then body. -/
def encodeRequest (request : Request) : Except FormatError (List UInt8) := do
  let (kind, body) ← requestParts request
  .ok (kind :: body)

/-- The body of a device message, by the constants of `Kind`. -/
def decodeRequestBody (kind : UInt8) (body : List UInt8) : Except FormatError Request :=
  match kind with
  | 1 => (decodeHello body).map .hello
  | 2 => (decodeProof body).map .prove
  | 3 => (decodeReq body).map .activate
  | 8 => (Access.decodeAsk body).map .ask
  | 9 => (decodeCollect body).map .collect
  | 10 => (opaqueBody body).map .decide
  | 15 => (exact 16 body).map .requests
  | 17 => (decodeWatch body).map fun (files, since) ↦ .watch files since
  | 19 => (exact 16 body).map .revocation
  | 22 => (decodeReq body).map .renew
  | 23 => (decodeRegister body).map fun (header, order) ↦ .register header order
  | 24 => (opaqueBody body).map .revoke
  | 25 => (opaqueBody body).map .order
  | 26 => (decodeEndorse body).map fun (signer, order) ↦ .endorse signer order
  | 27 => (exact 16 body).map .standing
  | 30 => (decodeWatchAuthor body).map fun (since, proof) ↦ .watchAuthor since proof
  | 31 => (noBody body).map fun _ ↦ .attestOpen
  | 32 => (Attestation.decodeEvidence body).map .attestEvidence
  | 33 => (exact Attestation.secretLen body).map .attestSecret
  | 37 => (opaqueBody body).map .registerEdition
  | 38 => (decodeViewRequest body).map fun (since, upto) ↦ .journalView since upto
  | 40 => (decodeViewRequest body).map fun (since, upto) ↦ .directoryView since upto
  | 41 => (Directory.decodeLookupRequest body).map fun (tenant, name, size) ↦ .directoryLookup tenant name size
  | 43 => (decodeRecordsRequest body).map fun (start, count) ↦ .directoryRecords start count
  | 45 => (opaqueBody body).map .control
  | 47 => (noBody body).map fun _ ↦ .binding
  | 49 => (opaqueBody body).map .replicaPush
  | 51 => (opaqueBody body).map .putGrant
  | 52 => (opaqueBody body).map .putDelegation
  | 53 => (exact 32 body).map .fetchChain
  | 57 => (opaqueBody body).map .putActionGrant
  | 58 => (opaqueBody body).map .requestAction
  | 59 => (decodeReport body).map fun (seq, ok, digest) ↦ .reportAction seq ok digest
  | 60 => (exact 16 body).map .actionRequests
  | 61 => (opaqueBody body).map .decideAction
  | other => .error (.unknownCriticalField other.toUInt16)

/-- Parse a device message. -/
def decodeRequest (bytes : List UInt8) : Except FormatError Request := do
  let (kind, body) ← splitKind bytes
  decodeRequestBody kind body

/-! ### Messages of the server -/

/-- A message of the server to a device. Documents that a signature covers are carried as bytes. -/
inductive Response where
  | challenge (challenge : Challenge)
  | proven
  | granted (grant : Grant)
  | denied (deny : Deny)
  | asked (seq : UInt64)
  /-- Requests that wait for the author, parsed by whoever shows them; none is a valid body. -/
  | queue (bytes : List UInt8)
  | decided (signed : List UInt8)
  /-- No decision yet, which is not a refusal. -/
  | waiting
  | accepted
  | notice (notice : Notice)
  | revocation (bytes : List UInt8)
  | notRevoked
  | standing (bytes : List UInt8)
  | endorsed (have_ need : UInt8)
  | attestNonce (nonce : List.Vector UInt8 Attestation.secretLen)
  | attestCredential (bytes : List UInt8)
  | attested (basis : UInt8)
  | logView (view : View)
  | directoryEntry (lookup : Directory.Lookup)
  | directoryRecords (records : List (List UInt8))
  | receipt (bytes : List UInt8)
  | binding (bytes : List UInt8)
  | replicaAck (bytes : List UInt8)
  | chainStored
  | chain (documents : List UInt8) (leaseVerifyKey : Option Digest) (actionGrant : Option (List UInt8))
  | noChain
  | actionGranted (lease : List UInt8)
  | actionPending (seq : UInt64)
  | actionRefused (why : String)
  | actionQueue (body : List UInt8)
  deriving DecidableEq

/-- The kind of a server message and its body. -/
def responseParts : Response → Except FormatError (UInt8 × List UInt8)
  | .challenge challenge => (encodeChallenge challenge).map (Prod.mk Kind.challenge)
  | .proven => .ok (Kind.proven, [])
  | .granted grant => (encodeGrant grant).map (Prod.mk Kind.granted)
  | .denied deny => (encodeDeny deny).map (Prod.mk Kind.denied)
  | .asked seq => .ok (Kind.asked, toLeBytes seq)
  | .queue bytes => .ok (Kind.queue, bytes)
  | .decided signed => (opaqueBody signed).map (Prod.mk Kind.decided)
  | .waiting => .ok (Kind.waiting, [])
  | .accepted => .ok (Kind.accepted, [])
  | .notice notice => .ok (Kind.notice, encodeNotice notice)
  | .revocation bytes => (opaqueBody bytes).map (Prod.mk Kind.revocation)
  | .notRevoked => .ok (Kind.notRevoked, [])
  | .standing bytes => (opaqueBody bytes).map (Prod.mk Kind.standing)
  | .endorsed have_ need => .ok (Kind.endorsed, [have_, need])
  | .attestNonce nonce => .ok (Kind.attestNonce, nonce.toList)
  | .attestCredential bytes => (Attestation.checkCredential bytes).map fun _ ↦ (Kind.attestCredential, bytes)
  | .attested basis => .ok (Kind.attested, [basis])
  | .logView view => view.encode.map (Prod.mk Kind.logView)
  | .directoryEntry lookup => lookup.encode.map (Prod.mk Kind.directoryEntry)
  | .directoryRecords records => (Directory.encodePage records).map (Prod.mk Kind.directoryRecords)
  | .receipt bytes => (opaqueBody bytes).map (Prod.mk Kind.receipt)
  | .binding bytes => (opaqueBody bytes).map (Prod.mk Kind.binding)
  | .replicaAck bytes => (opaqueBody bytes).map (Prod.mk Kind.replicaAck)
  | .chainStored => .ok (Kind.chainStored, [])
  | .chain documents leaseVerifyKey actionGrant =>
    (encodeChainReply documents leaseVerifyKey actionGrant).map (Prod.mk Kind.chain)
  | .noChain => .ok (Kind.noChain, [])
  | .actionGranted lease => (opaqueBody lease).map (Prod.mk Kind.actionGranted)
  | .actionPending seq => .ok (Kind.actionPending, toLeBytes seq)
  | .actionRefused why => (checkRefusal why).map fun _ ↦ (Kind.actionRefused, utf8 why)
  | .actionQueue body => .ok (Kind.actionQueue, body)

/-- Encode a server message: kind, then body. -/
def encodeResponse (response : Response) : Except FormatError (List UInt8) := do
  let (kind, body) ← responseParts response
  .ok (kind :: body)

/-- A reason of a refusal as it arrives. -/
def decodeRefusal (body : List UInt8) : Except FormatError String := do
  let why ← okOr (fromUtf8? body) (.notUtf8 0)
  checkRefusal why
  .ok why

/-- The basis of an attestation: one of the two that exist. -/
def decodeBasis : List UInt8 → Except FormatError UInt8
  | [1] => .ok Attestation.Basis.vendorCertificate
  | [2] => .ok Attestation.Basis.enrolledEk
  | other => .error (badLength other.length)

/-- How many signatures there are and how many it takes. -/
def decodeEndorsed : List UInt8 → Except FormatError (UInt8 × UInt8)
  | [have_, need] => .ok (have_, need)
  | other => .error (badLength other.length)

/-- The body of a server message, by the constants of `Kind`. -/
def decodeResponseBody (sha : Sha2) (kind : UInt8) (body : List UInt8) : Except FormatError Response :=
  match kind with
  | 4 => (decodeChallenge body).map .challenge
  | 5 => (noBody body).map fun _ ↦ .proven
  | 6 => (decodeGrant body).map .granted
  | 7 => (decodeDeny body).map .denied
  | 11 => (exactLe body).map .asked
  | 12 => (opaqueBody body).map .decided
  | 13 => (noBody body).map fun _ ↦ .waiting
  | 14 => (noBody body).map fun _ ↦ .accepted
  | 16 => .ok (.queue body)
  | 18 => (decodeNotice body).map .notice
  | 20 => (opaqueBody body).map .revocation
  | 21 => (noBody body).map fun _ ↦ .notRevoked
  | 28 => (decodeEndorsed body).map fun (have_, need) ↦ .endorsed have_ need
  | 29 => (opaqueBody body).map .standing
  | 34 => (exact Attestation.secretLen body).map .attestNonce
  | 35 => (Attestation.checkCredential body).map fun _ ↦ .attestCredential body
  | 36 => (decodeBasis body).map .attested
  | 39 => (View.decode body).map .logView
  | 42 => (Directory.Lookup.decode body).map .directoryEntry
  | 44 => (Directory.decodePage sha body).map .directoryRecords
  | 46 => (opaqueBody body).map .receipt
  | 48 => (opaqueBody body).map .binding
  | 50 => (opaqueBody body).map .replicaAck
  | 54 => (noBody body).map fun _ ↦ .chainStored
  | 55 => (decodeChainReply body).map fun (documents, key, actionGrant) ↦ .chain documents key actionGrant
  | 56 => (noBody body).map fun _ ↦ .noChain
  | 62 => (opaqueBody body).map .actionGranted
  | 63 => (exactLe body).map .actionPending
  | 64 => (decodeRefusal body).map .actionRefused
  | 65 => .ok (.actionQueue body)
  | other => .error (.unknownCriticalField other.toUInt16)

/-- Parse a server message. -/
def decodeResponse (sha : Sha2) (bytes : List UInt8) : Except FormatError Response := do
  let (kind, body) ← splitKind bytes
  decodeResponseBody sha kind body

end OpenCrate.Protocol.Activation
