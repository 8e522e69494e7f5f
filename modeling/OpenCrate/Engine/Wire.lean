import OpenCrate.Data.Cursor
import OpenCrate.Engine.Pack

/-!
# The pipe between the host and the engine

`wire` of `oc-engine`: requests and responses as messages. The size of a message is computed before it
is written, into a buffer that does not grow; a message that comes out shorter or longer than its size is
refused as `badSize`. That never happens, and the codec is exact: what was encoded is decoded to the same
value, and no front and no continuation of a message is accepted.

A request for a plan carries the policy, which is decoded to its normal form. The packer does not see the
difference.
-/

namespace OpenCrate.Engine.Wire

open Crypto Format
open Except (refuseIf okOr)

/-! ### Messages -/

/-- Maximum size of one message. -/
def maxMessage : ℕ := 1 <<< 20

/-- Wire-parsing failure. -/
inductive WireError where
  | truncated
  /-- Bytes remain after the parsed message. -/
  | trailingBytes
  | unknownKind (kind : UInt8)
  /-- A field value is outside its declared set. -/
  | badValue (what : String)
  | tooLarge
  /-- Computed message size differs from the written size. -/
  | badSize
  deriving DecidableEq

/-- What to pack: everything the engine needs to know, owned. -/
structure PlanArgs where
  originalName : String
  policy : Policy
  chunkSize : UInt32
  orgId : List UInt8
  authorityUrls : List String
  recipient : Recipient
  author : Digest
  authoritySealing : Digest
  authorityLeaseVerify : Digest
  device : Digest
  deviceHybrid : Option (List UInt8)
  deviceHardwareHybrid : Option (List UInt8)
  deviceTpm : Option (List UInt8)
  coauthors : Option Coauthors
  deriving DecidableEq

namespace PlanArgs

/-- Construct an owned request from borrowed halves. -/
def fromParts (request : PackRequest) (keys : PublicKeys) : PlanArgs where
  originalName := request.originalName
  policy := request.policy
  chunkSize := request.chunkSize
  orgId := request.orgId
  authorityUrls := request.authorityUrls
  recipient := request.recipient
  author := keys.author
  authoritySealing := keys.authoritySealing
  authorityLeaseVerify := keys.authorityLeaseVerify
  device := keys.device
  deviceHybrid := keys.deviceHybrid
  deviceHardwareHybrid := keys.deviceHardwareHybrid
  deviceTpm := keys.deviceTpm
  coauthors := request.coauthors

/-- View these fields as a packing request. -/
def request (args : PlanArgs) : PackRequest where
  originalName := args.originalName
  policy := args.policy
  chunkSize := args.chunkSize
  orgId := args.orgId
  authorityUrls := args.authorityUrls
  recipient := args.recipient
  coauthors := args.coauthors

/-- View these fields as a public-key set. -/
def keys (args : PlanArgs) : PublicKeys where
  author := args.author
  authoritySealing := args.authoritySealing
  authorityLeaseVerify := args.authorityLeaseVerify
  device := args.device
  deviceHardwareHybrid := args.deviceHardwareHybrid
  deviceHybrid := args.deviceHybrid
  deviceTpm := args.deviceTpm

end PlanArgs

/-- Engine response to a planning request. -/
structure Planned where
  fileId : List.Vector UInt8 16
  payloadKey : PayloadKey
  chunkSize : UInt32
  aead : AeadAlg
  deriving DecidableEq

/-- Engine response to an assembly request. -/
structure Done where
  header : List UInt8
  contentDesc : List UInt8
  deriving DecidableEq

/-- Device-to-engine message. -/
inductive Request where
  | plan (args : PlanArgs)
  | assemble (sealed : SealedInfo)
  deriving DecidableEq

/-- Engine-to-device message. -/
inductive Response where
  | planned (planned : Planned)
  | done (done : Done)
  /-- Failure already converted to text. -/
  | failed (text : String)
  deriving DecidableEq

namespace Kind

/-- Kind of a planning request. -/
def plan : UInt8 := 1

/-- Kind of an assembly request. -/
def assemble : UInt8 := 2

/-- Kind of a response to a planning request. -/
def planned : UInt8 := 3

/-- Kind of a response to an assembly request. -/
def done : UInt8 := 4

/-- Kind of a failure. -/
def failed : UInt8 := 5

end Kind

namespace RecipientKind

/-- Nobody. -/
def none : UInt8 := 0

/-- Long-term key. -/
def identity : UInt8 := 1

/-- Claim code. -/
def claim : UInt8 := 2

/-- Hybrid key. -/
def hybrid : UInt8 := 3

/-- Hardware hybrid key. -/
def hardwareHybrid : UInt8 := 4

end RecipientKind

/-- Cipher identifiers on the wire. -/
def aeadToWire : AeadAlg → UInt8
  | .xChaCha20Poly1305 => 1
  | .aes256Gcm => 2
  | .aes256GcmSiv => 3

/-- The cipher of an identifier. -/
def aeadFromWire (value : UInt8) : Except WireError AeadAlg :=
  match value with
  | 1 => .ok .xChaCha20Poly1305
  | 2 => .ok .aes256Gcm
  | 3 => .ok .aes256GcmSiv
  | _ => .error (.badValue "aead")

/-! ### Sizes -/

/-- Add sizes with rejection rather than overflow. -/
def add (a b : ℕ) : Except WireError ℕ := if a + b < 2 ^ 64 then .ok (a + b) else .error .tooLarge

/-- Size of a length-prefixed piece. -/
def blobSize (len : ℕ) : Except WireError ℕ := add 4 len

/-- Add the size of a length-prefixed piece. -/
def addBlob (size len : ℕ) : Except WireError ℕ := do
  let blob ← blobSize len
  add size blob

/-- Add the size of a key that may be absent. -/
def addOptional (size : ℕ) (bytes : Option (List UInt8)) : Except WireError ℕ := do
  let size ← add size 1
  match bytes with
  | some bytes => addBlob size bytes.length
  | none => .ok size

/-- Size of what a recipient adds to its kind. -/
def recipientSize : Recipient → ℕ
  | .none => 0
  | .identity _ => 32
  | .hybrid _ => Xwing.publicKeyLen
  | .hardwareHybrid _ => MlkemP256.publicKeyLen
  | .claim _ => secretLen

/-- Add the size of the coauthors, which are checked here. -/
def addCoauthors (size : ℕ) (coauthors : Option Coauthors) : Except WireError ℕ := do
  let size ← add size 1
  match coauthors with
  | some roster =>
    (checkCoauthors roster).mapError fun _ ↦ .badValue "состав соавторов"
    let size ← add size 2
    refuseIf (2 ^ 64 ≤ roster.keys.length * 32) .tooLarge
    add size (roster.keys.length * 32)
  | none => .ok size

/-- Size of a planning request, whose policy is already encoded. -/
def planSize (args : PlanArgs) (policy : List UInt8) : Except WireError ℕ := do
  let size ← addBlob 1 (utf8 args.originalName).length
  let size ← addBlob size policy.length
  let size ← add size 4
  let size ← addBlob size args.orgId.length
  let size ← add size 4
  let size ← args.authorityUrls.foldlM (fun size url ↦ addBlob size (utf8 url).length) size
  let size ← add size 1
  let size ← add size (recipientSize args.recipient)
  let size ← add size (32 * 4)
  let size ← addOptional size args.deviceHybrid
  let size ← addOptional size args.deviceHardwareHybrid
  let size ← addOptional size args.deviceTpm
  addCoauthors size args.coauthors

/-! ### Writing -/

/-- A buffer that does not grow, and what has been written into it. -/
structure Writer where
  capacity : ℕ
  written : List UInt8

namespace Writer

/-- Write bytes behind those that are there. -/
def raw (w : Writer) (v : List UInt8) : Except WireError Writer := do
  let stop ← add w.written.length v.length
  refuseIf (w.capacity < stop) .badSize
  .ok { w with written := w.written ++ v }

/-- Write one byte. -/
def u8 (w : Writer) (v : UInt8) : Except WireError Writer := w.raw [v]

/-- Write a number of four bytes. -/
def u32 (w : Writer) (v : UInt32) : Except WireError Writer := w.raw (toLeBytes v)

/-- Write a number of eight bytes. -/
def u64 (w : Writer) (v : UInt64) : Except WireError Writer := w.raw (toLeBytes v)

/-- Write a length-prefixed piece. -/
def blob (w : Writer) (v : List UInt8) : Except WireError Writer := do
  let len ← okOr (UInt32.tryFrom v.length) .tooLarge
  let w ← w.u32 len
  w.raw v

/-- Begin a message. The ceiling stands before the buffer is allocated. -/
def new (kind : UInt8) (size : ℕ) : Except WireError Writer := do
  refuseIf (maxMessage < size) .tooLarge
  u8 ⟨size, []⟩ kind

/-- Message complete: exactly as many bytes written as calculation promised. -/
def finish (w : Writer) : Except WireError (List UInt8) :=
  if w.written.length = w.capacity then .ok w.written else .error .badSize

/-- A list of pieces, one after the other. -/
def each {α : Type} (write : Writer → α → Except WireError Writer) (l : List α) (w : Writer) :
    Except WireError Writer :=
  l.foldlM write w

/-- A recipient: its kind, and what it adds. -/
def recipient (w : Writer) : Recipient → Except WireError Writer
  | .none => w.u8 RecipientKind.none
  | .identity publicKey => do
    let w ← w.u8 RecipientKind.identity
    w.raw publicKey.toList
  | .hybrid publicKey => do
    let w ← w.u8 RecipientKind.hybrid
    w.raw publicKey.toList
  | .hardwareHybrid publicKey => do
    let w ← w.u8 RecipientKind.hardwareHybrid
    w.raw publicKey.toList
  | .claim secret => do
    let w ← w.u8 RecipientKind.claim
    w.raw secret.expose.toList

/-- A key that may be absent. -/
def optional (w : Writer) : Option (List UInt8) → Except WireError Writer
  | none => w.u8 0
  | some bytes => do
    let w ← w.u8 1
    w.blob bytes

/-- The coauthors, if there are any: the threshold and the number of keys in a byte each. -/
def coauthors (w : Writer) : Option Coauthors → Except WireError Writer
  | none => w.u8 0
  | some roster => do
    refuseIf (2 ^ 8 ≤ roster.keys.length) (.badValue "состав соавторов")
    let w ← w.u8 1
    let w ← w.u8 roster.threshold
    let w ← w.u8 (UInt8.ofNat roster.keys.length)
    each (fun w key ↦ w.raw key.toList) roster.keys w

end Writer

/-- A message of the size: its kind, and what the body writes. -/
def writeMessage (kind : UInt8) (size : ℕ) (body : Writer → Except WireError Writer) :
    Except WireError (List UInt8) := do
  let w ← Writer.new kind size
  let w ← body w
  w.finish

/-- The fields of a planning request. -/
def writePlan (args : PlanArgs) (policy : List UInt8) (count : UInt32) (w : Writer) :
    Except WireError Writer := do
  let w ← w.blob (utf8 args.originalName)
  let w ← w.blob policy
  let w ← w.u32 args.chunkSize
  let w ← w.blob args.orgId
  let w ← w.u32 count
  let w ← Writer.each (fun w url ↦ w.blob (utf8 url)) args.authorityUrls w
  let w ← w.recipient args.recipient
  let w ← w.raw args.author.toList
  let w ← w.raw args.authoritySealing.toList
  let w ← w.raw args.authorityLeaseVerify.toList
  let w ← w.raw args.device.toList
  let w ← w.optional args.deviceHybrid
  let w ← w.optional args.deviceHardwareHybrid
  let w ← w.optional args.deviceTpm
  w.coauthors args.coauthors

/-- Assembly-request size: kind, length, chunk count, tree root. -/
def assembleSize : ℕ := 1 + 8 + 4 + 32

/-- Encode a device message. -/
def encodeRequest : Request → Except WireError (List UInt8)
  | .plan args => do
    let policy ← (PolicyCodec.encode containerVersion args.policy).mapError fun _ ↦
      .badValue "правила"
    let count ← okOr (UInt32.tryFrom args.authorityUrls.length) .tooLarge
    let size ← planSize args policy
    writeMessage Kind.plan size (writePlan args policy count)
  | .assemble sealed =>
    writeMessage Kind.assemble assembleSize fun w ↦ do
      let w ← w.u64 sealed.totalLen
      let w ← w.u32 sealed.chunkCount
      w.raw sealed.treeRoot.toList

/-- Plan-response size: kind, file, key, chunk size, cipher. -/
def plannedSize : ℕ := 1 + 16 + secretLen + 4 + 1

/-- Encode an engine response. -/
def encodeResponse : Response → Except WireError (List UInt8)
  | .planned planned =>
    writeMessage Kind.planned plannedSize fun w ↦ do
      let w ← w.raw planned.fileId.toList
      let w ← w.raw planned.payloadKey.expose.toList
      let w ← w.u32 planned.chunkSize
      w.u8 (aeadToWire planned.aead)
  | .done done => do
    let size ← addBlob 1 done.header.length
    let size ← addBlob size done.contentDesc.length
    writeMessage Kind.done size fun w ↦ do
      let w ← w.blob done.header
      w.blob done.contentDesc
  | .failed text => do
    let size ← addBlob 1 (utf8 text).length
    writeMessage Kind.failed size fun w ↦ w.blob (utf8 text)

/-! ### Reading -/

/-- Message-byte parser. -/
abbrev Reader := Parser WireError UInt8

namespace Reader

/-- The next bytes. A position that overflows lies behind the end of every buffer. -/
def take (n : ℕ) : Reader (List UInt8) := Parser.take .truncated n

/-- One byte. -/
def u8 : Reader UInt8 := do
  let bytes ← take 1
  Parser.lift (okOr bytes.head? .truncated)

/-- Bytes of a fixed length. -/
def array (n : ℕ) : Reader (List.Vector UInt8 n) := do
  let bytes ← take n
  Parser.lift (okOr (toVector? n bytes) .truncated)

/-- A number of four bytes. -/
def u32 : Reader UInt32 := do
  let bytes ← take 4
  Parser.lift (okOr (ofLeBytes? bytes) .truncated)

/-- A number of eight bytes. -/
def u64 : Reader UInt64 := do
  let bytes ← take 8
  Parser.lift (okOr (ofLeBytes? bytes) .truncated)

/-- A length-prefixed piece. -/
def blob : Reader (List UInt8) := do
  let len ← u32
  Parser.lift (refuseIf (maxMessage < len.toNat) .tooLarge)
  take len.toNat

/-- A length-prefixed text. -/
def text : Reader String := do
  let bytes ← blob
  Parser.lift (okOr (fromUtf8? bytes) (.badValue "не текст"))

/-- A recipient of the kind. -/
def recipientOf (kind : UInt8) : Reader Recipient :=
  match kind with
  | 0 => pure .none
  | 1 => do
    let publicKey ← array 32
    pure (.identity publicKey)
  | 3 => do
    let publicKey ← array Xwing.publicKeyLen
    pure (.hybrid publicKey)
  | 4 => do
    let publicKey ← array MlkemP256.publicKeyLen
    pure (.hardwareHybrid publicKey)
  | 2 => do
    let secret ← array 32
    pure (.claim ⟨secret⟩)
  | _ => Parser.lift (.error (.badValue "получатель"))

/-- A recipient, by its kind. -/
def recipient : Reader Recipient := do
  let kind ← u8
  recipientOf kind

/-- A key that is absent or there, by the mark; another mark is refused under the name of the key. -/
def optionalOf (what : String) (mark : UInt8) : Reader (Option (List UInt8)) :=
  match mark with
  | 0 => pure none
  | 1 => do
    let bytes ← blob
    pure (some bytes)
  | _ => Parser.lift (.error (.badValue what))

/-- A key that may be absent. -/
def optional (what : String) : Reader (Option (List UInt8)) := do
  let mark ← u8
  optionalOf what mark

/-- A roster of coauthors, checked as in a header. -/
def roster : Reader Coauthors := do
  let threshold ← u8
  let count ← u8
  -- the number of keys comes from another process
  Parser.lift (refuseIf (maxCoauthors < count.toNat) (.badValue "состав соавторов"))
  let keys ← Parser.times (array 32) count.toNat
  Parser.lift ((checkCoauthors ⟨threshold, keys⟩).mapError fun _ ↦ .badValue "состав соавторов")
  pure ⟨threshold, keys⟩

/-- The coauthors, if there are any, by the mark. -/
def coauthorsOf (mark : UInt8) : Reader (Option Coauthors) :=
  match mark with
  | 0 => pure none
  | 1 => do
    let roster ← roster
    pure (some roster)
  | _ => Parser.lift (.error (.badValue "состав соавторов"))

/-- The coauthors. -/
def coauthors : Reader (Option Coauthors) := do
  let mark ← u8
  coauthorsOf mark

/-- The fields of a planning request. -/
def plan : Reader PlanArgs := do
  let originalName ← text
  let policy ← blob
  let policy ← Parser.lift ((PolicyCodec.decode supportedReaderVersion policy).mapError fun _ ↦
    .badValue "правила")
  let chunkSize ← u32
  let orgId ← blob
  let count ← u32
  -- the ceiling stands before the loop
  Parser.lift (refuseIf (maxMessage < count.toNat) .tooLarge)
  let authorityUrls ← Parser.times text count.toNat
  let recipient ← recipient
  let author ← array 32
  let authoritySealing ← array 32
  let authorityLeaseVerify ← array 32
  let device ← array 32
  let deviceHybrid ← optional "гибридный ключ автора"
  let deviceHardwareHybrid ← optional "аппаратный гибридный ключ автора"
  let deviceTpm ← optional "аппаратный ключ"
  let coauthors ← coauthors
  pure {
    originalName, policy, chunkSize, orgId, authorityUrls, recipient, author, authoritySealing,
    authorityLeaseVerify, device, deviceHybrid, deviceHardwareHybrid, deviceTpm, coauthors }

/-- A device message of the kind. -/
def requestOf (kind : UInt8) : Reader Request :=
  match kind with
  | 1 => do
    let args ← plan
    pure (.plan args)
  | 2 => do
    let totalLen ← u64
    let chunkCount ← u32
    let treeRoot ← array 32
    pure (.assemble ⟨totalLen, chunkCount, treeRoot⟩)
  | other => Parser.lift (.error (.unknownKind other))

/-- A device message, up to its end. -/
def request : Reader Request := do
  let kind ← u8
  requestOf kind

/-- An engine message of the kind. -/
def responseOf (kind : UInt8) : Reader Response :=
  match kind with
  | 3 => do
    let fileId ← array 16
    let payloadKey ← array 32
    let chunkSize ← u32
    let aead ← u8
    let aead ← Parser.lift (aeadFromWire aead)
    pure (.planned ⟨fileId, ⟨payloadKey⟩, chunkSize, aead⟩)
  | 4 => do
    let header ← blob
    let contentDesc ← blob
    pure (.done ⟨header, contentDesc⟩)
  | 5 => do
    let text ← text
    pure (.failed text)
  | other => Parser.lift (.error (.unknownKind other))

/-- An engine message, up to its end. -/
def response : Reader Response := do
  let kind ← u8
  responseOf kind

end Reader

/-- Parse a device message. Every kind ends with the same demand, that no byte remains. -/
def decodeRequest (bytes : List UInt8) : Except WireError Request :=
  Parser.runWhole .trailingBytes Reader.request bytes

/-- Parse an engine response. -/
def decodeResponse (bytes : List UInt8) : Except WireError Response :=
  Parser.runWhole .trailingBytes Reader.response bytes

end OpenCrate.Engine.Wire
