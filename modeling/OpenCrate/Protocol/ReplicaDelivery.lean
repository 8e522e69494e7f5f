import OpenCrate.Protocol.ControlSigned
import OpenCrate.Protocol.EnvelopeRoundTrip
import OpenCrate.Protocol.Replica

/-!
# Which snapshots reach the replica

`Push.sign` takes a state of up to `maxState` bytes, which is said to be the limit of a message. The envelope
takes a document of up to `maxDocument` bytes, half of that, and the document is the state with the signature
and eight other fields before it. A signed snapshot is carried exactly if its state leaves room for them
(`replicated_iff`). The signature does not fail on the others: they are signed, would open on the other side,
and have no message.
-/

namespace OpenCrate.Protocol.Replica

open OpenCrate.Format OpenCrate.Crypto
open Control (recordedSigner recordedEd25519 lawful_recordedSigner zeros)

namespace Push

/-- What the signature, the fields before the state, and the prefix of the state itself take in a push. -/
def overhead : ℕ := Crypto.signatureLen + 160

/-- Around the state stand a hundred and sixty bytes. -/
theorem encodedLength_contents (push : Push) :
    encodedLength push.contents = 160 + push.state.length := by
  simp only [contents, encodedLength_cons, encodedLength_nil, fieldPrefixLen, length_toLeBytes,
    LeInt.width_uint64, LeInt.width_int64, List.Vector.toList_length, List.length_singleton]
  omega

/-- A state within its limit can be written. -/
theorem encodes_contents {push : Push} (h : push.state.length ≤ maxState) :
    Encodes (encodeContents push.contents) push.contents := by
  have htags : push.contents.map Prod.fst = tags := rfl
  refine Encodes.of_forall (by rw [htags]; decide) fun p hp ↦ ?_
  have hfield := length_le_encodedLength hp
  rw [encodedLength_contents] at hfield
  rw [maxState] at h
  omega

variable {sha : Sha2} {signer : Signer} {push : Push} {bytes : List UInt8}

/-- A push is signed if it has a body. -/
theorem sign_eq_ok_iff :
    push.sign sha signer = .ok bytes ↔
      push.state.length ≤ maxState ∧ sha.sha256 push.state = push.stateHash ∧
        ∃ sig, signer.sign (transcript .replicaPush (encodeContents push.contents)) = .ok sig ∧
          bytes = sig.toList ++ encodeContents push.contents := by
  simp only [sign, Except.bind_eq_ok_iff, Except.mapError_eq_ok_iff, body_eq_ok_iff, Except.ok.injEq]
  constructor
  · intro h
    obtain ⟨body, ⟨hlen, hhash, henc⟩, sig, hsig, rfl⟩ := h
    obtain rfl := henc.eq_encodeContents
    exact ⟨hlen, hhash, sig, hsig, rfl⟩
  · intro h
    obtain ⟨hlen, hhash, sig, hsig, rfl⟩ := h
    exact ⟨_, ⟨hlen, hhash, encodes_contents hlen⟩, sig, hsig, rfl⟩

/-- **A signed push is longer than its state by a fixed number of bytes.** -/
theorem length_sign (h : push.sign sha signer = .ok bytes) :
    bytes.length = overhead + push.state.length := by
  obtain ⟨-, -, sig, -, rfl⟩ := sign_eq_ok_iff.mp h
  rw [List.length_append, List.Vector.toList_length, length_encodeContents, encodedLength_contents,
    overhead, Nat.add_assoc]

end Push

open Activation (Request encodeRequest decodeRequest decodeRequestBody requestParts maxDocument
  encodeRequest_eq_ok_iff decodeRequestBody_eq_ok_iff opaqueBody_eq_ok_iff)

/-- The envelope carries a push exactly if `opaqueBody` takes it, and gives it back. -/
theorem exists_message_iff {bytes : List UInt8} :
    (∃ message, encodeRequest (.replicaPush bytes) = .ok message ∧
        decodeRequest message = .ok (.replicaPush bytes)) ↔
      bytes ≠ [] ∧ bytes.length ≤ maxDocument := by
  constructor
  · intro h
    obtain ⟨message, hwrite, -⟩ := h
    obtain ⟨_, _, hparts, -⟩ := encodeRequest_eq_ok_iff.mp hwrite
    obtain ⟨_, hbody, -⟩ := Except.map_eq_ok_iff.mp hparts
    exact (opaqueBody_eq_ok_iff.mp hbody).1
  · intro h
    have hparts : requestParts (.replicaPush bytes) = .ok (Activation.Kind.replicaPush, bytes) :=
      Except.map_eq_ok_iff.mpr ⟨bytes, opaqueBody_eq_ok_iff.mpr ⟨h, rfl⟩, rfl⟩
    refine ⟨Activation.Kind.replicaPush :: bytes, encodeRequest_eq_ok_iff.mpr ⟨_, _, hparts, rfl⟩, ?_⟩
    show decodeRequestBody Activation.Kind.replicaPush bytes = .ok (.replicaPush bytes)
    exact (decodeRequestBody_eq_ok_iff hparts).mpr trivial

/-- A document that is too long has no message. -/
theorem encodeRequest_of_lt {bytes : List UInt8} (h : maxDocument < bytes.length) :
    encodeRequest (.replicaPush bytes) = .error (.badFieldLength 0 bytes.length) := by
  have hbody : Activation.opaqueBody bytes = .error (.badFieldLength 0 bytes.length) := by
    rw [Activation.opaqueBody, Except.refuseIf, if_pos (Or.inr h)]
    rfl
  rw [encodeRequest, requestParts, hbody]
  rfl

/-- The longest state that the envelope carries. -/
def maxReplicated : ℕ := 1048352

variable {sha : Sha2} {ed : Ed25519} {signer : Signer}

/-- **A signed snapshot is replicated** if and only if its state leaves room for the rest of the push in a
document of the envelope. -/
theorem replicated_iff (hlawful : signer.Lawful ed) {push : Push} {bytes : List UInt8}
    (h : push.sign sha signer = .ok bytes) :
    ((∃ message, encodeRequest (.replicaPush bytes) = .ok message ∧
        decodeRequest message = .ok (.replicaPush bytes)) ∧
      Push.open_ sha ed bytes signer.publicKey = .ok push) ↔
      push.state.length ≤ maxReplicated := by
  have hlen := Push.length_sign h
  have hmax : maxDocument = Push.overhead + maxReplicated := rfl
  have hpos : 0 < Push.overhead := by decide
  rw [exists_message_iff, and_iff_left (Push.open_sign hlawful h), ← List.length_pos_iff]
  omega

/-! ### Samples -/

/-- The key of the sample server. -/
def sampleAuthority : Digest :=
  ⟨[0x88, 0x4b, 0x88, 0x57, 0xf4, 0xea, 0xa1, 0x61, 0x3c, 0x61, 0x50, 0x4d, 0xb3, 0x4d, 0x4b, 0xea,
    0xf3, 0x46, 0x51, 0x7a, 0x0e, 0x31, 0xde, 0x3c, 0xdd, 0xd4, 0xd9, 0xb4, 0x20, 0x1d, 0x9d, 0x0b],
    rfl⟩

/-- A snapshot of a state with its fingerprint. -/
def samplePush (state : List UInt8) (hash : Digest) : Push where
  authorityId := List.Vector.replicate 16 0x0a
  epoch := 0
  seq := 3
  previous := List.Vector.replicate 32 0x11
  stateHash := hash
  snapshot := false
  at_ := 1800000000
  state := state

/-- SHA-256 as far as the fingerprint of one state goes. -/
def pushSha (push : Push) : Sha2 :=
  ⟨fun m ↦ if m = push.state then push.stateHash else zeros 32, fun _ _ ↦ zeros 32,
    fun _ _ _ n ↦ zeros n⟩

/-- What the signature of a push covers. -/
def pushMessage (push : Push) : List UInt8 :=
  (transcript .replicaPush (encodeContents push.contents)).asBytes

/-- The sample server, as far as one push goes. -/
def sampleServer (push : Push) (sig : Signature) : Signer :=
  recordedSigner sampleAuthority [(pushMessage push, sig)]

/-- Ed25519, as far as one push of the sample server goes. -/
def pushEd25519 (push : Push) (sig : Signature) : Ed25519 :=
  recordedEd25519 [(sampleAuthority, pushMessage push, sig)]

theorem lawful_sampleServer (push : Push) (sig : Signature) :
    (sampleServer push sig).Lawful (pushEd25519 push sig) :=
  lawful_recordedSigner (by simp)

/-- A push within its limit is signed. -/
theorem sign_sampleServer (push : Push) (sig : Signature) (h : push.state.length ≤ maxState) :
    push.sign (pushSha push) (sampleServer push sig) =
      .ok (sig.toList ++ encodeContents push.contents) := by
  refine Push.sign_eq_ok_iff.mpr ⟨h, if_pos rfl, sig, ?_, rfl⟩
  simp [sampleServer, recordedSigner, pushMessage, Except.okOr]

/-- A push of eleven bytes. -/
def smallPush : Push :=
  samplePush (utf8 "state bytes")
    ⟨[0x81, 0xc4, 0x6c, 0xbc, 0x49, 0x5d, 0xdd, 0x7b, 0xb3, 0x9b, 0x1a, 0x80, 0xf6, 0x31, 0xdf, 0x6f,
      0x47, 0x5a, 0x72, 0xf0, 0xe8, 0x64, 0xc1, 0xb6, 0xeb, 0x27, 0xf7, 0x59, 0xc9, 0x3c, 0x06, 0x29],
      rfl⟩

/-- Its signature. -/
def smallPushSignature : Signature :=
  ⟨[0x0d, 0x88, 0x2f, 0x79, 0xaa, 0xfa, 0xa9, 0x53, 0xcd, 0x11, 0xe5, 0x2e, 0x44, 0x29, 0xd3, 0x47,
    0xf9, 0x83, 0x77, 0x05, 0x30, 0xc5, 0x4c, 0xad, 0xe6, 0xe9, 0x6e, 0x90, 0xb8, 0x84, 0xbb, 0x75,
    0xc9, 0x4d, 0x13, 0x43, 0x00, 0xac, 0x7e, 0xc7, 0x50, 0x72, 0xb6, 0xce, 0x92, 0xb3, 0x0c, 0xce,
    0x71, 0xc3, 0xa3, 0x67, 0x53, 0x74, 0x29, 0x4c, 0x33, 0xe8, 0xea, 0x85, 0xdb, 0xc6, 0x7f, 0x03],
    rfl⟩

/-- A small state is signed, carried and opened. -/
theorem replicated_smallPush :
    ∃ bytes, smallPush.sign (pushSha smallPush) (sampleServer smallPush smallPushSignature) = .ok bytes ∧
      (∃ message, encodeRequest (.replicaPush bytes) = .ok message ∧
        decodeRequest message = .ok (.replicaPush bytes)) ∧
      Push.open_ (pushSha smallPush) (pushEd25519 smallPush smallPushSignature) bytes sampleAuthority =
        .ok smallPush := by
  have hsign := sign_sampleServer smallPush smallPushSignature (by decide)
  exact ⟨_, hsign, (replicated_iff (lawful_sampleServer _ _) hsign).mpr (by decide)⟩

/-- A push of one mebibyte, half of what a snapshot may hold. -/
def largePush : Push :=
  samplePush (List.replicate (1024 * 1024) 0)
    ⟨[0x30, 0xe1, 0x49, 0x55, 0xeb, 0xf1, 0x35, 0x22, 0x66, 0xdc, 0x2f, 0xf8, 0x06, 0x7e, 0x68, 0x10,
      0x46, 0x07, 0xe7, 0x50, 0xab, 0xb9, 0xd3, 0xb3, 0x65, 0x82, 0xb8, 0xaf, 0x90, 0x9f, 0xcb, 0x58],
      rfl⟩

/-- Its signature. -/
def largePushSignature : Signature :=
  ⟨[0x5c, 0xd0, 0x7a, 0xd0, 0x80, 0xdf, 0x76, 0xaf, 0xa8, 0x9a, 0x8d, 0xbf, 0xe0, 0xd6, 0xfe, 0xe5,
    0x7f, 0x64, 0x50, 0x00, 0xaa, 0xc2, 0x3a, 0x7b, 0x5e, 0xd6, 0x68, 0xc2, 0x8d, 0x63, 0x3b, 0xdb,
    0x4d, 0x3c, 0x45, 0xcf, 0x2e, 0x55, 0xd3, 0xdc, 0x53, 0x2d, 0x11, 0xc3, 0xb2, 0xaa, 0xa4, 0xe8,
    0x5c, 0x58, 0xc8, 0x31, 0xe6, 0xe9, 0xbd, 0xd3, 0x22, 0x0f, 0x7b, 0x2c, 0xbd, 0x3b, 0x66, 0x08],
    rfl⟩

/-- The state of one mebibyte is signed, and no message carries it. -/
theorem signed_not_replicated :
    (sampleServer largePush largePushSignature).Lawful (pushEd25519 largePush largePushSignature) ∧
      ∃ bytes, largePush.sign (pushSha largePush) (sampleServer largePush largePushSignature) =
          .ok bytes ∧
        encodeRequest (.replicaPush bytes) = .error (.badFieldLength 0 1048800) := by
  have hstate : largePush.state.length = 1024 * 1024 := List.length_replicate
  have hsign := sign_sampleServer largePush largePushSignature (by rw [hstate]; decide)
  have hlen := Push.length_sign hsign
  rw [hstate] at hlen
  refine ⟨lawful_sampleServer _ _, _, hsign, ?_⟩
  rw [encodeRequest_of_lt (by rw [hlen]; decide), hlen]
  rfl

end OpenCrate.Protocol.Replica
