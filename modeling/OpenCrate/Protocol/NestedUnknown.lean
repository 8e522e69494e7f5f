import OpenCrate.Protocol.Cosigning
import OpenCrate.Protocol.Transparency

/-!
# Unknown fields inside the payload of a request

A payload is a record inside a record, and each of the two parsers cuts the optional fields it does not
know out of its own bytes. But the outer one compares the value of the payload as it stands in the body
with the payload written anew, and there the inner fields are missing. So a field merged into the payload,
which its parser passes over, makes the request refused (`nested_extension_accepted_iff`).
-/

namespace OpenCrate.Protocol

open OpenCrate.Format OpenCrate.Crypto
open Except (refuseIf okOr)

namespace Control

variable {ed : Ed25519}

/-- The body of a request with fields merged into its payload, in the order of the tags, all of them of
tags that the parser of a payload does not know. -/
def PayloadExtends (extra : Contents) (body body' : List UInt8) : Prop :=
  ∃ before after payload payload', Encodes body (before ++ (RequestTag.payload, payload) :: after) ∧
    Encodes body' (before ++ (RequestTag.payload, payload') :: after) ∧
    Extends [1, 2] extra payload payload'

/-- The inner parser passes over the fields. -/
theorem transparent_payload (kind : UInt8) :
    Transparent [1, 2] (fun _ ↦ True) (Payload.decode kind) :=
  .of_canonicalStep Payload.canonicalStep_decodeStep

/-- The payload in a body that is read is a payload as it is written. -/
theorem ControlRequest.encode_payload_of_decodeBody {body : List UInt8} {request : ControlRequest}
    {l : Contents} {payload : List UInt8} (h : decodeBody body = .ok request) (henc : Encodes body l)
    (hmem : (RequestTag.payload, payload) ∈ l) : request.payload.encode = .ok payload := by
  obtain ⟨written, hcarries, -, hbody⟩ := decodeBody_eq_ok_iff.1 h
  obtain ⟨-, -, -, -, payload', hpayload, hwritten⟩ := body_eq_ok_iff.1 hbody
  have htag : RequestTag.payload ∈ tags := by decide
  have hsame := (hcarries.mem_iff henc hwritten htag).1 hmem
  simp only [contents, List.mem_cons, Prod.mk.injEq, List.not_mem_nil, or_false] at hsame
  have hvalue : payload = payload' := by
    simpa [RequestTag.version, RequestTag.tenant, RequestTag.authorityId, RequestTag.epoch,
      RequestTag.operationId, RequestTag.scope, RequestTag.expectedRevision, RequestTag.issuedAt,
      RequestTag.expiresAt, RequestTag.payloadKind, RequestTag.payload] using hsame
  rw [hvalue]
  exact hpayload

/-- A payload as it is written has no unknown field. -/
theorem Payload.eq_nil_of_extends {payload : Payload} {extra : Contents} {bytes bytes' : List UInt8}
    (h : payload.encode = .ok bytes') (hext : Extends [1, 2] extra bytes bytes') : extra = [] := by
  obtain ⟨l, hl, henc⟩ := encode_eq_ok_iff.1 h
  obtain ⟨_, l', -, henc', hmerged, hunknown⟩ := hext
  obtain rfl := henc.unique henc'
  refine List.eq_nil_iff_forall_not_mem.2 fun p hp ↦ hunknown p hp ?_
  exact (foldlM_contents hl).1 p (hmerged.mem_iff.2 (.inr hp))

/-- Where nothing is merged, the body is the same. -/
theorem PayloadExtends.eq_of_nil {body body' : List UInt8} (h : PayloadExtends [] body body') :
    body' = body := by
  obtain ⟨before, after, payload, payload', henc, henc', l, l', hpayload, hpayload', hmerged, -⟩ := h
  have hsame : l' = l := by
    have hfilter : l'.filter (fun _ ↦ true) = l.filter fun _ ↦ true :=
      hmerged.filter_eq hpayload.increasing (List.forall_mem_nil _)
    simpa using hfilter
  rw [hsame] at hpayload'
  rw [hpayload'.eq_encodeContents, ← hpayload.eq_encodeContents] at henc'
  rw [henc'.eq_encodeContents, henc.eq_encodeContents]

/-- **Fields inside the payload are not passed over.** A request with fields merged into its payload,
signed again by its controllers, is read as the same request if and only if no field was merged; with a
field, it is not read at all. -/
theorem nested_extension_accepted_iff {sha : Sha2} {bytes bytes' body body' : List UInt8}
    {signatures signatures' : List (Digest × Signature)} {extra : Contents} {opened : SignedRequest}
    (hopened : openRequest sha ed bytes = .ok opened)
    (hsplit : splitRequest bytes = .ok (signatures, body)) (hext : PayloadExtends extra body body')
    (hopt : ∀ p ∈ extra, critTagMax < p.1) (hsplit' : splitRequest bytes' = .ok (signatures', body'))
    (hkeys : signatures'.map Prod.fst = signatures.map Prod.fst)
    (hverify : ∀ s ∈ signatures', verify ed s.1 (transcript .controlRequest body') s.2 = .ok ()) :
    (openRequest sha ed bytes' = .ok ⟨opened.request, sha.sha256 body', opened.signers⟩ ↔ extra = []) ∧
      ((∃ opened', openRequest sha ed bytes' = .ok opened') ↔ extra = []) := by
  -- the payload is encoded again and compared, so nothing was added to it
  have hnone : ∀ {opened'}, openRequest sha ed bytes' = .ok opened' → extra = [] := by
    intro opened' h
    obtain ⟨_, _, hsplit'', -, hdecode, -⟩ := openRequest_eq_ok_iff.1 h
    obtain ⟨-, rfl⟩ := Prod.mk.inj (Except.ok.inj (hsplit'.symm.trans hsplit''))
    obtain ⟨before, after, payload, payload', -, henc', hpayload⟩ := hext
    exact Payload.eq_nil_of_extends (ControlRequest.encode_payload_of_decodeBody hdecode henc'
      (List.mem_append_right _ List.mem_cons_self)) hpayload
  have hsame : extra = [] →
      openRequest sha ed bytes' = .ok ⟨opened.request, sha.sha256 body', opened.signers⟩ := by
    rintro rfl
    obtain ⟨_, _, hsplit₀, -, hdecode, -, hsigners⟩ := openRequest_eq_ok_iff.1 hopened
    obtain ⟨rfl, rfl⟩ := Prod.mk.inj (Except.ok.inj (hsplit.symm.trans hsplit₀))
    rw [hsigners, ← hkeys]
    refine openRequest_eq_ok_iff.2 ⟨signatures', body', hsplit', hverify, ?_, rfl, rfl⟩
    rw [hext.eq_of_nil]
    exact hdecode
  exact ⟨⟨hnone, hsame⟩, fun ⟨_, h⟩ ↦ hnone h, fun h ↦ ⟨_, hsame h⟩⟩

/-! ### Samples -/

/-- The payload of the sample intent. -/
def intentPayload : List UInt8 := encodeContents [(1, [1])]

/-- The same with an empty optional field. -/
def extendedPayload : List UInt8 := encodeContents [(1, [1]), (0x8000, [])]

/-- The fields of the intent around its payload. -/
def intentFields (payload : List UInt8) : Contents := sampleIntent.contents payload

/-- The body of the intent with the longer payload. -/
def extendedBody : List UInt8 := encodeContents (intentFields extendedPayload)

/-- The signature of the controller over the extended body. -/
def extendedSignature : Signature :=
  ⟨[0xa2, 0xc0, 0x18, 0x7c, 0x2c, 0x29, 0xe0, 0xa5, 0x33, 0xb8, 0x11, 0x08, 0xff, 0x35, 0xf6,
    0xf7, 0x9c, 0x29, 0x6a, 0x7e, 0xc3, 0x50, 0x1c, 0x0b, 0xc7, 0x68, 0xa1, 0x7c, 0xfb, 0x38,
    0x6a, 0xa2, 0x90, 0x8e, 0x3e, 0x24, 0xa3, 0x94, 0x56, 0xa4, 0xd3, 0xc6, 0x3c, 0xcb, 0xb0,
    0x36, 0x93, 0x0f, 0x2b, 0x3a, 0x7a, 0x0f, 0xb1, 0x45, 0xd5, 0x8c, 0x20, 0x7b, 0x46, 0x80,
    0x14, 0xb6, 0xb6, 0x0a], rfl⟩

/-- The intent under the signature of its controller. -/
def intentBytes : List UInt8 := envelope intentBody [(requestController, firstIntentSignature)]

/-- The extended intent under the signature of its controller. -/
def extendedBytes : List UInt8 := envelope extendedBody [(requestController, extendedSignature)]

/-- Ed25519, as far as both bodies go. -/
def extendedEd25519 : Ed25519 :=
  recordedEd25519 [(requestController, intentMessage, firstIntentSignature),
    (requestController, (transcript .controlRequest extendedBody).asBytes, extendedSignature)]

/-- The payload of the sample, with a record that nobody knows. -/
theorem extends_extendedPayload :
    Extends [1, 2] [(0x8000, [])] intentPayload extendedPayload :=
  ⟨[(1, [1])], [(1, [1]), (0x8000, [])], .of_forall (by decide) (by decide),
    .of_forall (by decide) (by decide), ⟨.refl _, by decide⟩, by decide⟩

/-- The body around it. -/
theorem payloadExtends_extendedBody : PayloadExtends [(0x8000, [])] intentBody extendedBody := by
  have hintent : Encodes intentBody (intentFields intentPayload) := by
    have hbody : intentBody = encodeContents (intentFields intentPayload) := by decide +kernel
    rw [hbody]
    exact .of_forall (by decide) (by decide +kernel)
  refine ⟨(intentFields intentPayload).take 10, [], intentPayload, extendedPayload, hintent, ?_,
    extends_extendedPayload⟩
  exact .of_forall (by decide) (by decide +kernel)

/-- It is signed as it stands. -/
theorem verify_extendedSignature :
    ∀ s ∈ [(requestController, extendedSignature)],
      verify extendedEd25519 s.1 (transcript .controlRequest extendedBody) s.2 = .ok () :=
  List.forall_mem_singleton.2 (by decide +kernel)

/-- The request without the record is accepted. -/
theorem openRequest_intentBytes :
    openRequest intentSha extendedEd25519 intentBytes =
      .ok ⟨sampleIntent, intentHash, [requestController]⟩ := by
  decide +kernel

/-- The payload is read with its empty field, and the request is not. -/
theorem nested_extension_refused :
    openRequest intentSha extendedEd25519 intentBytes =
        .ok ⟨sampleIntent, intentHash, [requestController]⟩ ∧
      PayloadExtends [(0x8000, [])] intentBody extendedBody ∧
      Payload.decode 2 extendedPayload = .ok (.setDurability .mirrored) ∧
      openRequest intentSha extendedEd25519 extendedBytes = .error (bad 0 extendedBody.length) :=
  ⟨openRequest_intentBytes, payloadExtends_extendedBody,
    (transparent_payload 2).skips extends_extendedPayload (by decide) trivial (by decide +kernel),
    by decide +kernel⟩

/-- The extended intent is not read, since a field was merged. -/
theorem nested_extension_accepted_iff_intentBytes :
    openRequest intentSha extendedEd25519 intentBytes =
        .ok ⟨sampleIntent, intentHash, [requestController]⟩ ∧
      ((∃ opened, openRequest intentSha extendedEd25519 extendedBytes = .ok opened) ↔
        ([(0x8000, [])] : Contents) = []) := by
  have hsplit : splitRequest intentBytes = .ok ([(requestController, firstIntentSignature)], intentBody) := by
    decide +kernel
  have hsplit' : splitRequest extendedBytes =
      .ok ([(requestController, extendedSignature)], extendedBody) := by
    decide +kernel
  exact ⟨openRequest_intentBytes, (nested_extension_accepted_iff openRequest_intentBytes hsplit
    payloadExtends_extendedBody (by decide) hsplit' rfl verify_extendedSignature).2⟩

end Control

end OpenCrate.Protocol
