import OpenCrate.Protocol.EnvelopeRoundTrip

/-!
# One spelling for a message

A message whose kind has a fixed layout, or carries a document without parsing it, can be written in one way
only: what is read is written as it came. There is one exception. An event of a notice has room for a
fingerprint, and says in a byte in front of it whether it has one; if not, zeros are written in its place, and
anything is read there (`Masked`). So a notice that differs from another in bytes that mean nothing is read
as the same one. All other messages have one spelling (`reencodeMessage_iff`).

The kinds whose body is a document over TLV are not among these: their readers skip optional fields.
-/

namespace OpenCrate.Protocol.Activation

open OpenCrate.Format OpenCrate.Crypto
open Except (OneSpelling)

/-- The kinds whose body is a document over TLV that the envelope parses. -/
def tlvKinds : List UInt8 :=
  [Kind.hello, Kind.prove, Kind.activate, Kind.ask, Kind.renew, Kind.attestEvidence, Kind.challenge,
    Kind.granted, Kind.denied, Kind.chain]

/-- A message begins with its kind. -/
theorem head_notMem {kind : UInt8} {body : List UInt8} (h : kind ∉ tlvKinds) :
    ∀ k ∈ (kind :: body).head?, k ∉ tlvKinds :=
  fun _ hk ↦ Option.some.inj hk ▸ h

/-! ### Messages of a device -/

/-- The kind is the first byte, and the body is the others. -/
theorem splitKind_eq_ok_iff {bytes body : List UInt8} {kind : UInt8} :
    splitKind bytes = .ok (kind, body) ↔ bytes = kind :: body := by
  rcases bytes with - | ⟨kind', body'⟩
  · exact iff_of_false Except.error_ne_ok (List.cons_ne_nil _ _).symm
  · rw [splitKind, Except.ok.injEq, Prod.mk.injEq, List.cons.injEq]

/-- A codec has one spelling if what it reads is what it would write. -/
theorem oneSpelling_recordsRequest :
    OneSpelling (fun p : UInt64 × UInt32 ↦ .ok (recordsRequest p.1 p.2)) decodeRecordsRequest := by
  intro p body h
  rw [← p.eta, decodeRecordsRequest_eq_ok_iff] at h
  exact congrArg Except.ok h.2.symm

/-- A body that is read is the one that is written for what was read. -/
theorem requestParts_of_decode {kind : UInt8} {body : List UInt8} {request : Request}
    (h : decodeRequestBody kind body = .ok request) (hkind : kind ∉ tlvKinds) :
    requestParts request = .ok (kind, body) := by
  unfold decodeRequestBody at h
  split at h
  case h_1 | h_2 | h_3 | h_4 | h_10 | h_18 => exact absurd (by decide) hkind
  case h_6 | h_12 | h_13 | h_20 | h_25 | h_27 | h_28 | h_29 | h_31 | h_32 | h_35 =>
    exact strict_opaqueBody.oneSpelling.tagged requestParts (fun _ ↦ rfl) h
  case h_7 | h_9 | h_15 | h_34 =>
    exact (strict_exact 16).oneSpelling.tagged requestParts (fun _ ↦ rfl) h
  case h_30 => exact (strict_exact 32).oneSpelling.tagged requestParts (fun _ ↦ rfl) h
  case h_19 => exact (strict_exact _).oneSpelling.tagged requestParts (fun _ ↦ rfl) h
  case h_17 | h_26 => exact strict_noBody.oneSpelling.tagged requestParts (fun _ ↦ rfl) h
  case h_5 => exact strict_collect.oneSpelling.tagged requestParts (fun _ ↦ rfl) h
  case h_8 => exact strict_watch.oneSpelling.tagged requestParts (fun _ ↦ rfl) h
  case h_11 => exact strict_register.oneSpelling.tagged requestParts (fun _ ↦ rfl) h
  case h_14 => exact strict_endorse.oneSpelling.tagged requestParts (fun _ ↦ rfl) h
  case h_16 => exact strict_watchAuthor.oneSpelling.tagged requestParts (fun _ ↦ rfl) h
  case h_21 | h_22 => exact strict_viewRequest.oneSpelling.tagged requestParts (fun _ ↦ rfl) h
  case h_23 => exact strict_lookupRequest.oneSpelling.tagged requestParts (fun _ ↦ rfl) h
  case h_24 => exact oneSpelling_recordsRequest.tagged requestParts (fun _ ↦ rfl) h
  case h_33 => exact strict_report.oneSpelling.tagged requestParts (fun _ ↦ rfl) h
  case h_36 => exact absurd h Except.error_ne_ok

/-! ### Notices -/

/-- The message is a notice of an event that announces no fingerprint, and has a byte other than zero in the
place of one. -/
def Masked (message : List UInt8) : Prop :=
  message.take 2 = [Kind.notice, noticeEvent] ∧ message[27]? = some 0 ∧
    message.drop 28 ≠ List.replicate 32 0

instance (message : List UInt8) : Decidable (Masked message) := inferInstanceAs (Decidable (_ ∧ _))

variable {seq : UInt64} {event : UInt8} {fileId : List.Vector UInt8 16} {has : Bool} {fpr : Digest}

/-- The presence of the fingerprint and its bytes stand at the end of an event. -/
theorem drop_eventBytes : (eventBytes seq event fileId has fpr).drop 25 = has.toUInt8 :: fpr.toList := by
  have hlen : (toLeBytes seq ++ (event :: fileId.toList)).length = 25 := by simp
  have happend : eventBytes seq event fileId has fpr =
      toLeBytes seq ++ (event :: fileId.toList) ++ (has.toUInt8 :: fpr.toList) := by
    rw [eventBytes, List.append_assoc, List.cons_append]
  rw [happend, List.drop_left' hlen]

/-- **An event is masked** if it says that there is no fingerprint, and has the bytes of one. -/
theorem masked_eventBytes :
    Masked (Kind.notice :: noticeEvent :: eventBytes seq event fileId has fpr) ↔
      has = false ∧ fpr.toList ≠ List.replicate 32 0 := by
  have hdrop : (Kind.notice :: noticeEvent :: eventBytes seq event fileId has fpr).drop 27 =
      has.toUInt8 :: fpr.toList :=
    show (eventBytes seq event fileId has fpr).drop 25 = has.toUInt8 :: fpr.toList from drop_eventBytes
  obtain ⟨hflag, hfpr⟩ := drop_eq_cons_iff.mp hdrop
  rw [Masked, hflag, hfpr]
  cases has <;> simp [Bool.toUInt8]

/-- What is written in the place of a fingerprint is what was there, unless that was not announced. -/
theorem fprBytes_eq_iff :
    fprBytes (if has then some fpr else none) = has.toUInt8 :: fpr.toList ↔
      ¬(has = false ∧ fpr.toList ≠ List.replicate 32 0) := by
  cases has with
  | false => simp [fprBytes, Bool.toUInt8, eq_comm]
  | true => simp [fprBytes, Bool.toUInt8]

/-- **A notice is written as it was read unless it is masked.** -/
theorem encodeNotice_eq_iff {body : List UInt8} {notice : Notice} (h : decodeNotice body = .ok notice) :
    encodeNotice notice = body ↔ ¬Masked (Kind.notice :: body) := by
  obtain ⟨⟨kind, rest⟩, hsplit, hrest⟩ := Except.bind_eq_ok_iff.mp h
  obtain rfl := splitKind_eq_ok_iff.mp hsplit
  simp only at hrest
  split at hrest
  case h_1 =>
    obtain ⟨u, hbody, rfl⟩ := Except.map_eq_ok_iff.mp hrest
    obtain rfl := noBody_eq_ok_iff.mp hbody
    exact iff_of_true rfl (by decide)
  case h_2 =>
    obtain ⟨seq, event, fileId, has, fpr, rfl, rfl⟩ := decodeEvent_eq_ok_iff.mp hrest
    refine Iff.trans ?_ (fprBytes_eq_iff.trans (not_congr masked_eventBytes.symm))
    rw [encodeNotice, eventBytes]
    simp [noticeEvent]
  case h_3 => exact absurd hrest Except.error_ne_ok

/-! ### Messages of the server -/

/-- The codecs of the answers that are handed on, or are one or two bytes. -/
theorem oneSpelling_raw :
    OneSpelling (fun bytes : List UInt8 ↦ (.ok bytes : Except FormatError (List UInt8)))
      (fun bytes ↦ .ok bytes) :=
  fun _ _ h ↦ congrArg Except.ok (Except.ok.inj h).symm

theorem oneSpelling_endorsed :
    OneSpelling (fun p : UInt8 × UInt8 ↦ .ok [p.1, p.2]) decodeEndorsed := by
  intro p body h
  unfold decodeEndorsed at h
  split at h
  · obtain rfl := Except.ok.inj h
    rfl
  · exact absurd h Except.error_ne_ok

theorem oneSpelling_attested : OneSpelling (fun basis ↦ .ok [basis]) decodeBasis := by
  intro basis body h
  unfold decodeBasis at h
  split at h
  · obtain rfl := Except.ok.inj h
    rfl
  · obtain rfl := Except.ok.inj h
    rfl
  · exact absurd h Except.error_ne_ok

theorem oneSpelling_lookup : OneSpelling Directory.Lookup.encode Directory.Lookup.decode :=
  fun _ _ h ↦ (Directory.Lookup.decode_eq_ok_iff.mp h).2

theorem oneSpelling_page (sha : Sha2) : OneSpelling Directory.encodePage (Directory.decodePage sha) :=
  fun _ _ h ↦ (Directory.decodePage_eq_ok_iff.mp h).2

/-- A body that is read is the one that is written for what was read, if it is not that of a notice. -/
theorem responseParts_of_decode {sha : Sha2} {kind : UInt8} {body : List UInt8} {response : Response}
    (h : decodeResponseBody sha kind body = .ok response) (hkind : kind ∉ tlvKinds)
    (hnotice : kind ≠ Kind.notice) : responseParts response = .ok (kind, body) := by
  unfold decodeResponseBody at h
  split at h
  case h_1 | h_3 | h_4 | h_25 => exact absurd (by decide) hkind
  case h_10 => exact absurd rfl hnotice
  case h_6 | h_11 | h_14 | h_21 | h_22 | h_23 | h_27 =>
    exact strict_opaqueBody.oneSpelling.tagged responseParts (fun _ ↦ rfl) h
  case h_2 | h_7 | h_8 | h_12 | h_24 | h_26 =>
    exact strict_noBody.oneSpelling.tagged responseParts (fun _ ↦ rfl) h
  case h_9 | h_30 => exact oneSpelling_raw.tagged responseParts (fun _ ↦ rfl) h
  case h_5 | h_28 => exact strict_exactLe.oneSpelling.tagged responseParts (fun _ ↦ rfl) h
  case h_13 => exact oneSpelling_endorsed.tagged responseParts (fun _ ↦ rfl) h
  case h_15 => exact (strict_exact _).oneSpelling.tagged responseParts (fun _ ↦ rfl) h
  case h_16 =>
    -- a credential is its own body
    obtain ⟨u, hcheck, rfl⟩ := Except.map_eq_ok_iff.mp h
    exact Except.map_eq_ok_iff.mpr ⟨u, hcheck, rfl⟩
  case h_17 => exact oneSpelling_attested.tagged responseParts (fun _ ↦ rfl) h
  case h_18 => exact strict_view.oneSpelling.tagged responseParts (fun _ ↦ rfl) h
  case h_19 => exact oneSpelling_lookup.tagged responseParts (fun _ ↦ rfl) h
  case h_20 => exact (oneSpelling_page sha).tagged responseParts (fun _ ↦ rfl) h
  case h_29 =>
    obtain ⟨why, hwhy, rfl⟩ := Except.map_eq_ok_iff.mp h
    obtain ⟨hcheck, rfl⟩ := decodeRefusal_eq_ok_iff.mp hwhy
    exact Except.map_eq_ok_iff.mpr ⟨(), hcheck, rfl⟩
  case h_31 => exact absurd h Except.error_ne_ok

/-- An answer is its kind and its body. -/
theorem encodeResponse_of_parts {response : Response} {kind : UInt8} {body : List UInt8}
    (h : responseParts response = .ok (kind, body)) : encodeResponse response = .ok (kind :: body) :=
  encodeResponse_eq_ok_iff.mpr ⟨kind, body, h, rfl⟩

/-- Of the messages of the server, a notice is the one that can be masked. -/
theorem encodeResponse_iff_of_decode {sha : Sha2} {kind : UInt8} {body : List UInt8} {response : Response}
    (h : decodeResponseBody sha kind body = .ok response) (hkind : kind ∉ tlvKinds) :
    encodeResponse response = .ok (kind :: body) ↔ ¬Masked (kind :: body) := by
  rcases eq_or_ne kind Kind.notice with rfl | hnotice
  · obtain ⟨notice, hread, rfl⟩ := Except.map_eq_ok_iff.mp (show (decodeNotice body).map _ = _ from h)
    rw [← encodeNotice_eq_iff hread]
    show Except.ok (Kind.notice :: encodeNotice notice) = Except.ok (Kind.notice :: body) ↔ _
    rw [Except.ok.injEq, List.cons_inj_right]
  · refine iff_of_true (encodeResponse_of_parts (responseParts_of_decode h hkind hnotice)) ?_
    rintro ⟨htake, -, -⟩
    rw [List.take_succ_cons, List.cons.injEq] at htake
    exact hnotice htake.1

/-! ### The law of the envelope -/

/-- **What is read is written as it came**, if its kind has no body over TLV: every message of a device, and
every message of the server but a masked notice. -/
theorem reencodeMessage_iff (sha : Sha2) :
    (∀ (message : List UInt8) (request : Request), decodeRequest message = .ok request →
      (∀ kind ∈ message.head?, kind ∉ tlvKinds) → encodeRequest request = .ok message) ∧
    ∀ (message : List UInt8) (response : Response), decodeResponse sha message = .ok response →
      (∀ kind ∈ message.head?, kind ∉ tlvKinds) →
        (encodeResponse response = .ok message ↔ ¬Masked message) := by
  refine ⟨fun message request h hkind ↦ ?_, fun message response h hkind ↦ ?_⟩
  · obtain ⟨⟨kind, body⟩, hsplit, hbody⟩ := Except.bind_eq_ok_iff.mp h
    obtain rfl := splitKind_eq_ok_iff.mp hsplit
    exact encodeRequest_eq_ok_iff.mpr ⟨kind, body, requestParts_of_decode hbody (hkind kind rfl), rfl⟩
  · obtain ⟨⟨kind, body⟩, hsplit, hbody⟩ := Except.bind_eq_ok_iff.mp h
    obtain rfl := splitKind_eq_ok_iff.mp hsplit
    exact encodeResponse_iff_of_decode hbody (hkind kind rfl)

/-- A notice of an event without a fingerprint, with a byte in the place of one. -/
def maskedNotice (byte : UInt8) : List UInt8 :=
  [18, 4, 1, 0, 0, 0, 0, 0, 0, 0, 7] ++ List.replicate 16 2 ++ [0] ++ List.replicate 31 0 ++ [byte]

/-- A question for the standing of a file, and a notice with zeros in the place of a fingerprint. -/
theorem reencodeMessage_iff_notice :
    (decodeRequest (27 :: List.replicate 16 9) = .ok (.standing (List.Vector.replicate 16 9)) ∧
      encodeRequest (.standing (List.Vector.replicate 16 9)) = .ok (27 :: List.replicate 16 9)) ∧
    decodeResponse Directory.constantSha (maskedNotice 0) =
        .ok (.notice (.event 1 7 (List.Vector.replicate 16 2) none)) ∧
      encodeResponse (.notice (.event 1 7 (List.Vector.replicate 16 2) none)) = .ok (maskedNotice 0) := by
  have hrequest : decodeRequest (27 :: List.replicate 16 9) =
      .ok (.standing (List.Vector.replicate 16 9)) := by decide +kernel
  have hresponse : decodeResponse Directory.constantSha (maskedNotice 0) =
      .ok (.notice (.event 1 7 (List.Vector.replicate 16 2) none)) := by decide +kernel
  exact ⟨⟨hrequest, (reencodeMessage_iff Directory.constantSha).1 _ _ hrequest (head_notMem (by decide))⟩,
    hresponse, ((reencodeMessage_iff Directory.constantSha).2 _ _ hresponse (head_notMem (by decide))).2
      (by decide +kernel)⟩

/-- A notice is read whose event announces no fingerprint, and is not written as it came. -/
theorem masked_notice_respelled :
    ¬∀ (sha : Sha2) (message : List UInt8) (response : Response),
      decodeResponse sha message = .ok response → (∀ kind ∈ message.head?, kind ∉ tlvKinds) →
        encodeResponse response = .ok message := by
  intro h
  have hread : decodeResponse Directory.constantSha (maskedNotice 1) =
      .ok (.notice (.event 1 7 (List.Vector.replicate 16 2) none)) := by decide +kernel
  have hwritten := h Directory.constantSha _ _ hread (head_notMem (by decide))
  exact absurd hwritten (by decide +kernel)

end OpenCrate.Protocol.Activation
