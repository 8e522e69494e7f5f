import OpenCrate.Crypto.Rsa
import OpenCrate.Format.Content
import OpenCrate.Format.Header

/-!
# Verification of edits

`edit` of `oc-format`: certificates of edit keys, the transcript an editor signs, the chain of saves,
and the verification of a revision. The editor signs the raw body of the mutable region without the
signature itself, so that the writer can compute the transcript of a draft: what is left of the body
does not depend on the signature (`bodyWithoutSignature_encodeBody`).
-/

namespace OpenCrate.Format

open Crypto
open Except (refuseIf okOr)

/-! ### Looking for a field -/

namespace TlvReader

/-- The first field with a tag. What follows it is not read. -/
def findField (tag : UInt16) (r : TlvReader) : Except FormatError (Option Field) :=
  match _h : r.nextField with
  | .error e => .error e
  | .ok none => .ok none
  | .ok (some (field, r')) => if field.tag = tag then .ok (some field) else findField tag r'
termination_by r.buf.length - r.pos
decreasing_by exact pos_lt_of_nextField _h

theorem findField_of_none {r : TlvReader} (h : r.nextField = .ok none) (tag : UInt16) :
    findField tag r = .ok none := by
  rw [findField]
  split
  · next h' => exact absurd (h.symm.trans h') (by simp)
  · rfl
  · next h' => exact absurd (h.symm.trans h') (by simp)

/-- One turn of the search. -/
theorem findField_of_some {r r' : TlvReader} {f : Field} (h : r.nextField = .ok (some (f, r')))
    (tag : UInt16) :
    findField tag r = if f.tag = tag then .ok (some f) else findField tag r' := by
  rw [findField]
  split
  · next h' => exact absurd (h.symm.trans h') (by simp)
  · next h' => exact absurd (h.symm.trans h') (by simp)
  · next h' =>
    obtain ⟨rfl, rfl⟩ := Prod.mk.inj (Option.some_inj.mp (Except.ok.inj (h.symm.trans h')))
    rfl

/-- The search over records from a position on. -/
theorem findField_at (tag : UInt16) (pre : List UInt8) {lastTag : Option UInt16}
    {records : List Record} (h : Increasing lastTag records) :
    findField tag ⟨pre ++ bytesOf records, pre.length, lastTag⟩ =
      .ok ((fieldsAt pre.length records).find? fun f ↦ f.tag = tag) := by
  induction records generalizing pre lastTag with
  | nil => exact findField_of_none (nextField_of_le (by simp)) tag
  | cons rec records ih =>
    obtain ⟨horder, hrest⟩ := increasing_cons.mp h
    have hlen : (pre ++ rec.bytes).length = pre.length + rec.bytes.length := List.length_append
    rw [bytesOf_cons, findField_of_some (nextField_bytes pre _ horder), fieldsAt, List.find?_cons]
    by_cases htag : (rec.fieldAt pre.length).tag = tag
    · simp [htag]
    · rw [if_neg htag, decide_eq_false htag, ← List.append_assoc, ← hlen,
        ih (pre ++ rec.bytes) hrest]

end TlvReader

/-- The search in a document is the search among its fields. -/
theorem Encodes.findField {bytes : List UInt8} {l : Contents} (h : Encodes bytes l)
    (tag : UInt16) :
    TlvReader.findField tag (TlvReader.new bytes) =
      .ok ((fieldsOf 0 l).find? fun f ↦ f.tag = tag) := by
  obtain ⟨records, hinc, rfl, rfl⟩ := h
  rw [← fieldsAt_eq_fieldsOf]
  exact TlvReader.findField_at tag [] hinc

/-! ### Certificates of edit keys -/

namespace CertTag

/-- Tag of the layout version. -/
def version : UInt16 := 1

/-- Tag of the file. -/
def fileId : UInt16 := 2

/-- Tag of the editing device. -/
def device : UInt16 := 3

/-- Tag of the edit key. -/
def editorKey : UInt16 := 4

/-- Tag of the expiry. -/
def notAfter : UInt16 := 5

/-- Tag of the issuer. -/
def issuer : UInt16 := 6

/-- Tag of the issuer's signature. -/
def signature : UInt16 := 7

end CertTag

/-- Certificate layout version. -/
def certVersion : UInt8 := 1

/-- Edit key certificate: the device has this edit key for the file until the expiry, signed by the
issuer. -/
structure EditorCert where
  fileId : List.Vector UInt8 16
  device : Digest
  editorKey : List.Vector UInt8 Rsa.modulusLen
  notAfter : Int64
  issuer : Digest
  signature : Signature
  deriving DecidableEq

/-- Edit rejection. -/
inductive EditError where
  | format (e : FormatError)
  | editorOnUnedited
  | unsignedEdit (version : UInt64)
  | versionTooOld (containerVersion : UInt16) (version : UInt64)
  | editNotAllowed
  | foreignIssuer
  | badCertificate
  | certificateForOtherFile
  | certificateExpired (notAfter : Int64)
  | badEditorSignature
  | counterExhausted
  deriving DecidableEq

namespace EditorCert

/-- Unsigned body: every tag but the last. -/
def signedBody (cert : EditorCert) : Except FormatError (List UInt8) := do
  let w ← TlvWriter.new.put CertTag.version [certVersion]
  let w ← w.put CertTag.fileId cert.fileId.toList
  let w ← w.put CertTag.device cert.device.toList
  let w ← w.put CertTag.editorKey cert.editorKey.toList
  let w ← w.put CertTag.notAfter (toLeBytes cert.notAfter)
  let w ← w.put CertTag.issuer cert.issuer.toList
  .ok w.finish

/-- What the issuer signs. -/
def transcript (signedBody : List UInt8) : Transcript :=
  (Transcript.new .editorCert).field signedBody

/-- Certificate bytes. -/
def encode (cert : EditorCert) : Except FormatError (List UInt8) := do
  let body ← cert.signedBody
  let w ← TlvWriter.new.put CertTag.signature cert.signature.toList
  .ok (body ++ w.finish)

/-- The certificate read so far, with the bytes that are signed. -/
structure Reading where
  version : Option UInt8 := none
  fileId : Option (List.Vector UInt8 16) := none
  device : Option Digest := none
  editorKey : Option (List.Vector UInt8 Rsa.modulusLen) := none
  notAfter : Option Int64 := none
  issuer : Option Digest := none
  signature : Option Signature := none
  signed : List UInt8 := []

/-- One field of the certificate, by the tags of `CertTag`. Every record but that of the signature is
signed as it stands, also one with an unknown tag. -/
def decodeStep (bytes : List UInt8) (acc : Reading) (field : Field) :
    Except FormatError Reading := do
  refuseIf (field.span.start < fieldPrefixLen) .offsetOverflow
  let record ← okOr (slice? bytes (field.span.start - fieldPrefixLen) field.span.stop)
    .offsetOverflow
  let signed := acc.signed ++ record
  match field.tag with
  | 7 => (field.array signatureLen).map fun v ↦ { acc with signature := some v }
  | 1 => field.u8.map fun v ↦ { acc with signed, version := some v }
  | 2 => (field.array 16).map fun v ↦ { acc with signed, fileId := some v }
  | 3 => (field.array 32).map fun v ↦ { acc with signed, device := some v }
  | 4 => (field.array Rsa.modulusLen).map fun v ↦ { acc with signed, editorKey := some v }
  | 5 => (field.le).map fun v ↦ { acc with signed, notAfter := some v }
  | 6 => (field.array 32).map fun v ↦ { acc with signed, issuer := some v }
  | other => skipUnknown other { acc with signed }

/-- Parse the certificate; the signed bytes come with it. -/
def decode (bytes : List UInt8) : Except FormatError (EditorCert × List UInt8) := do
  let acc ← TlvReader.foldFields (decodeStep bytes) (TlvReader.new bytes) {}
  let version ← okOr acc.version (.missingField CertTag.version)
  refuseIf (version ≠ certVersion) (.badFieldLength CertTag.version version.toNat)
  let fileId ← okOr acc.fileId (.missingField CertTag.fileId)
  let device ← okOr acc.device (.missingField CertTag.device)
  let editorKey ← okOr acc.editorKey (.missingField CertTag.editorKey)
  let notAfter ← okOr acc.notAfter (.missingField CertTag.notAfter)
  let issuer ← okOr acc.issuer (.missingField CertTag.issuer)
  let signature ← okOr acc.signature (.missingField CertTag.signature)
  .ok (⟨fileId, device, editorKey, notAfter, issuer, signature⟩, acc.signed)

/-- Whether a key is that of the author or of a coauthor. -/
def knownIssuer (header : Header) (issuer : Digest) : Prop :=
  issuer = header.authorKey ∨ ∃ c ∈ header.coauthors, issuer ∈ c.keys

instance decidableKnownIssuer (header : Header) (issuer : Digest) :
    Decidable (knownIssuer header issuer) :=
  inferInstanceAs (Decidable (_ ∨ ∃ c ∈ header.coauthors, issuer ∈ c.keys))

/-- Verify the certificate for the header, and its expiry if a time is given. -/
def verifyFor (ed : Ed25519) (bytes : List UInt8) (header : Header) (now : Option Int64) :
    Except EditError EditorCert := do
  let (cert, signed) ← (decode bytes).mapError .format
  -- the issuer first: a signature under a key from the certificate itself proves nothing
  refuseIf (¬knownIssuer header cert.issuer) .foreignIssuer
  (verify ed cert.issuer (transcript signed) cert.signature).mapError fun _ ↦ .badCertificate
  refuseIf (cert.fileId ≠ header.fileId) .certificateForOtherFile
  refuseIf (∃ t ∈ now, cert.notAfter < t) (.certificateExpired cert.notAfter)
  .ok cert

end EditorCert

/-! ### What the editor signs -/

/-- The body without the signature of the editor's record. -/
def bodyWithoutSignature (body : List UInt8) : Except FormatError (List UInt8) := do
  let field ← TlvReader.findField ContentTag.editor (TlvReader.new body)
  let field ← okOr field (.missingField ContentTag.editor)
  let sub ← TlvReader.findField EditorTag.signature (TlvReader.new field.value)
  let sub ← okOr sub (.missingField EditorTag.signature)
  let base := field.span.start
  refuseIf (base + sub.span.start < fieldPrefixLen) .offsetOverflow
  let cutStart := base + sub.span.start - fieldPrefixLen
  let cutEnd := base + sub.span.stop
  let before ← okOr (slice? body 0 cutStart) .offsetOverflow
  let after ← okOr (slice? body cutEnd body.length) .offsetOverflow
  .ok (before ++ after)

/-- Editor signature transcript. -/
def editorTranscript (coreHash : Digest) (body : List UInt8) : Except FormatError Transcript := do
  let cut ← bodyWithoutSignature body
  .ok (((Transcript.new .editorSig).fixed coreHash.toList).field cut)

section Hashes

variable (sha : Sha2)

/-- Revision digest. -/
def editionDigest (transcript : Transcript) : Digest := sha.sha256 transcript.asBytes

/-- Start of the session chain: the edit base. -/
def sessionStart (fileId : List.Vector UInt8 16) (baseCounter : UInt64) (baseRoot : Digest) :
    Digest :=
  sha.sha256 (((((Transcript.new .editSession).fixed fileId.toList).u64be baseCounter).fixed
    baseRoot.toList).asBytes)

/-- Session chain step: a save. -/
def sessionStep (prev : Digest) (save : UInt64) (root : Digest) (totalLen : UInt64) : Digest :=
  sha.sha256 ((((((Transcript.new .editSession).fixed prev.toList).u64be save).fixed
    root.toList).u64be totalLen).asBytes)

/-! ### Revisions -/

/-- Verified revision. -/
structure VerifiedEdition where
  counter : UInt64
  digest : Digest
  cert : EditorCert
  sessionHead : Digest
  deriving DecidableEq

/-- Verify the revision. Nothing is returned for an unedited file. -/
def verifyEdition (ed : Ed25519) (header : Header) (coreHash : Digest) (desc : ContentDesc)
    (body : List UInt8) (now : Option Int64) : Except EditError (Option VerifiedEdition) :=
  match desc.editor with
  | none =>
    if desc.versionCounter = 0 then .ok none
    else if header.containerVersion < firstEditingVersion then
      .error (.versionTooOld header.containerVersion desc.versionCounter)
    else .error (.unsignedEdit desc.versionCounter)
  | some editor => do
    refuseIf (desc.versionCounter = 0) .editorOnUnedited
    refuseIf (header.containerVersion < firstEditingVersion)
      (.versionTooOld header.containerVersion desc.versionCounter)
    refuseIf (header.policy.actions.get? .edit = none) .editNotAllowed
    let cert ← EditorCert.verifyFor ed editor.certifiedBy header now
    let transcript ← (editorTranscript coreHash body).mapError .format
    (Rsa.verifyPssSha256 sha cert.editorKey transcript.asBytes editor.signature).mapError fun _ ↦
      .badEditorSignature
    .ok (some ⟨desc.versionCounter, editionDigest sha transcript, cert, editor.sessionHead⟩)

end Hashes

/-- Draft editor signature: everything except the signature itself. -/
def unsignedEditor (sessionHead : Digest) (journalHead : Option JournalHead)
    (certifiedBy : List UInt8) : EditorSignature :=
  ⟨.rsaPssSha256, sessionHead, journalHead, certifiedBy, List.replicate Rsa.modulusLen 0⟩

/-- The counter following the base. -/
def nextCounter (base : UInt64) : Except EditError UInt64 :=
  okOr (base.checkedAdd 1) .counterExhausted

/-! ### The signature leaves no trace in what is signed -/

theorem encodeContents_singleton (tag : UInt16) (value : List UInt8) :
    encodeContents [(tag, value)] =
      toLeBytes tag ++ toLeBytes (UInt32.ofNat value.length) ++ value := by
  rw [encodeContents, List.flatMap_cons, List.flatMap_nil, List.append_nil]

namespace EditorSignature

/-- The tags and values of the record before the signature. -/
def unsignedContents (e : EditorSignature) : Contents :=
  [(1, [e.sigAlg.toU8]), (2, e.sessionHead.toList), (3, journalHeadValue e.journalHead),
    (4, e.certifiedBy)]

theorem contents_eq (e : EditorSignature) :
    e.contents = e.unsignedContents ++ [(5, e.signature)] := rfl

/-- What stays of the editor's record: its tag, its length, and the fields before the signature. -/
def unsignedBytes (e : EditorSignature) : List UInt8 :=
  toLeBytes ContentTag.editor ++
    toLeBytes (UInt32.ofNat (encodedLength e.unsignedContents + fieldPrefixLen + editorSignatureLen)) ++
    encodeContents e.unsignedContents

end EditorSignature

/-- **The signature is cut out.** What stays of a body that was written does not depend on it. -/
theorem bodyWithoutSignature_encodeBody {d : ContentDesc} {e : EditorSignature} {version : UInt16}
    {body : List UInt8} (hd : d.editor = some e) (h : d.encodeBody version = .ok body) :
    bodyWithoutSignature body = .ok (encodeContents d.commonContents ++ e.unsignedBytes) := by
  obtain ⟨-, editor, heditor, henc⟩ := ContentDesc.encodeBody_eq_ok_iff.mp h
  obtain ⟨record, hrecord, rfl⟩ : ∃ record, e.encode = .ok record ∧ some record = editor := by
    simpa [ContentDesc.editorBytes, hd, Except.map_eq_ok_iff] using heditor
  obtain ⟨hsignature, -, hinner⟩ := EditorSignature.encode_eq_ok_iff.mp hrecord
  -- where the record stands in the body, and the signature in the record
  have hfield : TlvReader.findField ContentTag.editor (TlvReader.new body) =
      .ok (some ⟨6, record, ⟨encodedLength d.commonContents + fieldPrefixLen,
        encodedLength d.commonContents + fieldPrefixLen + record.length⟩⟩) := by
    rw [henc.findField, ContentDesc.contents, fieldsOf_append, List.find?_append, Nat.zero_add]
    have hcommon : (fieldsOf 0 d.commonContents).find? (fun f ↦ f.tag = ContentTag.editor) =
        none := by
      rw [ContentDesc.commonContents]
      rcases d.footerOffset with - | offset <;> rfl
    rw [hcommon]
    rfl
  have hsub : TlvReader.findField EditorTag.signature (TlvReader.new record) =
      .ok (some ⟨5, e.signature, ⟨encodedLength e.unsignedContents + fieldPrefixLen,
        encodedLength e.unsignedContents + fieldPrefixLen + e.signature.length⟩⟩) := by
    rw [hinner.findField, EditorSignature.contents_eq, fieldsOf_append, List.find?_append,
      Nat.zero_add]
    rfl
  have hlen : record.length =
      encodedLength e.unsignedContents + fieldPrefixLen + editorSignatureLen := by
    rw [hinner.length_eq, EditorSignature.contents_eq, encodedLength_append, encodedLength_cons,
      encodedLength_nil, hsignature]
    omega
  -- the body is what stays, and then the record of the signature
  have hbody : body = (encodeContents d.commonContents ++ e.unsignedBytes) ++
      encodeContents [(5, e.signature)] := by
    rw [henc.eq_encodeContents, ContentDesc.contents, encodeContents_append, optField_some,
      encodeContents_singleton, EditorSignature.unsignedBytes, hlen, hinner.eq_encodeContents,
      EditorSignature.contents_eq, encodeContents_append]
    simp only [List.append_assoc]
    rfl
  have hkept : (encodeContents d.commonContents ++ e.unsignedBytes).length =
      encodedLength d.commonContents + fieldPrefixLen + encodedLength e.unsignedContents := by
    simp only [EditorSignature.unsignedBytes, List.length_append, length_encodeContents,
      length_toLeBytes]
    exact (Nat.add_assoc _ _ _).symm
  have hend : body.length = encodedLength d.commonContents + fieldPrefixLen +
      (encodedLength e.unsignedContents + fieldPrefixLen + e.signature.length) := by
    rw [hbody, List.length_append, hkept, length_encodeContents, encodedLength_cons,
      encodedLength_nil]
    omega
  have hbefore : slice? body 0 (encodedLength d.commonContents + fieldPrefixLen +
      (encodedLength e.unsignedContents + fieldPrefixLen) - fieldPrefixLen) =
        some (encodeContents d.commonContents ++ e.unsignedBytes) := by
    rw [hbody, ← Nat.add_assoc, Nat.add_sub_cancel, ← hkept]
    simpa using slice?_append [] (encodeContents d.commonContents ++ e.unsignedBytes)
      (encodeContents [(5, e.signature)])
  have hafter : slice? body body.length body.length = some [] := by
    simpa using slice?_append body [] []
  rw [bodyWithoutSignature, hfield]
  simp only [Except.ok_bind, Except.okOr_some, hsub]
  rw [Except.refuseIf_of_not (by omega), Except.ok_bind, hbefore, ← hend, hafter]
  simp

/-! ### What a verified revision is -/

section Verified

variable {sha : Sha2} {ed : Ed25519} {header : Header} {coreHash : Digest} {desc : ContentDesc}
  {body : List UInt8} {now : Option Int64}

/-- **What is accepted as an edit.** The counter has moved, the version of the file knows editing, the
author has allowed it, the certificate is valid for the file, and the editor has signed the body. -/
theorem verifyEdition_eq_ok_some_iff {v : VerifiedEdition} :
    verifyEdition sha ed header coreHash desc body now = .ok (some v) ↔
      desc.versionCounter ≠ 0 ∧ firstEditingVersion ≤ header.containerVersion ∧
        header.policy.actions.get? .edit ≠ none ∧
        ∃ editor cert transcript, desc.editor = some editor ∧
          EditorCert.verifyFor ed editor.certifiedBy header now = .ok cert ∧
          editorTranscript coreHash body = .ok transcript ∧
          Rsa.verifyPssSha256 sha cert.editorKey transcript.asBytes editor.signature = .ok () ∧
          v = ⟨desc.versionCounter, editionDigest sha transcript, cert, editor.sessionHead⟩ := by
  rw [verifyEdition]
  rcases desc.editor with - | editor
  · -- without an editor's record no edit is accepted
    split_ifs <;> simp
  · show (refuseIf _ _ >>= fun _ ↦ refuseIf _ _ >>= fun _ ↦ refuseIf _ _ >>= fun _ ↦ _) = _ ↔ _
    rw [Except.check_bind_eq_ok_iff, Except.check_bind_eq_ok_iff, Except.check_bind_eq_ok_iff,
      Except.refuseIf_eq_ok_iff, Except.refuseIf_eq_ok_iff, Except.refuseIf_eq_ok_iff, not_lt]
    refine and_congr_right fun _ ↦ and_congr_right fun _ ↦ and_congr_right fun _ ↦ ?_
    simp only [Except.bind_eq_ok_iff, Except.mapError_eq_ok_iff, Except.ok.injEq,
      Option.some.injEq]
    constructor
    · rintro ⟨cert, hcert, transcript, htranscript, ⟨⟩, hsigned, rfl⟩
      exact ⟨editor, cert, transcript, rfl, hcert, htranscript, hsigned, rfl⟩
    · rintro ⟨editor, cert, transcript, rfl, hcert, htranscript, hsigned, rfl⟩
      exact ⟨cert, hcert, transcript, htranscript, (), hsigned, rfl⟩

/-- **A file whose author has not allowed editing is refused once it is edited.** -/
theorem verifyEdition_of_not_allowed (heditor : desc.editor.isSome = true)
    (hcounter : desc.versionCounter ≠ 0)
    (hversion : firstEditingVersion ≤ header.containerVersion)
    (hdenied : header.policy.actions.get? .edit = none) :
    verifyEdition sha ed header coreHash desc body now = .error .editNotAllowed := by
  obtain ⟨editor, heditor⟩ := Option.isSome_iff_exists.mp heditor
  simp only [verifyEdition, heditor, Except.refuseIf_of_not hcounter,
    Except.refuseIf_of_not (not_lt.mpr hversion), Except.ok_bind]
  rw [hdenied]
  rfl

end Verified

/-- The counter of an edit goes up by one. -/
theorem nextCounter_eq_ok_iff {base counter : UInt64} :
    nextCounter base = .ok counter ↔ counter.toNat = base.toNat + 1 := by
  rw [nextCounter, Except.okOr_eq_ok_iff, UInt64.checkedAdd, UInt64.tryFrom_eq_some_iff]
  rfl

end OpenCrate.Format
