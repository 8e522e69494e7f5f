import OpenCrate.Crypto.Kdf
import OpenCrate.Format.Layout

/-!
# The mutable region

`content` of `oc-format`: the description of the content, which changes when the file is edited. It
is not signed by the author but authenticated by a code under a key derived from the content key,
and an edited file carries the signature of the editing device as a nested record.

The order of reading is bounds, then the code, then the body. The writer refuses most of what the
reader refuses, so that what it writes is read back (`decodeVerifiedWithBody_encode`); the signature
scheme of the editor is the one thing that only the reader looks at.
-/

namespace OpenCrate.Format

open Crypto
open Except (refuseIf okOr)

namespace ContentTag

/-- Tag of the plaintext length. -/
def totalLen : UInt16 := 1

/-- Tag of the number of chunks. -/
def chunkCount : UInt16 := 2

/-- Tag of the root of the integrity tree. -/
def treeRoot : UInt16 := 3

/-- Tag of the counter of edits. -/
def versionCounter : UInt16 := 4

/-- Tag of the footer offset. -/
def footerOffset : UInt16 := 5

/-- Tag of the editor's signature. -/
def editor : UInt16 := 6

end ContentTag

namespace EditorTag

/-- Tag of the signature scheme. -/
def sigAlg : UInt16 := 1

/-- Tag of the head of the chain of saves. -/
def sessionHead : UInt16 := 2

/-- Tag of the server journal's head. -/
def journalHead : UInt16 := 3

/-- Tag of the certificate of the signing key. -/
def certifiedBy : UInt16 := 4

/-- Tag of the signature. -/
def signature : UInt16 := 5

end EditorTag

/-- First format version supporting editor signatures. -/
def firstEditingVersion : UInt16 := 4

/-- Length of an editor's signature. -/
def editorSignatureLen : ℕ := 256

/-- Length of a journal head: its size and its root. -/
def journalHeadLen : ℕ := 40

/-- Upper bound on the certificate of the signing key. -/
def maxCertifiedByLen : ℕ := 8 * 1024

/-! ### The editor's signature -/

/-- The server journal head last seen by the signer. -/
structure JournalHead where
  size : UInt64
  root : Digest
  deriving DecidableEq

/-- Signature of the editing device and everything it attests. -/
structure EditorSignature where
  sigAlg : SigAlg
  sessionHead : Digest
  /-- A head that was not seen is written as an empty value. -/
  journalHead : Option JournalHead
  certifiedBy : List UInt8
  signature : List UInt8
  deriving DecidableEq

/-- The value of the field of the journal head. -/
def journalHeadValue (head : Option JournalHead) : List UInt8 :=
  match head with
  | some head => toLeBytes head.size ++ head.root.toList
  | none => []

namespace EditorSignature

/-- Record body. -/
def encode (e : EditorSignature) : Except FormatError (List UInt8) := do
  refuseIf (e.signature.length ≠ editorSignatureLen)
    (.badFieldLength EditorTag.signature e.signature.length)
  refuseIf (maxCertifiedByLen < e.certifiedBy.length)
    (.badFieldLength EditorTag.certifiedBy e.certifiedBy.length)
  let w ← TlvWriter.new.put EditorTag.sigAlg [e.sigAlg.toU8]
  let w ← w.put EditorTag.sessionHead e.sessionHead.toList
  let w ← w.put EditorTag.journalHead (journalHeadValue e.journalHead)
  let w ← w.put EditorTag.certifiedBy e.certifiedBy
  let w ← w.put EditorTag.signature e.signature
  .ok w.finish

/-- The journal head of a field. -/
def decodeJournalHead (field : Field) : Except FormatError (Option JournalHead) :=
  if field.value.length = 0 then .ok none
  else if field.value.length = journalHeadLen then do
    let bytes ← field.array journalHeadLen
    let size ← okOr (ofLeBytes? (bytes.toList.take 8)) (.badFieldLength field.tag journalHeadLen)
    let root ← okOr (toVector? 32 (bytes.toList.drop 8)) (.badFieldLength field.tag journalHeadLen)
    .ok (some ⟨size, root⟩)
  else .error (.badFieldLength field.tag field.value.length)

/-- The signature record read so far. -/
structure Reading where
  sigAlg : Option SigAlg := none
  sessionHead : Option Digest := none
  journalHead : Option (Option JournalHead) := none
  certifiedBy : Option (List UInt8) := none
  signature : Option (List UInt8) := none

/-- One field of the record, by the tags of `EditorTag`. Of the schemes that can be executed only
one is admitted here. -/
def decodeStep (acc : Reading) (field : Field) : Except FormatError Reading :=
  match field.tag with
  | 1 => do
    let value ← field.u8
    let parsed ← (SigAlg.fromU8 value).mapError fun _ ↦ .badFieldLength field.tag 1
    refuseIf (parsed ≠ .rsaPssSha256) (.badFieldLength field.tag 1)
    .ok { acc with sigAlg := some parsed }
  | 2 => do
    let head ← field.array 32
    .ok { acc with sessionHead := some head }
  | 3 => do
    let head ← decodeJournalHead field
    .ok { acc with journalHead := some head }
  | 4 => do
    refuseIf (maxCertifiedByLen < field.value.length) (.badFieldLength field.tag field.value.length)
    .ok { acc with certifiedBy := some field.value }
  | 5 => do
    refuseIf (field.value.length ≠ editorSignatureLen)
      (.badFieldLength field.tag field.value.length)
    .ok { acc with signature := some field.value }
  | other => skipUnknown other acc

/-- Parse the record body. -/
def decode (value : List UInt8) : Except FormatError EditorSignature := do
  let acc ← TlvReader.foldFields decodeStep (TlvReader.new value) {}
  let sigAlg ← okOr acc.sigAlg (.missingField EditorTag.sigAlg)
  let sessionHead ← okOr acc.sessionHead (.missingField EditorTag.sessionHead)
  let journalHead ← okOr acc.journalHead (.missingField EditorTag.journalHead)
  let certifiedBy ← okOr acc.certifiedBy (.missingField EditorTag.certifiedBy)
  let signature ← okOr acc.signature (.missingField EditorTag.signature)
  .ok ⟨sigAlg, sessionHead, journalHead, certifiedBy, signature⟩

end EditorSignature

/-! ### The description -/

/-- Upper bound on the mutable region. -/
def maxContentDescLen : UInt32 := 64 * 1024

/-- Length of the length prefix. -/
def lenPrefix : ℕ := 4

/-- Content description: what changes when the file is edited. -/
structure ContentDesc where
  totalLen : UInt64
  chunkCount : UInt32
  treeRoot : Digest
  versionCounter : UInt64
  footerOffset : Option UInt64
  editor : Option EditorSignature
  deriving DecidableEq

namespace ContentDesc

/-- Body: what the authentication code covers. -/
def encodeBody (d : ContentDesc) (version : UInt16) : Except FormatError (List UInt8) := do
  refuseIf (d.editor.isSome = true ∧ version < firstEditingVersion)
    (.unknownCriticalField ContentTag.editor)
  let w ← TlvWriter.new.put ContentTag.totalLen (toLeBytes d.totalLen)
  let w ← w.put ContentTag.chunkCount (toLeBytes d.chunkCount)
  let w ← w.put ContentTag.treeRoot d.treeRoot.toList
  let w ← w.put ContentTag.versionCounter (toLeBytes d.versionCounter)
  let w ← w.putOpt ContentTag.footerOffset (d.footerOffset.map toLeBytes)
  match d.editor with
  | some editor =>
    let bytes ← editor.encode
    let w ← w.put ContentTag.editor bytes
    .ok w.finish
  | none => .ok w.finish

/-- Body bytes. -/
def bodyBytes (d : ContentDesc) (version : UInt16) : Except FormatError (List UInt8) :=
  d.encodeBody version

/-- The description read so far. -/
structure Reading where
  totalLen : Option UInt64 := none
  chunkCount : Option UInt32 := none
  treeRoot : Option Digest := none
  versionCounter : Option UInt64 := none
  footerOffset : Option UInt64 := none
  editor : Option EditorSignature := none

/-- One field of the body, by the tags of `ContentTag`. Before its version the editor's tag is an
unknown one. -/
def decodeStep (version : UInt16) (acc : Reading) (field : Field) : Except FormatError Reading :=
  match field.tag with
  | 1 => field.u64.map fun v ↦ { acc with totalLen := some v }
  | 2 => field.u32.map fun v ↦ { acc with chunkCount := some v }
  | 3 => (field.array 32).map fun v ↦ { acc with treeRoot := some v }
  | 4 => field.u64.map fun v ↦ { acc with versionCounter := some v }
  | 5 => field.u64.map fun v ↦ { acc with footerOffset := some v }
  | 6 =>
    if firstEditingVersion ≤ version then
      (EditorSignature.decode field.value).map fun v ↦ { acc with editor := some v }
    else skipUnknown field.tag acc
  | other => skipUnknown other acc

/-- Parse the body. -/
def decodeBody (body : List UInt8) (version : UInt16) : Except FormatError ContentDesc := do
  let acc ← TlvReader.foldFields (decodeStep version) (TlvReader.new body) {}
  let totalLen ← okOr acc.totalLen (.missingField ContentTag.totalLen)
  let chunkCount ← okOr acc.chunkCount (.missingField ContentTag.chunkCount)
  let treeRoot ← okOr acc.treeRoot (.missingField ContentTag.treeRoot)
  let versionCounter ← okOr acc.versionCounter (.missingField ContentTag.versionCounter)
  refuseIf (chunkCount = 0) (.chunkCountMismatch 1 0)
  .ok ⟨totalLen, chunkCount, treeRoot, versionCounter, acc.footerOffset, acc.editor⟩

/-- Input of the authentication code: the file and the raw body bytes. -/
def macTranscript (fileId : List.Vector UInt8 16) (body : List UInt8) : Transcript :=
  ((Transcript.new .contentMac).fixed fileId.toList).field body

variable (sha : Sha2)

/-- Encode and authenticate: length, body and code. -/
def encode (d : ContentDesc) (key : MacKey) (fileId : List.Vector UInt8 16) (version : UInt16) :
    Except FormatError (List UInt8) := do
  refuseIf (d.chunkCount = 0) (.chunkCountMismatch 1 0)
  let body ← d.encodeBody version
  let bodyLen ← okOr (UInt32.tryFrom body.length) .offsetOverflow
  refuseIf (maxContentDescLen < bodyLen) (.contentDescTooLarge bodyLen)
  let tag ← (Mac.compute sha key (macTranscript fileId body)).mapError fun _ ↦ .badContentMac
  .ok (toLeBytes bodyLen ++ body ++ tag.toList)

/-- Parse and verify: the description, its authenticated body, and the number of bytes read. -/
def decodeVerifiedWithBody (bytes : List UInt8) (key : MacKey) (fileId : List.Vector UInt8 16)
    (version : UInt16) : Except FormatError (ContentDesc × List UInt8 × ℕ) := do
  let declared : UInt32 ← okOr ((slice? bytes 0 lenPrefix).bind ofLeBytes?)
    (.truncated lenPrefix bytes.length)
  refuseIf (maxContentDescLen < declared) (.contentDescTooLarge declared)
  let bodyEnd := lenPrefix + declared.toNat
  let read := bodyEnd + Mac.macLen
  let body ← okOr (slice? bytes lenPrefix bodyEnd) (.truncated read bytes.length)
  let tag ← okOr ((slice? bytes bodyEnd read).bind (toVector? 32)) (.truncated read bytes.length)
  -- the code is verified before the body is parsed
  (Mac.verify sha key (macTranscript fileId body) tag).mapError fun _ ↦ .badContentMac
  let desc ← decodeBody body version
  .ok (desc, body, read)

/-- The description and the number of bytes read. -/
def decodeVerified (bytes : List UInt8) (key : MacKey) (fileId : List.Vector UInt8 16)
    (version : UInt16) : Except FormatError (ContentDesc × ℕ) :=
  (decodeVerifiedWithBody sha bytes key fileId version).map fun r ↦ (r.1, r.2.2)

/-- Whether the description is consistent with the chunk size in the header. -/
def checkAgainstChunkSize (d : ContentDesc) (chunkSize : UInt32) : Except FormatError Unit :=
  (Layout.new chunkSize d.chunkCount d.totalLen 0).map fun _ ↦ ()

end ContentDesc

/-! ### The editor's signature, back and forth -/

namespace EditorSignature

/-- The tags and values of the record. -/
def contents (e : EditorSignature) : Contents :=
  [(1, [e.sigAlg.toU8]), (2, e.sessionHead.toList), (3, journalHeadValue e.journalHead),
    (4, e.certifiedBy), (5, e.signature)]

/-- **What the writer of the record does.** It checks two lengths, and not the scheme. -/
theorem encode_eq_ok_iff {e : EditorSignature} {bytes : List UInt8} :
    e.encode = .ok bytes ↔
      e.signature.length = editorSignatureLen ∧ e.certifiedBy.length ≤ maxCertifiedByLen ∧
        Encodes bytes e.contents := by
  have hwrite : e.encode = (do
      refuseIf (e.signature.length ≠ editorSignatureLen)
        (.badFieldLength EditorTag.signature e.signature.length)
      refuseIf (maxCertifiedByLen < e.certifiedBy.length)
        (.badFieldLength EditorTag.certifiedBy e.certifiedBy.length)
      TlvWriter.writeAll e.contents) := by
    simp only [encode, contents, TlvWriter.writeAll, TlvWriter.putMany_cons,
      TlvWriter.putMany_nil, bind_assoc, Except.ok_bind]
    rfl
  rw [hwrite, Except.check_bind_eq_ok_iff, Except.check_bind_eq_ok_iff,
    TlvWriter.writeAll_eq_ok_iff, Except.refuseIf_eq_ok_iff, Except.refuseIf_eq_ok_iff, not_not,
    not_lt]

/-- A journal head is read back, and so is its absence. -/
@[simp] theorem decodeJournalHead_value (head : Option JournalHead) (span : Span) :
    decodeJournalHead ⟨3, journalHeadValue head, span⟩ = .ok head := by
  rcases head with - | head
  · rfl
  · have hsize : (toLeBytes head.size).length = 8 := length_toLeBytes head.size
    have hlen : (toLeBytes head.size ++ head.root.toList).length = journalHeadLen := by
      rw [List.length_append, hsize, head.root.toList_length]
      rfl
    have harray : Field.array journalHeadLen ⟨3, toLeBytes head.size ++ head.root.toList, span⟩ =
        .ok ⟨toLeBytes head.size ++ head.root.toList, hlen⟩ :=
      Field.array_mk 3 ⟨toLeBytes head.size ++ head.root.toList, hlen⟩ span
    have hroot : toVector? 32 head.root.toList = some head.root := toVector?_eq_some_iff.mpr rfl
    have hnonempty : journalHeadLen ≠ 0 := by decide
    simp only [decodeJournalHead, journalHeadValue, hlen, hnonempty, if_false, if_true, harray]
    show (do
        let size ← okOr (ofLeBytes? ((toLeBytes head.size ++ head.root.toList).take 8))
          (.badFieldLength 3 journalHeadLen)
        let root ← okOr (toVector? 32 ((toLeBytes head.size ++ head.root.toList).drop 8))
          (.badFieldLength 3 journalHeadLen)
        .ok (some ⟨size, root⟩)) = Except.ok (ε := FormatError) (some head)
    rw [List.take_left' hsize, List.drop_left' hsize, ofLeBytes?_toLeBytes, hroot]
    rfl

/-- **The reader admits one scheme**, and reads back everything else. -/
theorem decode_contents_iff {e e' : EditorSignature} {bytes : List UInt8}
    (henc : Encodes bytes e.contents) (hsignature : e.signature.length = editorSignatureLen)
    (hcertified : e.certifiedBy.length ≤ maxCertifiedByLen) :
    decode bytes = .ok e' ↔ e.sigAlg = .rsaPssSha256 ∧ e' = e := by
  have hcert : ¬maxCertifiedByLen < e.certifiedBy.length := not_lt.mpr hcertified
  have hsig : ¬e.signature.length ≠ editorSignatureLen := not_not.mpr hsignature
  rw [decode, henc.foldFields]
  rcases halg : e.sigAlg with - | -
  · -- the other scheme is refused at the first field
    have hfold : (fieldsOf 0 e.contents).foldlM decodeStep {} =
        .error (.badFieldLength 1 1) := by
      rw [contents, halg, fieldsOf, List.foldlM_cons]
      rfl
    simp [hfold]
  · have hfold : (fieldsOf 0 e.contents).foldlM decodeStep {} =
        .ok ⟨some .rsaPssSha256, some e.sessionHead, some e.journalHead, some e.certifiedBy,
          some e.signature⟩ := by
      simp only [contents, halg, fieldsOf, List.foldlM_cons, decodeStep, Field.u8_mk,
        Field.array_mk, decodeJournalHead_value, Except.ok_bind, Except.refuseIf_of_not hcert,
        Except.refuseIf_of_not hsig]
      rfl
    simp only [hfold, Except.ok_bind, Except.okOr_some, Except.ok.injEq, true_and, ← halg]
    exact eq_comm

end EditorSignature

/-! ### The description, back and forth -/

namespace ContentDesc

/-- The bytes of the editor's record, if there is one. -/
def editorBytes (d : ContentDesc) : Except FormatError (Option (List UInt8)) :=
  match d.editor with
  | some editor => editor.encode.map some
  | none => .ok none

/-- The tags and values of the body before the editor's record. -/
def commonContents (d : ContentDesc) : Contents :=
  [(1, toLeBytes d.totalLen), (2, toLeBytes d.chunkCount), (3, d.treeRoot.toList),
    (4, toLeBytes d.versionCounter)] ++ optField 5 (d.footerOffset.map toLeBytes)

/-- The tags and values of the body, given the editor's record. -/
def contents (d : ContentDesc) (editor : Option (List UInt8)) : Contents :=
  d.commonContents ++ optField 6 editor

/-- **What the writer of the body does.** -/
theorem encodeBody_eq_ok_iff {d : ContentDesc} {version : UInt16} {body : List UInt8} :
    d.encodeBody version = .ok body ↔
      (d.editor.isSome = true → firstEditingVersion ≤ version) ∧
        ∃ editor, d.editorBytes = .ok editor ∧ Encodes body (d.contents editor) := by
  have hwrite : d.encodeBody version = (do
      refuseIf (d.editor.isSome = true ∧ version < firstEditingVersion)
        (.unknownCriticalField ContentTag.editor)
      let w ← TlvWriter.new.putMany d.commonContents
      let editor ← d.editorBytes
      let w ← w.putMany (optField 6 editor)
      .ok w.finish) := by
    simp only [encodeBody, commonContents, TlvWriter.putMany_append, TlvWriter.putMany_cons,
      TlvWriter.putMany_nil, TlvWriter.putOpt_eq_putMany, bind_assoc, Except.ok_bind, editorBytes]
    rcases d.editor with - | e
    · rfl
    · simp only [Except.map_bind, optField_some, TlvWriter.putMany_cons, TlvWriter.putMany_nil,
        bind_assoc, Except.ok_bind]
      rfl
  -- the record of the editor comes last
  have hjoin : ∀ editor, (∃ w, TlvWriter.new.putMany d.commonContents = .ok w ∧
      ∃ w', w.putMany (optField 6 editor) = .ok w' ∧ w'.finish = body) ↔
        Encodes body (d.contents editor) := by
    intro editor
    rw [← TlvWriter.writeAll_eq_ok_iff, TlvWriter.writeAll, contents, TlvWriter.putMany_append]
    simp only [Except.bind_eq_ok_iff, Except.ok.injEq]
    constructor
    · rintro ⟨w, hw, w', hw', hfinish⟩
      exact ⟨w', ⟨w, hw, hw'⟩, hfinish⟩
    · rintro ⟨w', ⟨w, hw, hw'⟩, hfinish⟩
      exact ⟨w, hw, w', hw', hfinish⟩
  rw [hwrite, Except.check_bind_eq_ok_iff, Except.refuseIf_eq_ok_iff, not_and, not_lt]
  refine and_congr_right fun _ ↦ ?_
  simp only [Except.bind_eq_ok_iff, Except.ok.injEq, ← hjoin]
  constructor
  · rintro ⟨w, hw, editor, heditor, hrest⟩
    exact ⟨editor, heditor, w, hw, hrest⟩
  · rintro ⟨editor, heditor, w, hw, hrest⟩
    exact ⟨w, hw, editor, heditor, hrest⟩

/-- The editor's scheme is the one that is read. -/
def EditorReadable (d : ContentDesc) : Prop := ∀ e, d.editor = some e → e.sigAlg = .rsaPssSha256

/-- **The body is read back exactly when the editor's scheme is the one that is read.** -/
theorem decodeBody_encodeBody_iff {d d' : ContentDesc} {version : UInt16} {body : List UInt8}
    (h : d.encodeBody version = .ok body) (hcount : d.chunkCount ≠ 0) :
    decodeBody body version = .ok d' ↔ d.EditorReadable ∧ d' = d := by
  obtain ⟨hversion, editor, heditor, henc⟩ := encodeBody_eq_ok_iff.mp h
  -- the fields before the editor's record
  have hcommon : (fieldsOf 0 d.commonContents).foldlM (decodeStep version) {} =
      .ok ⟨some d.totalLen, some d.chunkCount, some d.treeRoot, some d.versionCounter,
        d.footerOffset, none⟩ := by
    rw [commonContents]
    rcases d.footerOffset with - | offset
    · simp only [fieldsOf, Option.map_none, optField_none, List.append_nil, List.foldlM_cons,
        decodeStep, Field.u64_mk, Field.u32_mk, Field.array_mk, Except.ok_map, Except.ok_bind]
      rfl
    · simp only [fieldsOf, Option.map_some, optField_some, List.cons_append, List.nil_append,
        List.foldlM_cons, decodeStep, Field.u64_mk, Field.u32_mk, Field.array_mk, Except.ok_map,
        Except.ok_bind]
      rfl
  have hfold : (fieldsOf 0 (d.contents editor)).foldlM (decodeStep version) {} =
      (fieldsOf (encodedLength d.commonContents) (optField 6 editor)).foldlM (decodeStep version)
        ⟨some d.totalLen, some d.chunkCount, some d.treeRoot, some d.versionCounter,
          d.footerOffset, none⟩ := by
    rw [contents, fieldsOf_append, List.foldlM_append, hcommon, Nat.zero_add]
    rfl
  rw [decodeBody, henc.foldFields, hfold]
  rcases hd : d.editor with - | e
  · have hnone : editor = none := by
      simpa [editorBytes, hd] using heditor.symm
    have hreadable : d.EditorReadable := fun e he ↦ by simp [hd] at he
    simp only [hnone, optField_none, fieldsOf, Except.foldlM_nil, Except.ok_bind,
      Except.okOr_some, Except.refuseIf_of_not hcount, ← hd, Except.ok.injEq, hreadable, true_and]
    exact eq_comm
  · obtain ⟨bytes, hbytes, rfl⟩ : ∃ bytes, e.encode = .ok bytes ∧ some bytes = editor := by
      simpa [editorBytes, hd, Except.map_eq_ok_iff] using heditor
    obtain ⟨hsignature, hcertified, hrecord⟩ := EditorSignature.encode_eq_ok_iff.mp hbytes
    have hediting : firstEditingVersion ≤ version := hversion (by rw [hd]; rfl)
    have hreadable : d.EditorReadable ↔ e.sigAlg = .rsaPssSha256 := by
      simp [EditorReadable, hd]
    have hlast : ∀ acc : Reading, (fieldsOf (encodedLength d.commonContents)
        (optField 6 (some bytes))).foldlM (decodeStep version) acc =
          (EditorSignature.decode bytes).map fun e' ↦ { acc with editor := some e' } := by
      intro acc
      rw [optField_some, fieldsOf, List.foldlM_cons, decodeStep, if_pos hediting]
      rcases EditorSignature.decode bytes with - | e' <;> rfl
    rw [hlast, Except.map_bind, Except.bind_eq_ok_iff]
    simp only [EditorSignature.decode_contents_iff hrecord hsignature hcertified,
      Except.ok_bind, Except.okOr_some, Except.refuseIf_of_not hcount, Except.ok.injEq]
    rw [hreadable]
    constructor
    · rintro ⟨e', ⟨halg, rfl⟩, rfl⟩
      exact ⟨halg, by rw [← hd]⟩
    · rintro ⟨halg, rfl⟩
      exact ⟨e, ⟨halg, rfl⟩, by rw [← hd]⟩

variable {sha : Sha2} {d : ContentDesc} {key : MacKey} {fileId : List.Vector UInt8 16}
  {version : UInt16} {bytes : List UInt8}

/-- **What the writer of the region does.** -/
theorem encode_eq_ok_iff :
    d.encode sha key fileId version = .ok bytes ↔
      d.chunkCount ≠ 0 ∧ ∃ body bodyLen tag, d.encodeBody version = .ok body ∧
        bodyLen.toNat = body.length ∧ bodyLen ≤ maxContentDescLen ∧
        Mac.compute sha key (macTranscript fileId body) = .ok tag ∧
        bytes = toLeBytes bodyLen ++ body ++ tag.toList := by
  rw [encode, Except.check_bind_eq_ok_iff, Except.refuseIf_eq_ok_iff]
  refine and_congr_right fun _ ↦ ?_
  simp only [Except.bind_eq_ok_iff, Except.okOr_eq_ok_iff, UInt32.tryFrom_eq_some_iff,
    Except.refuseIf_eq_ok_iff, Except.mapError_eq_ok_iff, not_lt, Except.ok.injEq]
  constructor
  · rintro ⟨body, hbody, bodyLen, hlen, -, hmax, tag, htag, rfl⟩
    exact ⟨body, bodyLen, tag, hbody, hlen, hmax, htag, rfl⟩
  · rintro ⟨body, bodyLen, tag, hbody, hlen, hmax, htag, rfl⟩
    exact ⟨body, hbody, bodyLen, hlen, (), hmax, tag, htag, rfl⟩

/-- **The parts of a region are found by their lengths**, whatever follows it: what is left to the
reader is the body. -/
theorem decodeVerifiedWithBody_region {body rest : List UInt8} {bodyLen : UInt32} {tag : Digest}
    (hlen : bodyLen.toNat = body.length) (hmax : bodyLen ≤ maxContentDescLen)
    (htag : Mac.compute sha key (macTranscript fileId body) = .ok tag) :
    decodeVerifiedWithBody sha (toLeBytes bodyLen ++ body ++ tag.toList ++ rest) key fileId version =
      (decodeBody body version).map fun d ↦
        (d, body, (toLeBytes bodyLen ++ body ++ tag.toList).length) := by
  have hlenBytes : (toLeBytes bodyLen).length = lenPrefix := length_toLeBytes bodyLen
  have htagLen : tag.toList.length = Mac.macLen := tag.toList_length
  have hlenAt : slice? (toLeBytes bodyLen ++ body ++ tag.toList ++ rest) 0 lenPrefix =
      some (toLeBytes bodyLen) := by
    simpa [hlenBytes] using slice?_append [] (toLeBytes bodyLen) (body ++ (tag.toList ++ rest))
  have hbodyAt : slice? (toLeBytes bodyLen ++ body ++ tag.toList ++ rest) lenPrefix
      (lenPrefix + bodyLen.toNat) = some body := by
    simpa [hlenBytes, hlen] using slice?_append (toLeBytes bodyLen) body (tag.toList ++ rest)
  have htagAt : slice? (toLeBytes bodyLen ++ body ++ tag.toList ++ rest)
      (lenPrefix + bodyLen.toNat) (lenPrefix + bodyLen.toNat + Mac.macLen) = some tag.toList := by
    simpa [hlenBytes, hlen, htagLen] using
      slice?_append (toLeBytes bodyLen ++ body) tag.toList rest
  have hvector : toVector? 32 tag.toList = some tag := toVector?_eq_some_iff.mpr rfl
  have hverify : Mac.verify sha key (macTranscript fileId body) tag = .ok () :=
    (Mac.verify_eq_ok_iff sha).mpr htag
  have hread : (toLeBytes bodyLen ++ body ++ tag.toList).length =
      lenPrefix + bodyLen.toNat + Mac.macLen := by
    rw [List.length_append, List.length_append, hlenBytes, htagLen, hlen]
  rw [decodeVerifiedWithBody, hlenAt, Option.bind_some, ofLeBytes?_toLeBytes, hread]
  simp only [Except.okOr_some, Except.ok_bind, Except.refuseIf_of_not (not_lt.mpr hmax), hbodyAt,
    htagAt, Option.bind_some, hvector, hverify]
  rcases decodeBody body version with - | d <;> rfl

/-- A region that was written is read back, if the editor's scheme is the one that is read. -/
theorem decodeVerifiedWithBody_encode_iff (h : d.encode sha key fileId version = .ok bytes)
    (rest : List UInt8) :
    (∃ body, d.bodyBytes version = .ok body ∧
      decodeVerifiedWithBody sha (bytes ++ rest) key fileId version =
        .ok (d, body, bytes.length)) ↔ d.EditorReadable := by
  obtain ⟨hcount, body, bodyLen, tag, hbody, hlen, hmax, htag, rfl⟩ := encode_eq_ok_iff.mp h
  have hread : ∀ d', decodeBody body version = .ok d' ↔ d.EditorReadable ∧ d' = d :=
    fun _ ↦ decodeBody_encodeBody_iff hbody hcount
  rw [decodeVerifiedWithBody_region hlen hmax htag]
  constructor
  · rintro ⟨body', -, hdecode⟩
    obtain ⟨d', hd', -⟩ := Except.map_eq_ok_iff.mp hdecode
    exact ((hread d').mp hd').1
  · intro hreadable
    refine ⟨body, hbody, ?_⟩
    rw [(hread d).mpr ⟨hreadable, rfl⟩]
    rfl

/-- **What the writer of the mutable region produces is read back, whatever follows it, exactly when
the editor's scheme is the one the reader admits.** -/
theorem region_read_back_iff (h : d.encode sha key fileId version = .ok bytes) :
    (∀ rest, ∃ body, d.bodyBytes version = .ok body ∧
      decodeVerifiedWithBody sha (bytes ++ rest) key fileId version =
        .ok (d, body, bytes.length)) ↔ d.EditorReadable := by
  constructor
  · intro hall
    exact (decodeVerifiedWithBody_encode_iff h []).mp (hall [])
  · intro hreadable rest
    exact (decodeVerifiedWithBody_encode_iff h rest).mpr hreadable

/-- The description of an empty edited file, whose editor signed with the scheme. -/
def emptyEdited (alg : SigAlg) : ContentDesc where
  totalLen := 0
  chunkCount := 1
  treeRoot := List.Vector.replicate 32 0
  versionCounter := 1
  footerOffset := none
  editor := some ⟨alg, List.Vector.replicate 32 0, none, [], List.replicate 256 0⟩

/-- Functions with one authentication code. -/
def shaOfCode (code : Digest) : Sha2 :=
  ⟨fun _ ↦ code, fun _ _ ↦ code, fun _ _ _ n ↦ List.Vector.replicate n 0⟩

/-- HMAC-SHA256 of the description under the zero key, for the scheme that is read. -/
def rsaEditedCode : Digest :=
  ⟨[0x29, 0xf6, 0x3f, 0xef, 0x08, 0xb2, 0xf1, 0xcb, 0xc0, 0xf7, 0xab, 0xac, 0x19, 0x1e, 0xe0, 0x3c,
    0x5a, 0x6e, 0xea, 0xae, 0xce, 0xd4, 0x74, 0x5c, 0xe9, 0xff, 0xc6, 0xb7, 0xb7, 0xe6, 0x9e, 0x7b],
    rfl⟩

/-- HMAC-SHA256 of the description under the zero key, for the other scheme. -/
def ed25519EditedCode : Digest :=
  ⟨[0x42, 0x49, 0x11, 0x56, 0xfd, 0x0b, 0x33, 0x27, 0x31, 0x91, 0xaa, 0xd1, 0x59, 0xe4, 0x45, 0x87,
    0x12, 0xa6, 0x92, 0xc1, 0x37, 0x19, 0x77, 0xc8, 0xb8, 0x11, 0x42, 0x07, 0x65, 0xa4, 0x9f, 0x89],
    rfl⟩

/-- A region whose editor signed with the scheme that is read. -/
theorem region_read_back_rsa :
    ∃ bytes, (emptyEdited .rsaPssSha256).encode (shaOfCode rsaEditedCode)
        ⟨List.Vector.replicate 32 0⟩ (List.Vector.replicate 16 0) 4 = .ok bytes ∧
      ∀ rest, ∃ body, (emptyEdited .rsaPssSha256).bodyBytes 4 = .ok body ∧
        decodeVerifiedWithBody (shaOfCode rsaEditedCode) (bytes ++ rest)
          ⟨List.Vector.replicate 32 0⟩ (List.Vector.replicate 16 0) 4 =
            .ok (emptyEdited .rsaPssSha256, body, bytes.length) := by
  have hencode : ((emptyEdited .rsaPssSha256).encode (shaOfCode rsaEditedCode)
      ⟨List.Vector.replicate 32 0⟩ (List.Vector.replicate 16 0) 4).map List.length = .ok 437 := by
    decide +kernel
  obtain ⟨bytes, hbytes, -⟩ := Except.map_eq_ok_iff.mp hencode
  refine ⟨bytes, hbytes, (region_read_back_iff hbytes).mpr ?_⟩
  intro e he
  obtain rfl := Option.some_inj.mp he
  rfl

/-- **The other scheme is written and not read.** -/
theorem region_of_ed25519_refused :
    ∃ bytes, (emptyEdited .ed25519).encode (shaOfCode ed25519EditedCode)
        ⟨List.Vector.replicate 32 0⟩ (List.Vector.replicate 16 0) 4 = .ok bytes ∧
      decodeVerifiedWithBody (shaOfCode ed25519EditedCode) bytes
        ⟨List.Vector.replicate 32 0⟩ (List.Vector.replicate 16 0) 4 =
          .error (.badFieldLength EditorTag.sigAlg 1) := by
  have hrefused : ((emptyEdited .ed25519).encode (shaOfCode ed25519EditedCode)
      ⟨List.Vector.replicate 32 0⟩ (List.Vector.replicate 16 0) 4).map (fun bytes ↦
        decodeVerifiedWithBody (shaOfCode ed25519EditedCode) bytes
          ⟨List.Vector.replicate 32 0⟩ (List.Vector.replicate 16 0) 4) =
        .ok (.error (.badFieldLength EditorTag.sigAlg 1)) := by
    decide +kernel
  exact Except.map_eq_ok_iff.mp hrefused

end ContentDesc

end OpenCrate.Format
