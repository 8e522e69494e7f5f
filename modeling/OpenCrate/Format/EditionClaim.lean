import OpenCrate.Engine.Edit
import OpenCrate.Format.TlvRecord

/-!
# Claims of editions

`EditionClaimDoc` of `oc-format`: an editor registers a revision at the server. What is signed is written
anew from the fields that were read, so it covers the bytes of the claim only if they are the ones that are
written: a claim is accepted with fields of optional tags, which are not signed, and without them it is the
written one (`encode_iff_of_verify`).
-/

namespace OpenCrate.Format

open Crypto Engine.Edit
open Except (refuseIf okOr)

namespace ClaimTag

/-- Tag of the file. -/
def fileId : UInt16 := 1

/-- Tag of the number of the revision. -/
def counter : UInt16 := 2

/-- Tag of the digest of the base. -/
def baseDigest : UInt16 := 3

/-- Tag of the digest of the revision. -/
def digest : UInt16 := 4

/-- Tag of the head of the session. -/
def sessionHead : UInt16 := 5

/-- Tag of the certificate. -/
def certifiedBy : UInt16 := 6

/-- Tag of the time of signing. -/
def at_ : UInt16 := 7

/-- Tag of the signature. -/
def signature : UInt16 := 8

end ClaimTag

/-- Revision submission to the server: the base produced the revision with this number and this digest,
signed with the certificate's edit key. -/
structure EditionClaimDoc where
  fileId : List.Vector UInt8 16
  counter : UInt64
  /-- Zeros for an unedited file. -/
  baseDigest : Digest
  digest : Digest
  sessionHead : Digest
  certifiedBy : List UInt8
  /-- Signing time, for freshness as with orders. -/
  at_ : Int64
  deriving DecidableEq

namespace EditionClaimDoc

/-- Every field but the signature. -/
def body (doc : EditionClaimDoc) : Except FormatError (List UInt8) := do
  let w ← TlvWriter.new.put ClaimTag.fileId doc.fileId.toList
  let w ← w.put ClaimTag.counter (toLeBytes doc.counter)
  let w ← w.put ClaimTag.baseDigest doc.baseDigest.toList
  let w ← w.put ClaimTag.digest doc.digest.toList
  let w ← w.put ClaimTag.sessionHead doc.sessionHead.toList
  let w ← w.put ClaimTag.certifiedBy doc.certifiedBy
  let w ← w.put ClaimTag.at_ (toLeBytes doc.at_)
  .ok w.finish

/-- Transcript to sign with the edit key. -/
def transcript (doc : EditionClaimDoc) : Except FormatError Transcript := do
  let body ← doc.body
  .ok ((Transcript.new .editionClaim).field body)

/-- Submission bytes including the signature. -/
def encode (doc : EditionClaimDoc) (signature : List.Vector UInt8 Rsa.modulusLen) :
    Except FormatError (List UInt8) := do
  let body ← doc.body
  let w ← TlvWriter.new.put ClaimTag.signature signature.toList
  .ok (body ++ w.finish)

/-- The submission read so far. -/
structure Reading where
  fileId : Option (List.Vector UInt8 16) := none
  counter : Option UInt64 := none
  baseDigest : Option Digest := none
  digest : Option Digest := none
  sessionHead : Option Digest := none
  certifiedBy : Option (List UInt8) := none
  at_ : Option Int64 := none
  signature : Option (List.Vector UInt8 Rsa.modulusLen) := none

/-- The certificate, of a bounded length. -/
def certifiedByField (field : Field) : Except FormatError (List UInt8) := do
  refuseIf (maxCertifiedByLen < field.value.length) (.badFieldLength field.tag field.value.length)
  .ok field.value

/-- One field of the submission, by the tags of `ClaimTag`. -/
def decodeStep (acc : Reading) (field : Field) : Except FormatError Reading :=
  match field.tag with
  | 1 => (field.array 16).map fun v ↦ { acc with fileId := some v }
  | 2 => field.u64.map fun v ↦ { acc with counter := some v }
  | 3 => (field.array 32).map fun v ↦ { acc with baseDigest := some v }
  | 4 => (field.array 32).map fun v ↦ { acc with digest := some v }
  | 5 => (field.array 32).map fun v ↦ { acc with sessionHead := some v }
  | 6 => (certifiedByField field).map fun v ↦ { acc with certifiedBy := some v }
  | 7 => (field.le).map fun v ↦ { acc with at_ := some v }
  | 8 => (field.array Rsa.modulusLen).map fun v ↦ { acc with signature := some v }
  | other => skipUnknown other acc

/-- What has been read as a submission, with the signature it carries. -/
def Reading.doc (acc : Reading) : Except FormatError (EditionClaimDoc × List.Vector UInt8 Rsa.modulusLen) := do
  let fileId ← okOr acc.fileId (.missingField ClaimTag.fileId)
  let counter ← okOr acc.counter (.missingField ClaimTag.counter)
  let baseDigest ← okOr acc.baseDigest (.missingField ClaimTag.baseDigest)
  let digest ← okOr acc.digest (.missingField ClaimTag.digest)
  let sessionHead ← okOr acc.sessionHead (.missingField ClaimTag.sessionHead)
  let certifiedBy ← okOr acc.certifiedBy (.missingField ClaimTag.certifiedBy)
  let at_ ← okOr acc.at_ (.missingField ClaimTag.at_)
  let signature ← okOr acc.signature (.missingField ClaimTag.signature)
  .ok (⟨fileId, counter, baseDigest, digest, sessionHead, certifiedBy, at_⟩, signature)

/-- Parse the submission, and the signature it carries. -/
def parse (bytes : List UInt8) : Except FormatError (EditionClaimDoc × List.Vector UInt8 Rsa.modulusLen) := do
  let acc ← TlvReader.foldFields decodeStep (TlvReader.new bytes) {}
  acc.doc

/-- Parse and verify the submission: the certificate, issued by the author or by a coauthor, its expiry, and
the signature of the edit key. -/
def verify (sha : Sha2) (ed : Ed25519) (bytes : List UInt8) (author : Digest) (coauthors : List Digest)
    (now : Int64) : Except EditError (EditionClaimDoc × EditorCert) := do
  let (doc, signature) ← (parse bytes).mapError .format
  refuseIf (doc.counter = 0) (.unsignedEdit 0)
  let (cert, signed) ← (EditorCert.decode doc.certifiedBy).mapError .format
  refuseIf (cert.issuer ≠ author ∧ cert.issuer ∉ coauthors) .foreignIssuer
  (Crypto.verify ed cert.issuer (EditorCert.transcript signed) cert.signature).mapError fun _ ↦
    .badCertificate
  refuseIf (cert.fileId ≠ doc.fileId) .certificateForOtherFile
  refuseIf (cert.notAfter < now) (.certificateExpired cert.notAfter)
  let transcript ← doc.transcript.mapError .format
  (Rsa.verifyPssSha256 sha cert.editorKey transcript.asBytes signature.toList).mapError fun _ ↦
    .badEditorSignature
  .ok (doc, cert)

/-! ### What is written -/

/-- The tags of a submission. -/
def tags : List UInt16 := [1, 2, 3, 4, 5, 6, 7, 8]

/-- The tags and values of a submission without its signature. -/
def unsignedContents (doc : EditionClaimDoc) : Contents :=
  [(1, doc.fileId.toList), (2, toLeBytes doc.counter), (3, doc.baseDigest.toList), (4, doc.digest.toList),
    (5, doc.sessionHead.toList), (6, doc.certifiedBy), (7, toLeBytes doc.at_)]

/-- The tags and values of a submission. -/
def contents (doc : EditionClaimDoc) (signature : List.Vector UInt8 Rsa.modulusLen) : Contents :=
  doc.unsignedContents ++ [(8, signature.toList)]

theorem body_eq_ok_iff {doc : EditionClaimDoc} {bytes : List UInt8} :
    doc.body = .ok bytes ↔ Encodes bytes doc.unsignedContents := by
  have hwrite : doc.body = TlvWriter.writeAll doc.unsignedContents := by
    simp only [body, unsignedContents, TlvWriter.writeAll, TlvWriter.putMany_cons, TlvWriter.putMany_nil,
      bind_assoc, Except.ok_bind]
    rfl
  rw [hwrite, TlvWriter.writeAll_eq_ok_iff]

theorem fits_signature (signature : List.Vector UInt8 Rsa.modulusLen) : signature.toList.length < 2 ^ 32 := by
  rw [signature.toList_length]
  decide

/-- **What the writer does.** -/
theorem encode_eq_ok_iff {doc : EditionClaimDoc} {signature : List.Vector UInt8 Rsa.modulusLen}
    {bytes : List UInt8} : doc.encode signature = .ok bytes ↔ Encodes bytes (doc.contents signature) := by
  have hrecord : Encodes (encodeContents [(8, signature.toList)]) [(8, signature.toList)] :=
    Encodes.of_forall (List.pairwise_singleton ..) (List.forall_mem_singleton.mpr (fits_signature signature))
  have hwrite : doc.encode signature =
      doc.body.map fun body ↦ body ++ encodeContents [(8, signature.toList)] := by
    have hput : TlvWriter.writeAll [(8, signature.toList)] = .ok (encodeContents [(8, signature.toList)]) :=
      TlvWriter.writeAll_eq_ok_iff.mpr hrecord
    simp only [TlvWriter.writeAll, TlvWriter.putMany_cons, TlvWriter.putMany_nil, bind_assoc,
      Except.ok_bind] at hput
    obtain ⟨w, hw, hfinish⟩ := Except.bind_eq_ok_iff.mp hput
    rw [encode, ClaimTag.signature, hw, ← Except.ok.inj hfinish]
    cases doc.body <;> rfl
  rw [hwrite, Except.map_eq_ok_iff]
  constructor
  · rintro ⟨body, hbody, rfl⟩
    have hbody := body_eq_ok_iff.mp hbody
    obtain ⟨htags, hfits⟩ := Encodes.exists_iff.mp ⟨_, hbody⟩
    rw [hbody.eq_encodeContents, ← encodeContents_append]
    refine Encodes.of_forall (show [1, 2, 3, 4, 5, 6, 7, 8].Pairwise (· < ·) by decide) ?_
    exact List.forall_mem_append.mpr ⟨hfits, List.forall_mem_singleton.mpr (fits_signature signature)⟩
  · intro h
    refine ⟨encodeContents doc.unsignedContents, body_eq_ok_iff.mpr ?_, ?_⟩
    · exact h.of_sublist (List.sublist_append_left _ _)
    · rw [h.eq_encodeContents, contents, encodeContents_append]

/-! ### What is read -/

/-- The fields of a reading. -/
def Reading.value (acc : Reading) (tag : UInt16) : Option (List UInt8) :=
  match tag with
  | 1 => acc.fileId.map List.Vector.toList
  | 2 => acc.counter.map toLeBytes
  | 3 => acc.baseDigest.map List.Vector.toList
  | 4 => acc.digest.map List.Vector.toList
  | 5 => acc.sessionHead.map List.Vector.toList
  | 6 => acc.certifiedBy
  | 7 => acc.at_.map toLeBytes
  | 8 => acc.signature.map List.Vector.toList
  | _ => none

/-- The certificate of a reading is of a bounded length. -/
def Reading.Allowed (acc : Reading) : Prop := ∀ bytes ∈ acc.certifiedBy, bytes.length ≤ maxCertifiedByLen

/-- The bound on the certificate is checked on reading. -/
theorem certifiedByField_eq_ok_iff {field : Field} {bytes : List UInt8} :
    certifiedByField field = .ok bytes ↔ bytes.length ≤ maxCertifiedByLen ∧ field.value = bytes := by
  rw [certifiedByField, Except.check_bind_eq_ok_iff, Except.refuseIf_eq_ok_iff, not_lt, Except.ok.injEq]
  constructor
  · rintro ⟨hlength, rfl⟩
    exact ⟨hlength, rfl⟩
  · rintro ⟨hlength, rfl⟩
    exact ⟨hlength, rfl⟩

theorem forall_mem_tags {P : UInt16 → Prop} :
    (∀ tag ∈ tags, P tag) ↔ P 1 ∧ P 2 ∧ P 3 ∧ P 4 ∧ P 5 ∧ P 6 ∧ P 7 ∧ P 8 := by
  simp only [tags, List.forall_mem_cons, List.not_mem_nil, IsEmpty.forall_iff, implies_true, and_true]

theorem recordStep_decodeStep : RecordStep tags decodeStep where
  span_free _ _ _ _ _ := rfl
  skips acc tag value span h := by
    unfold decodeStep
    split <;> first | rfl | simp_all [tags]

/-- A field that is read fills the slot of its tag and leaves the other slots. -/
theorem Reading.reads {s s' : Reading} {tag : UInt16} {bytes : List UInt8} (htag : tag ∈ tags)
    (hs : s.Allowed) (h : readField decodeStep s (tag, bytes) = .ok s') :
    s'.Allowed ∧ ∀ u ∈ tags, s'.value u = if u = tag then some bytes else s.value u := by
  rw [readField, decodeStep] at h
  split at h
  case h_6 heq =>
    obtain rfl : tag = _ := heq
    obtain ⟨v, hv, rfl⟩ := Except.map_eq_ok_iff.mp h
    obtain ⟨hlength, rfl⟩ : v.length ≤ maxCertifiedByLen ∧ bytes = v := certifiedByField_eq_ok_iff.mp hv
    refine ⟨fun _ hv ↦ Option.some.inj hv ▸ hlength, forall_mem_tags.mpr ?_⟩
    and_intros
    all_goals rfl
  case h_9 => simp_all [tags]
  all_goals
    rename_i heq
    obtain rfl : tag = _ := heq
    obtain ⟨v, hv, rfl⟩ := Except.map_eq_ok_iff.mp h
    have hbytes := by
      first
      | exact Field.le_eq_ok_iff.mp hv
      | exact Field.array_eq_ok_iff.mp hv
    obtain rfl : bytes = _ := hbytes
    refine ⟨hs, forall_mem_tags.mpr ?_⟩
    and_intros
    all_goals rfl

/-- What is written for the slots of an allowed reading is read. -/
theorem Reading.accepts {r : Reading} (hr : r.Allowed) (s : Reading) :
    ∀ tag ∈ tags, ∀ bytes, r.value tag = some bytes → ∃ s', readField decodeStep s (tag, bytes) = .ok s' := by
  refine forall_mem_tags.mpr ⟨?fileId, ?counter, ?baseDigest, ?digest, ?sessionHead, ?certifiedBy, ?at_,
    ?signature⟩
  all_goals
    intro bytes hvalue
    simp only [readField, decodeStep]
  case certifiedBy => exact Except.exists_map_eq_ok (certifiedByField_eq_ok_iff.mpr ⟨hr bytes hvalue, rfl⟩)
  case counter | at_ =>
    obtain ⟨v, -, rfl⟩ := Option.map_eq_some_iff.mp hvalue
    exact Except.exists_map_eq_ok (Field.le_eq_ok_iff.mpr rfl)
  all_goals
    obtain ⟨v, -, rfl⟩ := Option.map_eq_some_iff.mp hvalue
    exact Except.exists_map_eq_ok (Field.array_eq_ok_iff.mpr rfl)

/-- What is written for the slots determines them. -/
theorem Reading.ext_of_value {r r' : Reading} (h : ∀ tag ∈ tags, r.value tag = r'.value tag) : r = r' := by
  obtain ⟨fileId, counter, baseDigest, digest, sessionHead, certifiedBy, at_, signature⟩ :=
    forall_mem_tags.mp h
  have hle {α : Type} [LeInt α] : Function.Injective (Option.map (@toLeBytes α _)) :=
    Option.map_injective toLeBytes_injective
  have harray {n : ℕ} : Function.Injective (Option.map (@List.Vector.toList UInt8 n)) :=
    Option.map_injective List.Vector.toList_injective
  obtain ⟨⟩ := r
  obtain ⟨⟩ := r'
  simp only [Reading.mk.injEq]
  exact ⟨harray fileId, hle counter, harray baseDigest, harray digest, harray sessionHead, certifiedBy,
    hle at_, harray signature⟩

theorem slotStep_decodeStep : SlotStep tags decodeStep Reading.value Reading.Allowed where
  reads htag _ hs h := Reading.reads htag hs h
  accepts s htag hr hvalue := Reading.accepts hr s _ htag _ hvalue
  ext _ _ := Reading.ext_of_value

/-- The slots of a submission. -/
def Reading.of (doc : EditionClaimDoc) (signature : List.Vector UInt8 Rsa.modulusLen) : Reading :=
  ⟨some doc.fileId, some doc.counter, some doc.baseDigest, some doc.digest, some doc.sessionHead,
    some doc.certifiedBy, some doc.at_, some signature⟩

/-- A claim is read if every field was. -/
theorem Reading.doc_eq_ok_iff {acc : Reading} {doc : EditionClaimDoc}
    {signature : List.Vector UInt8 Rsa.modulusLen} :
    acc.doc = .ok (doc, signature) ↔ acc = Reading.of doc signature := by
  obtain ⟨⟩ := acc
  simp only [Reading.doc, Reading.of, Except.bind_eq_ok_iff, Except.okOr_eq_ok_iff, Except.ok.injEq,
    Prod.mk.injEq, Reading.mk.injEq]
  constructor
  · rintro ⟨_, h₁, _, h₂, _, h₃, _, h₄, _, h₅, _, h₆, _, h₇, _, h₈, rfl, rfl⟩
    exact ⟨h₁, h₂, h₃, h₄, h₅, h₆, h₇, h₈⟩
  · rintro ⟨h₁, h₂, h₃, h₄, h₅, h₆, h₇, h₈⟩
    exact ⟨_, h₁, _, h₂, _, h₃, _, h₄, _, h₅, _, h₆, _, h₇, _, h₈, rfl, rfl⟩

/-- **What is read.** A submission is read if and only if its unknown fields are optional and its known ones
are those that are written, with a certificate of a bounded length. -/
theorem parse_eq_ok_iff {bytes : List UInt8} {l : Contents} (henc : Encodes bytes l) {doc : EditionClaimDoc}
    {signature : List.Vector UInt8 Rsa.modulusLen} :
    parse bytes = .ok (doc, signature) ↔ (∀ p ∈ l, p.1 ∉ tags → critTagMax < p.1) ∧
      (l.filter fun p ↦ p.1 ∈ tags) = doc.contents signature ∧
      doc.certifiedBy.length ≤ maxCertifiedByLen := by
  have hempty : ∀ u ∈ tags, Reading.value {} u = none := by
    refine forall_mem_tags.mpr ?_
    and_intros
    all_goals rfl
  have hinverted (r : Reading) : l.foldlM (readField decodeStep) {} = .ok r ↔
      (∀ p ∈ l, p.1 ∉ tags → critTagMax < p.1) ∧ r.Allowed ∧
        (l.filter fun p ↦ p.1 ∈ tags) = SlotStep.contents tags Reading.value r :=
    slotStep_decodeStep.foldlM_record_eq_ok_iff recordStep_decodeStep (by decide) nofun hempty henc.increasing
  simp only [parse, Except.bind_eq_ok_iff, recordStep_decodeStep.foldFields_eq henc, hinverted,
    Reading.doc_eq_ok_iff]
  constructor
  · intro h
    obtain ⟨_, ⟨hoptional, hallowed, hcontents⟩, rfl⟩ := h
    exact ⟨hoptional, hcontents, hallowed _ rfl⟩
  · intro h
    obtain ⟨hoptional, hcontents, hlength⟩ := h
    exact ⟨Reading.of doc signature, ⟨hoptional, fun _ hv ↦ Option.some.inj hv ▸ hlength, hcontents⟩, rfl⟩

/-! ### What is signed -/

/-- The bytes carry a signature. -/
def Carries (bytes : List UInt8) (signature : List.Vector UInt8 Rsa.modulusLen) : Prop :=
  ∃ l, Encodes bytes l ∧ (ClaimTag.signature, signature.toList) ∈ l

/-- Every field of the bytes has a critical tag. -/
def OnlyCritical (bytes : List UInt8) : Prop := ∀ l, Encodes bytes l → ∀ p ∈ l, p.1 ≤ critTagMax

/-- A transcript determines the claim that it is made from. -/
theorem transcript_injective {doc doc' : EditionClaimDoc} {t : Transcript} (h : doc.transcript = .ok t)
    (h' : doc'.transcript = .ok t) : doc = doc' := by
  obtain ⟨body, hbody, rfl⟩ := Except.map_eq_ok_iff.mp h
  obtain ⟨body', hbody', heq⟩ := Except.map_eq_ok_iff.mp h'
  obtain ⟨-, rfl⟩ : _ ∧ body' = body := by
    refine List.append_inj (Transcript.mk.inj heq) ?_
    simp only [List.length_append, length_toLeBytes]
  have hcontents := (body_eq_ok_iff.mp hbody).unique (body_eq_ok_iff.mp hbody')
  obtain ⟨⟩ := doc
  obtain ⟨⟩ := doc'
  simp only [unsignedContents, List.cons.injEq, Prod.mk.injEq, true_and, and_true] at hcontents
  obtain ⟨fileId, counter, baseDigest, digest, sessionHead, certifiedBy, at_⟩ := hcontents
  simp only [EditionClaimDoc.mk.injEq]
  exact ⟨List.Vector.toList_injective fileId, toLeBytes_injective counter,
    List.Vector.toList_injective baseDigest, List.Vector.toList_injective digest,
    List.Vector.toList_injective sessionHead, certifiedBy, toLeBytes_injective at_⟩

/-- The signature that is carried is the one that is read. -/
theorem eq_of_carries {bytes : List UInt8} {doc : EditionClaimDoc}
    {signature signature' : List.Vector UInt8 Rsa.modulusLen} (h : parse bytes = .ok (doc, signature))
    (hcarries : Carries bytes signature') : signature = signature' := by
  obtain ⟨l, henc, hmem⟩ := hcarries
  obtain ⟨-, hcontents, -⟩ := (parse_eq_ok_iff henc).mp h
  have hmem : (ClaimTag.signature, signature'.toList) ∈ doc.contents signature :=
    hcontents ▸ List.mem_filter.mpr ⟨hmem, decide_eq_true (show (8 : UInt16) ∈ tags by decide)⟩
  refine List.Vector.toList_injective ?_
  simpa [contents, unsignedContents, ClaimTag.signature, eq_comm] using hmem

/-- A submission without optional fields is the written one. -/
theorem encode_iff_of_parse {bytes : List UInt8} {doc : EditionClaimDoc}
    {signature : List.Vector UInt8 Rsa.modulusLen} (h : parse bytes = .ok (doc, signature)) :
    doc.encode signature = .ok bytes ↔ OnlyCritical bytes := by
  obtain ⟨acc, hloop, -⟩ := Except.bind_eq_ok_iff.mp h
  obtain ⟨l, henc, -⟩ := exists_encodes_of_foldFields hloop
  obtain ⟨hoptional, hcontents, -⟩ := (parse_eq_ok_iff henc).mp h
  rw [encode_eq_ok_iff]
  constructor
  · intro hwritten l hl p hp
    obtain rfl := hl.unique hwritten
    have htags : ∀ tag ∈ tags, tag ≤ critTagMax := by
      refine forall_mem_tags.mpr ?_
      and_intros
      all_goals decide
    exact htags p.1 (List.mem_map_of_mem (f := Prod.fst) hp)
  · intro hcritical
    have hself : (l.filter fun p ↦ p.1 ∈ tags) = l := by
      refine List.filter_eq_self.mpr fun p hp ↦ decide_eq_true ?_
      by_contra hunknown
      exact absurd (hcritical l henc p hp) (hoptional p hp hunknown).not_ge
    rw [← hcontents, hself]
    exact henc

/-- An accepted submission is parsed, and can be signed. -/
theorem exists_of_verify {sha : Sha2} {ed : Ed25519} {bytes : List UInt8} {author : Digest}
    {coauthors : List Digest} {now : Int64} {doc : EditionClaimDoc} {cert : EditorCert}
    (h : verify sha ed bytes author coauthors now = .ok (doc, cert)) :
    ∃ signature t, parse bytes = .ok (doc, signature) ∧ doc.transcript = .ok t := by
  obtain ⟨⟨read, signature⟩, hread, h⟩ := Except.bind_eq_ok_iff.mp h
  obtain ⟨-, h⟩ := Except.check_bind_eq_ok_iff.mp h
  obtain ⟨⟨cert', signed⟩, -, h⟩ := Except.bind_eq_ok_iff.mp h
  obtain ⟨-, h⟩ := Except.check_bind_eq_ok_iff.mp h
  obtain ⟨-, h⟩ := Except.check_bind_eq_ok_iff.mp h
  obtain ⟨-, h⟩ := Except.check_bind_eq_ok_iff.mp h
  obtain ⟨-, h⟩ := Except.check_bind_eq_ok_iff.mp h
  obtain ⟨t, ht, h⟩ := Except.bind_eq_ok_iff.mp h
  obtain ⟨-, h⟩ := Except.check_bind_eq_ok_iff.mp h
  obtain ⟨rfl, rfl⟩ := Prod.mk.inj (Except.ok.inj h)
  exact ⟨signature, t, Except.mapError_eq_ok_iff.mp hread, Except.mapError_eq_ok_iff.mp ht⟩

/-- A submission that is read carries its signature. -/
theorem carries_of_parse {bytes : List UInt8} {doc : EditionClaimDoc}
    {signature : List.Vector UInt8 Rsa.modulusLen} (h : parse bytes = .ok (doc, signature)) :
    Carries bytes signature := by
  obtain ⟨acc, hloop, -⟩ := Except.bind_eq_ok_iff.mp h
  obtain ⟨l, henc, -⟩ := exists_encodes_of_foldFields hloop
  obtain ⟨-, hcontents, -⟩ := (parse_eq_ok_iff henc).mp h
  have hmem : (ClaimTag.signature, signature.toList) ∈ doc.contents signature :=
    List.mem_append_right _ (List.mem_singleton_self _)
  exact ⟨l, henc, List.mem_of_mem_filter (hcontents ▸ hmem)⟩

/-- **What the signature covers.** An accepted submission is the one that is written for what was read, and
the signature covers all of it, if and only if every field of it has a critical tag; of those, no two are
accepted with one transcript and one signature. -/
theorem encode_iff_of_verify {sha : Sha2} {ed : Ed25519} {bytes : List UInt8} {author : Digest}
    {coauthors : List Digest} {now : Int64} {doc : EditionClaimDoc} {cert : EditorCert}
    (h : verify sha ed bytes author coauthors now = .ok (doc, cert)) :
    ∃ signature, Carries bytes signature ∧ (doc.encode signature = .ok bytes ↔ OnlyCritical bytes) ∧
      ∀ (bytes' : List UInt8) (author' : Digest) (coauthors' : List Digest) (now' : Int64)
        (doc' : EditionClaimDoc) (cert' : EditorCert),
        verify sha ed bytes' author' coauthors' now' = .ok (doc', cert') →
        doc'.transcript = doc.transcript → Carries bytes' signature → OnlyCritical bytes →
        OnlyCritical bytes' → bytes' = bytes := by
  obtain ⟨signature, t, hparse, ht⟩ := exists_of_verify h
  refine ⟨signature, carries_of_parse hparse, encode_iff_of_parse hparse, ?_⟩
  intro bytes' author' coauthors' now' doc' cert' h' htranscript hcarries' hcritical hcritical'
  obtain ⟨signature', t', hparse', ht'⟩ := exists_of_verify h'
  obtain rfl := eq_of_carries hparse' hcarries'
  obtain rfl := transcript_injective (htranscript.trans ht) ht
  have hwritten := (encode_iff_of_parse hparse).mpr hcritical
  exact Except.ok.inj (((encode_iff_of_parse hparse').mpr hcritical').symm.trans hwritten)

/-- The submission of the sample edit. -/
def sampleClaim : EditionClaimDoc :=
  ⟨List.Vector.replicate 16 0, 1, List.Vector.replicate 32 0, sampleEditionDigest, sampleSessionHead,
    sampleCertBytes, 0⟩

/-- SHA-256 of the transcript of the sample submission. -/
def sampleClaimDigest : Digest :=
  ⟨[0xbe, 0x00, 0xd7, 0x31, 0x57, 0x4c, 0x2b, 0x00, 0x81, 0x26, 0x99, 0xfa, 0xaf, 0x4f, 0xe3, 0x85,
    0x39, 0x10, 0xf9, 0x1c, 0x75, 0x11, 0x53, 0x6d, 0x41, 0x53, 0x58, 0x92, 0x66, 0x94, 0x06, 0x9b],
    rfl⟩

/-- SHA-256 of its salted digest. -/
def sampleClaimPssDigest : Digest :=
  ⟨[0x69, 0xca, 0xd1, 0xf0, 0x08, 0xde, 0x5a, 0x2d, 0xe4, 0x23, 0xe4, 0x0d, 0x72, 0x4e, 0xdf, 0x9a,
    0x84, 0x14, 0x42, 0xb0, 0x23, 0x5c, 0xf4, 0xda, 0x43, 0xf2, 0x41, 0x4d, 0xe9, 0x08, 0x85, 0x89],
    rfl⟩

/-- SHA-256 of that digest with the counters of the mask. -/
def sampleClaimPssMask : List UInt8 :=
  [0xe0, 0x81, 0x07, 0xcf, 0x2a, 0x75, 0x75, 0x93, 0x49, 0xf8, 0x98, 0x6b, 0xd2, 0xd0, 0x6d, 0x11,
    0x27, 0x1a, 0xc6, 0x20, 0x65, 0xa3, 0x82, 0x4a, 0x7e, 0xc1, 0x0a, 0x78, 0x8c, 0xff, 0xf1, 0xc9,
    0xe7, 0x48, 0xd7, 0xac, 0x0e, 0xbc, 0xb5, 0x86, 0x2f, 0xf8, 0x70, 0x30, 0x95, 0xd9, 0xfc, 0x76,
    0x20, 0x95, 0x81, 0xc5, 0xa9, 0xdc, 0x34, 0x85, 0x64, 0x91, 0x4a, 0xdd, 0xe8, 0x95, 0xb1, 0xd5,
    0x9b, 0x43, 0x3e, 0xd7, 0x90, 0x13, 0xfc, 0x33, 0xc4, 0xe9, 0xbd, 0xd9, 0x26, 0xfa, 0x38, 0x8c,
    0xdf, 0xfa, 0xc9, 0xdc, 0x89, 0x21, 0x65, 0xf0, 0x61, 0xd0, 0x6c, 0x09, 0x4e, 0xee, 0xd5, 0x6a,
    0xfc, 0xfb, 0xdd, 0xf2, 0xcf, 0xb8, 0x50, 0x04, 0x62, 0x60, 0xf9, 0xf0, 0x01, 0x58, 0x59, 0x3b,
    0x32, 0xf6, 0xa9, 0x08, 0x17, 0x02, 0x1b, 0xbe, 0x10, 0x72, 0x98, 0x35, 0xb5, 0x68, 0x18, 0x69,
    0xab, 0x36, 0x60, 0x6f, 0xcf, 0x71, 0xc6, 0xe3, 0xb5, 0x28, 0xbd, 0x7c, 0x92, 0x05, 0x20, 0x51,
    0x71, 0xe2, 0x52, 0x2b, 0x0a, 0x71, 0x80, 0x1c, 0x2c, 0x13, 0xa0, 0xcd, 0x71, 0xe3, 0x22, 0x24,
    0xb5, 0x9f, 0xbf, 0x87, 0xcb, 0x43, 0x04, 0xb4, 0x8c, 0x02, 0xe7, 0x31, 0x84, 0xb9, 0x78, 0x64,
    0xee, 0x77, 0x92, 0xb6, 0x72, 0xa6, 0xb2, 0x98, 0x1a, 0x08, 0x98, 0xd7, 0xe8, 0x34, 0xfe, 0xf0,
    0xb7, 0x86, 0x7e, 0x26, 0xce, 0xf3, 0xa9, 0x57, 0xbe, 0x96, 0x76, 0x75, 0x1c, 0xcb, 0x80, 0x53,
    0x80, 0xe0, 0x4d, 0x00, 0x74, 0x44, 0x06, 0x8a, 0xbf, 0x8d, 0x74, 0x6c, 0x7d, 0xb9, 0xf6, 0x4e]

/-- SHA-256 as it is at the inputs of the sample submission. -/
def sampleClaimSha : Sha2 where
  sha256 input :=
    match input.length with
    | 645 => sampleClaimDigest
    | 72 => sampleClaimPssDigest
    | _ => List.Vector.ofFn fun i ↦ sampleClaimPssMask.getD (32 * (input.getLastD 0).toNat + i.val) 0
  hmac := sampleEditSha.hmac
  hkdf := sampleEditSha.hkdf

/-- RSA-PSS signature of the sample submission under the test key. -/
def sampleClaimSignature : List.Vector UInt8 Rsa.modulusLen :=
  ⟨[0x28, 0x1c, 0xa8, 0x66, 0xf8, 0x08, 0x52, 0x92, 0x46, 0x83, 0x81, 0x5b, 0x9e, 0x7f, 0x52, 0x7d,
    0x20, 0xd0, 0x53, 0x06, 0x7f, 0xff, 0xbf, 0x94, 0x9e, 0x6c, 0x89, 0xb6, 0xba, 0x4c, 0xcd, 0x1a,
    0xb1, 0x0b, 0x29, 0x97, 0x81, 0xa5, 0xbc, 0x8c, 0xd1, 0x64, 0xc4, 0x07, 0x9b, 0x5f, 0x42, 0x81,
    0x6a, 0x86, 0x18, 0x08, 0xc2, 0x94, 0x37, 0xd9, 0x24, 0x3f, 0x85, 0xd8, 0x39, 0xdd, 0x5f, 0x0f,
    0x90, 0xdf, 0x3c, 0x6c, 0xbe, 0xe8, 0x9d, 0x45, 0xfd, 0x61, 0xf7, 0x02, 0x53, 0x4a, 0xd7, 0xec,
    0x7c, 0xcd, 0xf7, 0x38, 0x20, 0xfd, 0x34, 0xc0, 0xbf, 0x23, 0x05, 0xc8, 0x6c, 0xc6, 0x1e, 0x54,
    0x40, 0xcc, 0x17, 0x9f, 0x40, 0x2b, 0x76, 0x60, 0xd0, 0x4c, 0xe6, 0xcb, 0x2d, 0xbb, 0xf5, 0x8c,
    0x7b, 0x18, 0x49, 0x2d, 0x0c, 0xd6, 0xd8, 0xf6, 0x21, 0xc3, 0xea, 0xd6, 0xe1, 0x07, 0x74, 0x09,
    0x56, 0x56, 0x08, 0x75, 0x8e, 0x47, 0x56, 0xe0, 0x00, 0xa3, 0x0d, 0x85, 0x1a, 0x1f, 0xc0, 0x16,
    0x28, 0x71, 0x9c, 0xbd, 0x0e, 0xc5, 0x3c, 0xd2, 0x5b, 0xb4, 0xbb, 0x2f, 0x23, 0x96, 0x72, 0x24,
    0x77, 0x82, 0x66, 0xf9, 0xbb, 0xe0, 0x6b, 0x51, 0xc4, 0x32, 0x74, 0xe1, 0xb2, 0xd6, 0x13, 0xa9,
    0x2f, 0x43, 0xe5, 0x52, 0xb7, 0x83, 0x6e, 0x54, 0x9a, 0xbe, 0xc8, 0xca, 0xda, 0xdb, 0x50, 0xbf,
    0x13, 0x0d, 0xfb, 0xc5, 0xe6, 0x67, 0xc6, 0x73, 0xaf, 0xa5, 0xce, 0xf2, 0xd3, 0xd2, 0x50, 0xd8,
    0xf2, 0x14, 0x7a, 0x63, 0x40, 0x81, 0xa2, 0xfe, 0xe8, 0x5a, 0x54, 0x5f, 0x12, 0xcc, 0xc9, 0x63,
    0xd7, 0xbf, 0xf0, 0x11, 0x49, 0xfd, 0x3a, 0xf0, 0x8e, 0x98, 0x06, 0x22, 0xe8, 0xaa, 0x8f, 0x6c,
    0xdc, 0x1c, 0xac, 0x84, 0x28, 0xf9, 0x55, 0xd1, 0xba, 0xcd, 0x17, 0x48, 0x09, 0x67, 0x31, 0xc8],
    by decide +kernel⟩

/-- The sample submission as it is written. -/
def sampleClaimBytes : List UInt8 := encodeContents (sampleClaim.contents sampleClaimSignature)

/-- The sample submission with a field behind it that nobody signed. -/
def extendedClaimBytes : List UInt8 := sampleClaimBytes ++ encodeContents [(0x8000, [1])]

theorem verify_sampleClaimBytes :
    verify sampleClaimSha sampleCertEd25519 sampleClaimBytes sampleAuthorKey [] 0 =
      .ok (sampleClaim, sampleCert) := by
  decide +kernel

/-- The sample submission is accepted as it is written. -/
theorem encode_iff_of_verify_sampleClaim : ∃ signature, Carries sampleClaimBytes signature ∧
    (sampleClaim.encode signature = .ok sampleClaimBytes ↔ OnlyCritical sampleClaimBytes) := by
  obtain ⟨signature, hcarries, hwritten, -⟩ := encode_iff_of_verify verify_sampleClaimBytes
  exact ⟨signature, hcarries, hwritten⟩

/-- **A submission is accepted with a field that is not signed.** It is verified as the one that is written,
with the same signature. -/
theorem unsigned_field_accepted :
    verify sampleClaimSha sampleCertEd25519 extendedClaimBytes sampleAuthorKey [] 0 =
        .ok (sampleClaim, sampleCert) ∧
      Carries extendedClaimBytes sampleClaimSignature ∧
      (∀ signature, sampleClaim.encode signature ≠ .ok extendedClaimBytes) ∧
      verify sampleClaimSha sampleCertEd25519 sampleClaimBytes sampleAuthorKey [] 0 =
        .ok (sampleClaim, sampleCert) ∧
      Carries sampleClaimBytes sampleClaimSignature ∧ extendedClaimBytes ≠ sampleClaimBytes := by
  have hextended : Encodes extendedClaimBytes
      (sampleClaim.contents sampleClaimSignature ++ [(0x8000, [1])]) := by
    rw [extendedClaimBytes, sampleClaimBytes, ← encodeContents_append]
    exact Encodes.of_forall (by decide +kernel) (by decide +kernel)
  have hwritten := hextended.of_sublist (List.sublist_append_left _ _)
  have hmem : (ClaimTag.signature, sampleClaimSignature.toList) ∈ sampleClaim.contents sampleClaimSignature :=
    List.mem_append_right _ (List.mem_singleton_self _)
  refine ⟨by decide +kernel, ⟨_, hextended, List.mem_append_left _ hmem⟩, fun signature h ↦ ?_,
    verify_sampleClaimBytes, ⟨_, hwritten, hmem⟩, fun h ↦ ?_⟩
  · have hcontents := congrArg List.length ((encode_eq_ok_iff.mp h).unique hextended)
    simp [contents, unsignedContents] at hcontents
  · rw [extendedClaimBytes, List.append_right_eq_self] at h
    exact absurd h (by decide)

end EditionClaimDoc

end OpenCrate.Format
