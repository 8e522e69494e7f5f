import OpenCrate.Engine.Edit
import OpenCrate.Format.TlvRecord

/-!
# What an issuer has certified

The issuer of an edit key signs every record of the certificate but that of the signature, and the reader puts the
same bytes together again: a record that it does not know is under the signature, too. So nothing can be added to a
certificate, and what is signed is, with the signature, all of it (`decode_eq_ok_iff`, `eq_of_signed`).

Hence a certificate that was issued is accepted for its file, by those who know the issuer, until it expires
(`issued_certificate_exact`); and what is accepted under the key of an issuer who signs nothing else is, byte for byte,
what it issued (`accepted_certificate_was_issued`).
-/

namespace OpenCrate.Format.EditorCert

open Crypto Engine.Edit
open Except (refuseIf okOr)

/-- Issue a certificate: sign and encode. -/
def issue (signer : Signer) (fileId : List.Vector UInt8 16) (device : Digest)
    (editorKey : List.Vector UInt8 Rsa.modulusLen) (notAfter : Int64) : Except FormatError (List UInt8) := do
  let cert : EditorCert :=
    ⟨fileId, device, editorKey, notAfter, signer.publicKey, List.Vector.replicate signatureLen 0⟩
  let body ← cert.signedBody
  let signature ← (signer.sign (transcript body)).mapError fun _ ↦ .badHeaderSignature
  { cert with signature }.encode

/-! ### What is written -/

/-- The tags of a certificate. -/
def tags : List UInt16 := [1, 2, 3, 4, 5, 6, 7]

/-- The tags and values of a certificate without its signature. -/
def unsignedContents (cert : EditorCert) : Contents :=
  [(1, [certVersion]), (2, cert.fileId.toList), (3, cert.device.toList), (4, cert.editorKey.toList),
    (5, toLeBytes cert.notAfter), (6, cert.issuer.toList)]

/-- The tags and values of a certificate. -/
def contents (cert : EditorCert) : Contents := cert.unsignedContents ++ [(7, cert.signature.toList)]

/-- A certificate is always written: its values are short. -/
theorem encodes_contents (cert : EditorCert) : Encodes (encodeContents cert.contents) cert.contents := by
  refine Encodes.of_forall (show [1, 2, 3, 4, 5, 6, 7].Pairwise (· < ·) by decide) ?_
  have hkey : Rsa.modulusLen < 2 ^ 32 := by decide
  have hsignature : signatureLen < 2 ^ 32 := by decide
  simpa [contents, unsignedContents, length_toLeBytes, LeInt.width] using ⟨hkey, hsignature⟩

theorem encodes_unsignedContents (cert : EditorCert) :
    Encodes (encodeContents cert.unsignedContents) cert.unsignedContents :=
  cert.encodes_contents.of_sublist (List.sublist_append_left _ _)

/-- The bytes that are signed are the other fields of the certificate. -/
theorem signedBody_eq (cert : EditorCert) : cert.signedBody = .ok (encodeContents cert.unsignedContents) := by
  have hwrite : cert.signedBody = TlvWriter.writeAll cert.unsignedContents := by
    simp only [signedBody, unsignedContents, TlvWriter.writeAll, TlvWriter.putMany_cons, TlvWriter.putMany_nil,
      bind_assoc, Except.ok_bind]
    rfl
  rw [hwrite, TlvWriter.writeAll_eq_ok_iff]
  exact cert.encodes_unsignedContents

theorem encode_eq (cert : EditorCert) : cert.encode = .ok (encodeContents cert.contents) := by
  have hrecord : Encodes (encodeContents [(7, cert.signature.toList)]) [(7, cert.signature.toList)] :=
    cert.encodes_contents.of_sublist (List.sublist_append_right _ _)
  have hput := TlvWriter.writeAll_eq_ok_iff.mpr hrecord
  simp only [TlvWriter.writeAll, TlvWriter.putMany_cons, TlvWriter.putMany_nil, bind_assoc, Except.ok_bind] at hput
  obtain ⟨w, hw, hfinish⟩ := Except.bind_eq_ok_iff.mp hput
  rw [encode, signedBody_eq, Except.ok_bind, CertTag.signature, hw, Except.ok_bind, Except.ok.inj hfinish,
    contents, encodeContents_append]

/-- What is issued is the certificate that the signer signs. -/
theorem issue_of_sign {signer : Signer} {cert : EditorCert} (hkey : signer.publicKey = cert.issuer)
    (hsign : signer.sign (transcript (encodeContents cert.unsignedContents)) = .ok cert.signature) :
    issue signer cert.fileId cert.device cert.editorKey cert.notAfter = cert.encode := by
  obtain ⟨fileId, device, editorKey, notAfter, issuer, signature⟩ := cert
  obtain rfl : signer.publicKey = issuer := hkey
  have hsign' : signer.sign (transcript (encodeContents (unsignedContents ⟨fileId, device, editorKey, notAfter,
      signer.publicKey, List.Vector.replicate signatureLen 0⟩))) = .ok signature := hsign
  rw [issue, signedBody_eq, Except.ok_bind, hsign']
  rfl

/-! ### What is read -/

/-- One field of the certificate, apart from what is signed. -/
def fieldStep (acc : Reading) (field : Field) : Except FormatError Reading :=
  match field.tag with
  | 7 => (field.array signatureLen).map fun v ↦ { acc with signature := some v }
  | 1 => field.u8.map fun v ↦ { acc with version := some v }
  | 2 => (field.array 16).map fun v ↦ { acc with fileId := some v }
  | 3 => (field.array 32).map fun v ↦ { acc with device := some v }
  | 4 => (field.array Rsa.modulusLen).map fun v ↦ { acc with editorKey := some v }
  | 5 => (field.le).map fun v ↦ { acc with notAfter := some v }
  | 6 => (field.array 32).map fun v ↦ { acc with issuer := some v }
  | other => skipUnknown other acc

theorem forall_mem_tags {P : UInt16 → Prop} :
    (∀ tag ∈ tags, P tag) ↔ P 1 ∧ P 2 ∧ P 3 ∧ P 4 ∧ P 5 ∧ P 6 ∧ P 7 := by
  simp only [tags, List.forall_mem_cons, List.not_mem_nil, IsEmpty.forall_iff, implies_true, and_true]

theorem recordStep_fieldStep : RecordStep tags fieldStep where
  span_free _ _ _ _ _ := rfl
  skips acc tag value span h := by
    unfold fieldStep
    split <;> first | rfl | simp_all [tags]

/-- The records that are signed. -/
def signedOf (l : Contents) : Contents := l.filter fun p ↦ p.1 ≠ CertTag.signature

/-- A round reads the field and takes its record to the signed ones. -/
theorem decodeStep_eq {bytes record signed : List UInt8} {acc : Reading} {field : Field}
    (hstart : fieldPrefixLen ≤ field.span.start)
    (hrecord : slice? bytes (field.span.start - fieldPrefixLen) field.span.stop = some record) :
    decodeStep bytes { acc with signed } field = (fieldStep acc field).map fun r ↦
      { r with signed := if field.tag = CertTag.signature then signed else signed ++ record } := by
  have hrefuse : refuseIf (field.span.start < fieldPrefixLen) FormatError.offsetOverflow = .ok () :=
    Except.refuseIf_eq_ok_iff.mpr (not_lt.mpr hstart)
  obtain ⟨tag, value, span⟩ := field
  rw [decodeStep, hrefuse, hrecord, Except.ok_bind, okOr, Except.ok_bind]
  dsimp only
  split
  case h_8 h₇ h₁ h₂ h₃ h₄ h₅ h₆ =>
    have hunknown : tag ∉ tags := by
      simp only [tags, List.mem_cons, List.not_mem_nil, or_false, not_or]
      exact ⟨h₁, h₂, h₃, h₄, h₅, h₆, h₇⟩
    have hsigned : ¬tag = CertTag.signature := h₇
    rw [recordStep_fieldStep.skips acc tag value span hunknown]
    simp only [if_neg hsigned]
    by_cases hoptional : critTagMax < tag
    · rw [skipUnknown_of_optional hoptional, skipUnknown_of_optional hoptional]
      rfl
    · rw [skipUnknown_of_critical (not_lt.mp hoptional), skipUnknown_of_critical (not_lt.mp hoptional)]
      rfl
  all_goals
    simp only [fieldStep, Except.map_map]
    rfl

/-- The loop reads the fields, and the signed bytes are those of all records but one. -/
theorem foldlM_decodeStep (pre : List UInt8) (l : Contents) (acc : Reading) (signed : List UInt8) :
    (fieldsOf pre.length l).foldlM (decodeStep (pre ++ encodeContents l)) { acc with signed } =
      (l.foldlM (readField fieldStep) acc).map fun r ↦
        { r with signed := signed ++ encodeContents (signedOf l) } := by
  induction l generalizing pre acc signed with
  | nil =>
    show Except.ok _ = Except.ok _
    rw [signedOf, List.filter_nil, encodeContents, List.flatMap_nil, List.append_nil]
  | cons p l ih =>
    obtain ⟨tag, value⟩ := p
    have hlength : (encodeContents [(tag, value)]).length = fieldPrefixLen + value.length := by
      rw [length_encodeContents, encodedLength_cons, encodedLength_nil, Nat.add_zero]
    have hrecord : slice? (pre ++ encodeContents ((tag, value) :: l)) pre.length
        (pre.length + fieldPrefixLen + value.length) = some (encodeContents [(tag, value)]) := by
      have hslice := slice?_append pre (encodeContents [(tag, value)]) (encodeContents l)
      rwa [← encodeContents_append, hlength, ← Nat.add_assoc] at hslice
    have hround : decodeStep (pre ++ encodeContents ((tag, value) :: l)) { acc with signed }
        ⟨tag, value, ⟨pre.length + fieldPrefixLen, pre.length + fieldPrefixLen + value.length⟩⟩ = _ :=
      decodeStep_eq (Nat.le_add_left _ _) hrecord
    have hnext : pre ++ encodeContents ((tag, value) :: l) =
        (pre ++ encodeContents [(tag, value)]) ++ encodeContents l := by
      rw [List.append_assoc, ← encodeContents_append]
      rfl
    rw [fieldsOf, List.foldlM_cons, List.foldlM_cons, hround, readField,
      recordStep_fieldStep.span_free acc tag value _ ⟨0, 0⟩]
    rcases fieldStep acc ⟨tag, value, ⟨0, 0⟩⟩ with e | r
    · rfl
    · have hpos : pre.length + fieldPrefixLen + value.length = (pre ++ encodeContents [(tag, value)]).length := by
        rw [List.length_append, hlength, Nat.add_assoc]
      -- the signature is the one record that is not signed
      have hsigned : (if tag = CertTag.signature then signed else signed ++ encodeContents [(tag, value)]) ++
          encodeContents (signedOf l) = signed ++ encodeContents (signedOf ((tag, value) :: l)) := by
        by_cases htag : tag = CertTag.signature
        · rw [if_pos htag, signedOf, signedOf, List.filter_cons_of_neg (by simpa using htag)]
        · rw [if_neg htag, signedOf, signedOf, List.filter_cons_of_pos (by simpa using htag), List.append_assoc,
            ← encodeContents_append]
          rfl
      rw [hnext, hpos, ← hsigned]
      exact ih _ r _

/-- The fields of a reading. -/
def Reading.value (acc : Reading) (tag : UInt16) : Option (List UInt8) :=
  match tag with
  | 1 => acc.version.map fun v ↦ [v]
  | 2 => acc.fileId.map List.Vector.toList
  | 3 => acc.device.map List.Vector.toList
  | 4 => acc.editorKey.map List.Vector.toList
  | 5 => acc.notAfter.map toLeBytes
  | 6 => acc.issuer.map List.Vector.toList
  | 7 => acc.signature.map List.Vector.toList
  | _ => none

/-- The reading has fields only. -/
def Reading.OnlyFields (acc : Reading) : Prop := acc.signed = []

/-- A field that is read fills the slot of its tag and leaves the other slots. -/
theorem Reading.reads {s s' : Reading} {tag : UInt16} {bytes : List UInt8} (htag : tag ∈ tags)
    (hs : s.OnlyFields) (h : readField fieldStep s (tag, bytes) = .ok s') :
    s'.OnlyFields ∧ ∀ u ∈ tags, s'.value u = if u = tag then some bytes else s.value u := by
  rw [readField, fieldStep] at h
  split at h
  case h_8 => simp_all [tags]
  all_goals
    rename_i heq
    obtain rfl : tag = _ := heq
    obtain ⟨v, hv, rfl⟩ := Except.map_eq_ok_iff.mp h
    have hbytes := by
      first
      | exact Field.le_eq_ok_iff.mp hv
      | exact Field.array_eq_ok_iff.mp hv
      | exact Field.u8_eq_ok_iff.mp hv
    obtain rfl : bytes = _ := hbytes
    refine ⟨hs, forall_mem_tags.mpr ?_⟩
    and_intros
    all_goals rfl

/-- What is written for the slots of a reading is read. -/
theorem Reading.accepts (r s : Reading) :
    ∀ tag ∈ tags, ∀ bytes, r.value tag = some bytes → ∃ s', readField fieldStep s (tag, bytes) = .ok s' := by
  refine forall_mem_tags.mpr ⟨?version, ?fileId, ?device, ?editorKey, ?notAfter, ?issuer, ?signature⟩
  all_goals
    intro bytes hvalue
    obtain ⟨v, -, rfl⟩ := Option.map_eq_some_iff.mp hvalue
    simp only [readField, fieldStep]
  case version => exact Except.exists_map_eq_ok (Field.u8_eq_ok_iff.mpr rfl)
  case notAfter => exact Except.exists_map_eq_ok (Field.le_eq_ok_iff.mpr rfl)
  all_goals exact Except.exists_map_eq_ok (Field.array_eq_ok_iff.mpr rfl)

/-- What is written for the slots determines them. -/
theorem Reading.ext_of_value {r r' : Reading} (hr : r.OnlyFields) (hr' : r'.OnlyFields)
    (h : ∀ tag ∈ tags, r.value tag = r'.value tag) : r = r' := by
  obtain ⟨version, fileId, device, editorKey, notAfter, issuer, signature⟩ := forall_mem_tags.mp h
  have hle {α : Type} [LeInt α] : Function.Injective (Option.map (@toLeBytes α _)) :=
    Option.map_injective toLeBytes_injective
  have harray {n : ℕ} : Function.Injective (Option.map (@List.Vector.toList UInt8 n)) :=
    Option.map_injective List.Vector.toList_injective
  have hbyte : Function.Injective (Option.map fun v : UInt8 ↦ [v]) :=
    Option.map_injective List.singleton_injective
  obtain ⟨⟩ := r
  obtain ⟨⟩ := r'
  simp only [Reading.mk.injEq]
  exact ⟨hbyte version, harray fileId, harray device, harray editorKey, hle notAfter, harray issuer,
    harray signature, hr.trans hr'.symm⟩

theorem slotStep_fieldStep : SlotStep tags fieldStep Reading.value Reading.OnlyFields where
  reads htag _ hs h := Reading.reads htag hs h
  accepts s htag _ hvalue := Reading.accepts _ s _ htag _ hvalue
  ext hr hr' := Reading.ext_of_value hr hr'

/-- The slots of a certificate. -/
def Reading.of (cert : EditorCert) : Reading where
  version := some certVersion
  fileId := some cert.fileId
  device := some cert.device
  editorKey := some cert.editorKey
  notAfter := some cert.notAfter
  issuer := some cert.issuer
  signature := some cert.signature

/-- **What is read.** A certificate is read if and only if its unknown fields are optional and its known ones are those
that are written; and what is signed are all records but that of the signature. -/
theorem decode_eq_ok_iff {bytes signed : List UInt8} {l : Contents} (henc : Encodes bytes l) {cert : EditorCert} :
    decode bytes = .ok (cert, signed) ↔ (∀ p ∈ l, p.1 ∉ tags → critTagMax < p.1) ∧
      (l.filter fun p ↦ p.1 ∈ tags) = cert.contents ∧ signed = encodeContents (signedOf l) := by
  have hempty : ∀ u ∈ tags, Reading.value {} u = none := by
    refine forall_mem_tags.mpr ?_
    and_intros
    all_goals rfl
  -- the loop also collects the bytes that are signed
  have hloop : TlvReader.foldFields (decodeStep bytes) (TlvReader.new bytes) {} =
      (l.foldlM (readField fieldStep) {}).map fun r ↦ { r with signed := encodeContents (signedOf l) } := by
    rw [henc.foldFields]
    have h := foldlM_decodeStep [] l {} []
    rwa [List.nil_append, List.nil_append, ← henc.eq_encodeContents] at h
  have hread (r : Reading) : l.foldlM (readField fieldStep) {} = .ok r ↔
      (∀ p ∈ l, p.1 ∉ tags → critTagMax < p.1) ∧ r.OnlyFields ∧
        (l.filter fun p ↦ p.1 ∈ tags) = SlotStep.contents tags Reading.value r :=
    slotStep_fieldStep.foldlM_record_eq_ok_iff recordStep_fieldStep (by decide) rfl hempty henc.increasing
  rw [decode, hloop]
  constructor
  · intro h
    obtain ⟨acc, hacc, h⟩ := Except.bind_eq_ok_iff.mp h
    obtain ⟨r, hr, rfl⟩ := Except.map_eq_ok_iff.mp hacc
    simp only [Except.bind_eq_ok_iff, Except.okOr_eq_ok_iff, Except.refuseIf_eq_ok_iff, ne_eq, not_not] at h
    obtain ⟨_, hversion, _, rfl, _, hfileId, _, hdevice, _, heditorKey, _, hnotAfter, _, hissuer, _, hsignature, h⟩ := h
    obtain ⟨rfl, rfl⟩ := Prod.mk.inj (Except.ok.inj h)
    obtain ⟨hoptional, honly, hcontents⟩ := (hread r).mp hr
    refine ⟨hoptional, hcontents.trans ?_, rfl⟩
    obtain ⟨⟩ := r
    subst hversion hfileId hdevice heditorKey hnotAfter hissuer hsignature
    rfl
  · intro h
    obtain ⟨hoptional, hcontents, rfl⟩ := h
    have hr := (hread (Reading.of cert)).mpr ⟨hoptional, rfl, hcontents⟩
    rw [hr]
    rfl

/-! ### What is signed -/

theorem exists_of_decode {bytes signed : List UInt8} {cert : EditorCert} (h : decode bytes = .ok (cert, signed)) :
    ∃ l, Encodes bytes l ∧ (∀ p ∈ l, p.1 ∉ tags → critTagMax < p.1) ∧
      (l.filter fun p ↦ p.1 ∈ tags) = cert.contents ∧ signed = encodeContents (signedOf l) := by
  obtain ⟨acc, hloop, -⟩ := Except.bind_eq_ok_iff.mp h
  obtain ⟨l, henc, -⟩ := exists_encodes_of_foldFields hloop
  exact ⟨l, henc, (decode_eq_ok_iff henc).mp h⟩

theorem signedOf_contents (cert : EditorCert) : signedOf cert.contents = cert.unsignedContents := by
  simp [signedOf, contents, unsignedContents, CertTag.signature]

/-- The known fields of what is signed are those of the certificate. -/
theorem filter_signedOf {l : Contents} {cert : EditorCert}
    (h : (l.filter fun p ↦ p.1 ∈ tags) = cert.contents) :
    ((signedOf l).filter fun p ↦ p.1 ∈ tags) = cert.unsignedContents := by
  rw [signedOf, List.filter_comm, h]
  exact cert.signedOf_contents

/-- What is written before the signature determines the rest of the certificate. -/
theorem eq_of_unsignedContents {cert cert' : EditorCert} (h : cert'.unsignedContents = cert.unsignedContents) :
    cert' = { cert with signature := cert'.signature } := by
  obtain ⟨⟩ := cert
  obtain ⟨⟩ := cert'
  simp only [unsignedContents, List.cons.injEq, Prod.mk.injEq, true_and, and_true] at h
  obtain ⟨fileId, device, editorKey, notAfter, issuer⟩ := h
  simp only [EditorCert.mk.injEq, and_true]
  exact ⟨List.Vector.toList_injective fileId, List.Vector.toList_injective device,
    List.Vector.toList_injective editorKey, toLeBytes_injective notAfter, List.Vector.toList_injective issuer⟩

/-- The signature and what is signed are all fields of a certificate. -/
theorem mem_iff_of_contents {l : Contents} {cert : EditorCert}
    (h : (l.filter fun p ↦ p.1 ∈ tags) = cert.contents) {p : UInt16 × List UInt8} :
    p ∈ l ↔ p ∈ signedOf l ∨ p = (CertTag.signature, cert.signature.toList) := by
  have hlast : (CertTag.signature, cert.signature.toList) ∈ cert.contents :=
    List.mem_append_right _ (List.mem_singleton_self _)
  constructor
  · intro hp
    by_cases htag : p.1 = CertTag.signature
    · have hcontents : p ∈ cert.contents := h ▸ List.mem_filter.mpr ⟨hp, by rw [htag]; rfl⟩
      have hnot : p ∉ cert.unsignedContents := by
        rw [← signedOf_contents, signedOf, List.mem_filter, not_and, htag]
        simp
      exact Or.inr (List.mem_singleton.mp ((List.mem_append.mp hcontents).resolve_left hnot))
    · exact Or.inl (List.mem_filter.mpr ⟨hp, decide_eq_true htag⟩)
  · intro hp
    rcases hp with hp | rfl
    · exact List.mem_of_mem_filter hp
    · exact List.mem_of_mem_filter (h ▸ hlast)

/-- **What is signed is, with the signature, the whole certificate.** -/
theorem eq_of_signed {bytes bytes' signed : List UInt8} {cert cert' : EditorCert}
    (h : decode bytes = .ok (cert, signed)) (h' : decode bytes' = .ok (cert', signed)) :
    cert' = { cert with signature := cert'.signature } ∧ (cert'.signature = cert.signature → bytes' = bytes) := by
  obtain ⟨l, henc, -, hcontents, rfl⟩ := exists_of_decode h
  obtain ⟨l', henc', -, hcontents', hsigned⟩ := exists_of_decode h'
  have hsame : signedOf l = signedOf l' := by
    have hwritten : Encodes (encodeContents (signedOf l)) (signedOf l) := henc.of_sublist List.filter_sublist
    rw [hsigned] at hwritten
    exact hwritten.unique (henc'.of_sublist List.filter_sublist)
  refine ⟨eq_of_unsignedContents ?_, fun hsignature ↦ ?_⟩
  · rw [← filter_signedOf hcontents', ← filter_signedOf hcontents, hsame]
  · have hmem : ∀ p, p ∈ l' ↔ p ∈ l := by
      intro p
      rw [mem_iff_of_contents hcontents', mem_iff_of_contents hcontents, hsame, hsignature]
    have hsorted {bytes : List UInt8} {l : Contents} (henc : Encodes bytes l) : l.Pairwise fun p q ↦ p.1 < q.1 :=
      List.pairwise_map.mp henc.increasing
    have hnodup {bytes : List UInt8} {l : Contents} (henc : Encodes bytes l) : l.Nodup :=
      List.Nodup.of_map Prod.fst (henc.increasing.imp fun hlt ↦ hlt.ne)
    have hperm : l'.Perm l := (List.perm_ext_iff_of_nodup (hnodup henc') (hnodup henc)).mpr hmem
    have heq : l' = l := hperm.eq_of_pairwise (fun p q _ _ hpq hqp ↦ absurd (hpq.trans hqp) (lt_irrefl p.1))
      (hsorted henc') (hsorted henc)
    rw [henc'.eq_encodeContents, heq, ← henc.eq_encodeContents]

/-! ### Issuers -/

/-- The signature of the issuer is on what is written before it. -/
def Signed (ed : Ed25519) (cert : EditorCert) : Prop :=
  ∃ body, cert.signedBody = .ok body ∧ verify ed cert.issuer (transcript body) cert.signature = .ok ()

/-- The issuer has signed nothing as a certificate but these. -/
def SignsOnly (ed : Ed25519) (issuer : Digest) (issued : List EditorCert) : Prop :=
  ∀ (body : List UInt8) (signature : Signature), verify ed issuer (transcript body) signature = .ok () →
    ∃ c ∈ issued, c.signedBody = .ok body

section Issuer

variable {ed : Ed25519} {bytes : List UInt8} {header : Header} {now : Option Int64} {cert : EditorCert}

/-- The checks of a certificate whose signature is good. -/
theorem verifyFor_of_decode {signed : List UInt8} (hdecode : decode bytes = .ok (cert, signed))
    (hverify : verify ed cert.issuer (transcript signed) cert.signature = .ok ()) :
    verifyFor ed bytes header now =
      if ¬knownIssuer header cert.issuer then .error .foreignIssuer
      else if cert.fileId ≠ header.fileId then .error .certificateForOtherFile
      else if ∃ t ∈ now, cert.notAfter < t then .error (.certificateExpired cert.notAfter)
      else .ok cert := by
  rw [verifyFor, hdecode]
  simp only [Except.mapError, Except.ok_bind, hverify, refuseIf]
  split_ifs <;> rfl

/-- The checks of a certificate, in the order in which the reader makes them. -/
theorem verifyFor_eq_ok_iff :
    verifyFor ed bytes header now = .ok cert ↔ ∃ signed, decode bytes = .ok (cert, signed) ∧
      knownIssuer header cert.issuer ∧ verify ed cert.issuer (transcript signed) cert.signature = .ok () ∧
      cert.fileId = header.fileId ∧ ∀ t ∈ now, t ≤ cert.notAfter := by
  constructor
  · intro h
    obtain ⟨⟨read, signed⟩, hdecode, h⟩ := Except.bind_eq_ok_iff.mp h
    obtain ⟨hknown, h⟩ := Except.check_bind_eq_ok_iff.mp h
    obtain ⟨hverify, h⟩ := Except.check_bind_eq_ok_iff.mp h
    obtain ⟨hfile, h⟩ := Except.check_bind_eq_ok_iff.mp h
    obtain ⟨htime, h⟩ := Except.check_bind_eq_ok_iff.mp h
    obtain rfl := Except.ok.inj h
    simp only [Except.refuseIf_eq_ok_iff, ne_eq, not_not, not_exists, not_and, not_lt] at hknown hfile htime
    exact ⟨signed, Except.mapError_eq_ok_iff.mp hdecode, hknown, Except.mapError_eq_ok_iff.mp hverify, hfile, htime⟩
  · intro h
    obtain ⟨signed, hdecode, hknown, hverify, hfile, htime⟩ := h
    have hlive : ¬∃ t ∈ now, cert.notAfter < t := fun ⟨t, ht, hlt⟩ ↦ absurd (htime t ht) (not_le.mpr hlt)
    rw [verifyFor_of_decode hdecode hverify, if_neg (not_not.mpr hknown), if_neg (not_not.mpr hfile), if_neg hlive]

theorem mem_tags_of_mem_contents {p : UInt16 × List UInt8} (hp : p ∈ cert.contents) : p.1 ∈ tags := by
  have htags : ∀ tag ∈ cert.contents.map Prod.fst, tag ∈ tags := fun _ ht ↦ ht
  exact htags p.1 (List.mem_map_of_mem hp)

/-- **What is written is read.** -/
theorem decode_encode (cert : EditorCert) :
    decode (encodeContents cert.contents) = .ok (cert, encodeContents cert.unsignedContents) := by
  refine (decode_eq_ok_iff cert.encodes_contents).mpr ⟨?_, ?_, by rw [signedOf_contents]⟩
  · intro p hp hunknown
    exact absurd (mem_tags_of_mem_contents hp) hunknown
  · exact List.filter_eq_self.mpr fun p hp ↦ decide_eq_true (mem_tags_of_mem_contents hp)

/-- What is accepted under the key of an issuer who signs no other certificates is written for one that it issued. -/
theorem encode_of_verifyFor {issued : List EditorCert} (honly : SignsOnly ed cert.issuer issued)
    (h : verifyFor ed bytes header now = .ok cert) :
    cert.encode = .ok bytes ∧ (∃ c ∈ issued, cert = { c with signature := cert.signature }) ∧ cert.Signed ed := by
  obtain ⟨signed, hdecode, -, hverify, -⟩ := verifyFor_eq_ok_iff.mp h
  obtain ⟨c, hc, hbody⟩ := honly signed cert.signature hverify
  rw [signedBody_eq, Except.ok.injEq] at hbody
  -- what was issued has the same signed bytes, so with this signature it is what was read
  obtain ⟨hcert, hbytes⟩ := eq_of_signed (hbody ▸ decode_encode { c with signature := cert.signature }) hdecode
  refine ⟨?_, ⟨c, hc, hcert⟩, signed, ?_, hverify⟩
  · rw [encode_eq, hbytes rfl, ← hcert]
  · rw [signedBody_eq, ← hbody, hcert]
    rfl

/-- An accepted edit was signed with a key that an issuer known to the header has certified for this file. -/
theorem certified_of_verifyEdition {sha : Sha2} {coreHash : Digest} {desc : ContentDesc} {body : List UInt8}
    {v : VerifiedEdition} {issued : List EditorCert} (honly : SignsOnly ed v.cert.issuer issued)
    (h : verifyEdition sha ed header coreHash desc body now = .ok (some v)) :
    ∃ c ∈ issued, c.fileId = header.fileId ∧ knownIssuer header c.issuer ∧ (∀ t ∈ now, t ≤ c.notAfter) ∧
      ∃ editor t, desc.editor = some editor ∧ v.cert.encode = .ok editor.certifiedBy ∧
        editorTranscript coreHash body = .ok t ∧
        Rsa.verifyPssSha256 sha c.editorKey t.asBytes editor.signature = .ok () := by
  obtain ⟨-, -, -, editor, cert, t, heditor, hcert, ht, hsigned, rfl⟩ := verifyEdition_eq_ok_some_iff.mp h
  obtain ⟨hencode, ⟨c, hc, heq⟩, -⟩ := encode_of_verifyFor honly hcert
  obtain ⟨-, -, hknown, -, hfile, htime⟩ := verifyFor_eq_ok_iff.mp hcert
  replace heq : cert = { c with signature := cert.signature } := heq
  have hfor : cert.fileId = c.fileId := by rw [heq]
  have hissuer : cert.issuer = c.issuer := by rw [heq]
  have hexpiry : cert.notAfter = c.notAfter := by rw [heq]
  have hkey : cert.editorKey = c.editorKey := by rw [heq]
  exact ⟨c, hc, hfor ▸ hfile, hissuer ▸ hknown, hexpiry ▸ htime, editor, t, heditor, hencode, ht, hkey ▸ hsigned⟩

/-- **What was issued is accepted**, for its file and by those who know the issuer, until it expires. -/
theorem issued_certificate_exact {signer : Signer} {fileId : List.Vector UInt8 16} {device : Digest}
    {editorKey : List.Vector UInt8 Rsa.modulusLen} {notAfter : Int64} (hlawful : signer.Lawful ed)
    (h : issue signer fileId device editorKey notAfter = .ok bytes) (header : Header) (now : Option Int64) :
    ∃ signature, verifyFor ed bytes header now =
      if ¬knownIssuer header signer.publicKey then .error .foreignIssuer
      else if fileId ≠ header.fileId then .error .certificateForOtherFile
      else if ∃ t ∈ now, notAfter < t then .error (.certificateExpired notAfter)
      else .ok ⟨fileId, device, editorKey, notAfter, signer.publicKey, signature⟩ := by
  obtain ⟨body, hbody, h⟩ := Except.bind_eq_ok_iff.mp h
  obtain ⟨signature, hsign, h⟩ := Except.bind_eq_ok_iff.mp h
  rw [encode_eq, Except.ok.injEq] at h
  rw [signedBody_eq, Except.ok.injEq] at hbody
  have hverify := hlawful (Except.mapError_eq_ok_iff.mp hsign)
  rw [← hbody] at hverify
  refine ⟨signature, ?_⟩
  rw [← h]
  exact verifyFor_of_decode (decode_encode _) hverify

end Issuer

theorem verify_sampleCertEd25519 {key : Digest} {t : Transcript} {signature : Signature} :
    verify sampleCertEd25519 key t signature = .ok () ↔
      key = sampleAuthorKey ∧ (transcript (encodeContents sampleCert.unsignedContents)).asBytes = t.asBytes ∧
        signature = sampleCert.signature := by
  have hstrict : sampleCertEd25519.verifyStrict key t.asBytes signature = true ↔ key = sampleAuthorKey ∧
      sampleCert.signedBody.map (fun body ↦ (transcript body).asBytes) = .ok t.asBytes ∧
        signature = sampleCert.signature := decide_eq_true_iff
  rw [signedBody_eq, Except.ok_map, Except.ok.injEq] at hstrict
  rw [verify_eq_ok_iff, ← hstrict]
  constructor
  · intro h
    obtain ⟨key', hkey, h⟩ := h
    obtain rfl := Option.some.inj hkey
    exact h
  · intro h
    exact ⟨key, rfl, h⟩

theorem encode_sampleCert : sampleCert.encode = .ok sampleCertBytes := by
  rw [sampleCertBytes, encode_eq]
  rfl

/-- The sample author signs the sample certificate. -/
def sampleAuthor : Signer where
  publicKey := sampleAuthorKey
  sign t :=
    if t.asBytes = (transcript (encodeContents sampleCert.unsignedContents)).asBytes then .ok sampleCert.signature
    else .error .badSignature

theorem sign_sampleAuthor {t : Transcript}
    (h : t.asBytes = (transcript (encodeContents sampleCert.unsignedContents)).asBytes) :
    sampleAuthor.sign t = .ok sampleCert.signature := if_pos h

/-- The sample author signs with a lawful key. -/
theorem lawful_sampleAuthor : sampleAuthor.Lawful sampleCertEd25519 := by
  intro t signature h
  by_cases ht : t.asBytes = (transcript (encodeContents sampleCert.unsignedContents)).asBytes
  · obtain rfl := Except.ok.inj ((sign_sampleAuthor ht).symm.trans h)
    exact verify_sampleCertEd25519.mpr ⟨rfl, ht.symm, rfl⟩
  · have hrefuse : sampleAuthor.sign t = .error .badSignature := if_neg ht
    exact nomatch hrefuse.symm.trans h

/-- The sample certificate is issued, and accepted. -/
theorem issued_certificate_exact_sampleCert :
    issue sampleAuthor sampleCert.fileId sampleCert.device sampleCert.editorKey sampleCert.notAfter =
        .ok sampleCertBytes ∧
      ∃ signature, verifyFor sampleCertEd25519 sampleCertBytes (editedHeader (Policy.denyAll.allow .edit)) (some 0) =
        .ok { sampleCert with signature } := by
  have hissue : issue sampleAuthor sampleCert.fileId sampleCert.device sampleCert.editorKey sampleCert.notAfter =
      .ok sampleCertBytes :=
    (issue_of_sign rfl (sign_sampleAuthor rfl)).trans encode_sampleCert
  obtain ⟨signature, h⟩ := issued_certificate_exact lawful_sampleAuthor hissue
    (editedHeader (Policy.denyAll.allow .edit)) (some 0)
  refine ⟨hissue, signature, h.trans ?_⟩
  have hknown : knownIssuer (editedHeader (Policy.denyAll.allow .edit)) sampleAuthorKey := Or.inl rfl
  have hlive : ¬∃ t ∈ some (0 : Int64), sampleCert.notAfter < t := by decide
  exact (if_neg (not_not.mpr hknown)).trans ((if_neg (not_not.mpr rfl)).trans (if_neg hlive))

end OpenCrate.Format.EditorCert
