import OpenCrate.Format.Header

/-!
# Headers, back and forth

The writer and the reader of a header check it independently. What the reader demands beyond the
writer is `Header.Readable`. A readable header that was written is read back (`decode_encode`), and
every header that was read is readable and can be written again (`of_decode`).

The writer does not check all of it. A suite or a protection class that the reader refuses is written
without objection.
-/

namespace OpenCrate.Format

open Crypto
open Except (refuseIf okOr)

/-! ### Reading what was written -/

/-- What the reader demands of a header beyond what the writer checks. -/
structure Header.Readable (header : Header) : Prop where
  suite : header.suite = Suite.supported
  policy : PolicyCodec.IsNormal header.containerVersion header.policy
  slots : ∀ slot ∈ header.keySlots, slot.Readable header.containerVersion
  class_ : header.class_ = localClass
  coauthors : header.coauthors ≠ none → firstCoauthorsVersion ≤ header.containerVersion

/-- The nested records are read back. -/
structure Header.Decoded (header : Header) (parts : EncodedParts) : Prop where
  suite : decodeSuite parts.suite = .ok header.suite
  policy : PolicyCodec.decode header.containerVersion parts.policy = .ok header.policy
  slots : decodeSlots header.containerVersion parts.slots = .ok header.keySlots
  authority : decodeAuthority parts.authority = .ok header.authority
  coauthors : List.Forall₂ (fun bytes coauthors ↦ decodeCoauthors bytes = .ok coauthors)
    parts.coauthors.toList header.coauthors.toList

theorem Header.Encoded.decoded {header : Header} {parts : EncodedParts} (h : header.Encoded parts)
    (hr : header.Readable) : header.Decoded parts := by
  have hsuite : decodeSuite parts.suite = .ok header.suite := by
    have := (encodeSuite_eq_ok_iff.mp h.suite).2
    rw [hr.suite] at this ⊢
    exact decodeSuite_supported this
  have hpolicy : PolicyCodec.decode header.containerVersion parts.policy = .ok header.policy := by
    obtain ⟨bytes, hbytes, -, hdecode⟩ := PolicyCodec.decode_encode hr.policy
    rwa [Except.ok.inj (h.policy.symm.trans hbytes)]
  obtain ⟨hvalid, urls, hurls, hauthority⟩ := encodeAuthority_eq_ok_iff.mp h.authority
  refine ⟨hsuite, hpolicy, decodeSlots_encodeSlots hr.slots h.fewSlots h.slots,
    decodeAuthority_encode hvalid hurls hauthority, ?_⟩
  have hco := h.coauthors
  unfold Header.coauthorsBytes at hco
  rcases hc : header.coauthors with - | c
  · simp only [hc, ite_self, Except.ok.injEq] at hco
    rw [← hco]
    exact .nil
  · rw [if_pos (hr.coauthors (by simp [hc])), hc] at hco
    obtain ⟨bytes, hbytes, hsome⟩ := Except.map_eq_ok_iff.mp hco
    obtain ⟨hcheck, henc⟩ := encodeCoauthors_eq_ok_iff.mp hbytes
    rw [← hsome]
    exact .cons (decodeCoauthors_encode hcheck henc) .nil

/-- Reading the fields before the first optional one. -/
theorem foldlM_contentsHead {header : Header} {parts : EncodedParts}
    (hsize : checkChunkSize header.chunkSize = .ok header.chunkSize) (h : header.Decoded parts) :
    ∃ policyValue keySlotsRecord,
      (fieldsOf 0 (header.contentsHead parts)).foldlM decodeStep {} = .ok
        { containerVersion := header.containerVersion, minReaderVersion := header.minReaderVersion,
          fileId := header.fileId, suite := header.suite, authorKey := header.authorKey,
          headerSalt := header.headerSalt, chunkSize := header.chunkSize,
          originalRoot := header.originalRoot, policy := header.policy,
          policyValue := some policyValue, keySlots := header.keySlots,
          keySlotsRecord := some keySlotsRecord, authority := header.authority,
          privateMeta := header.privateMeta } := by
  simp only [Header.contentsHead, fieldsOf, List.foldlM_cons, Except.foldlM_nil, decodeStep,
    recordSpan_mk, Except.ok_bind, decodeField, Field.u16_mk, Field.array_mk, Field.u32_mk, h.suite,
    h.policy, h.slots, h.authority, hsize, Except.okOr_some, Except.ok_map, HeaderReading.assign]
  exact ⟨_, _, rfl⟩

/-- Reading an optional field. -/
theorem foldlM_prevHeaderHash (offset : ℕ) (hash : Option Digest) {acc : HeaderReading}
    (hacc : acc.prevHeaderHash = none) :
    (fieldsOf offset (optField 13 (hash.map List.Vector.toList))).foldlM decodeStep acc =
      .ok { acc with prevHeaderHash := hash } := by
  rcases hash with - | hash
  · cases acc
    cases hacc
    rfl
  · simp [fieldsOf, decodeStep, decodeField, Except.ok_map, HeaderReading.assign]

theorem foldlM_footerOffset (offset : ℕ) (footer : Option UInt64) {acc : HeaderReading}
    (hacc : acc.footerOffset = none) :
    (fieldsOf offset (optField 16 (footer.map toLeBytes))).foldlM decodeStep acc =
      .ok { acc with footerOffset := footer } := by
  rcases footer with - | footer
  · cases acc
    cases hacc
    rfl
  · simp [fieldsOf, decodeStep, decodeField, Except.ok_map, HeaderReading.assign]

theorem foldlM_coauthors (offset : ℕ) {bytes : Option (List UInt8)} {coauthors : Option Coauthors}
    (h : List.Forall₂ (fun bytes coauthors ↦ decodeCoauthors bytes = .ok coauthors)
      bytes.toList coauthors.toList) {acc : HeaderReading}
    (hversion : coauthors ≠ none → firstCoauthorsVersion ≤ versionSoFar acc.containerVersion)
    (hacc : acc.coauthors = none) :
    (fieldsOf offset (optField 0x8001 bytes)).foldlM decodeStep acc =
      .ok { acc with coauthors := coauthors } := by
  rcases coauthors with - | coauthors <;> rcases bytes with - | bytes
  · cases acc
    cases hacc
    rfl
  · exact nomatch h
  · exact nomatch h
  · obtain ⟨hdecode, -⟩ := List.forall₂_cons.mp h
    simp [fieldsOf, decodeStep, decodeField, hversion, hdecode, Except.ok_map, HeaderReading.assign]

/-- **What the writer produces, the reader accepts**, if the header asks for nothing that the reader
does not support. -/
theorem Header.decode_encode {header : Header} {bytes : List UInt8} (hr : header.Readable)
    (h : header.encode = .ok bytes) :
    ∃ parsed, Header.decode bytes = .ok parsed ∧ parsed.header = header := by
  obtain ⟨parts, hparts, henc⟩ := Header.encode_eq_ok_iff.mp h
  have hdecoded := hparts.decoded hr
  obtain ⟨policyValue, keySlotsRecord, hhead⟩ := foldlM_contentsHead hparts.chunkSize hdecoded
  rw [Header.decode, henc.foldFields, Header.contents]
  simp only [fieldsOf_append, List.foldlM_append, bind_assoc, hhead, Except.ok_bind]
  rw [foldlM_prevHeaderHash _ _ rfl, Except.ok_bind]
  simp only [fieldsOf, List.foldlM_cons, Except.foldlM_nil, decodeStep, recordSpan_mk,
    Except.ok_bind, decodeField, Field.u8_mk, Except.refuseIf_of_not (not_not.mpr hr.class_),
    Except.ok_map, HeaderReading.assign]
  rw [foldlM_footerOffset _ _ rfl, Except.ok_bind]
  simp only [Field.array_mk, Except.ok_bind, Except.ok_map]
  rw [foldlM_coauthors _ hdecoded.coauthors (by exact hr.coauthors) rfl]
  exact ⟨_, rfl, rfl⟩

namespace Header

theorem contents_increasing (header : Header) (parts : EncodedParts) :
    ((header.contents parts).map Prod.fst).Pairwise (· < ·) := by
  have htags : [(1 : UInt16), 2, 3, 4, 5, 6, 7, 8, 9, 10, 11, 12, 13, 14, 15, 16, 17,
      0x8001].Pairwise (· < ·) := by decide
  refine htags.sublist ?_
  simp only [contents, List.map_append]
  exact (((((List.Sublist.refl [1, 2, 3, 4, 5, 6, 7, 8, 9, 10, 11, 12]).append
    (optField_tags_sublist 13 _)).append (List.Sublist.refl [14, 15])).append
    (optField_tags_sublist 16 _)).append (List.Sublist.refl [17])).append
    (optField_tags_sublist 0x8001 _)

/-- The values of a header fit if those of variable length do. -/
theorem contents_fits (header : Header) (parts : EncodedParts)
    (hsuite : parts.suite.length < 2 ^ 32) (hpolicy : parts.policy.length < 2 ^ 32)
    (hslots : parts.slots.length < 2 ^ 32) (hauthority : parts.authority.length < 2 ^ 32)
    (hcoauthors : ∀ b, parts.coauthors = some b → b.length < 2 ^ 32)
    (hmeta : header.privateMeta.length < 2 ^ 32) (horg : header.orgId.length < 2 ^ 32) :
    ∀ p ∈ header.contents parts, p.2.length < 2 ^ 32 := by
  have hprev : ∀ v, header.prevHeaderHash.map List.Vector.toList = some v → v.length < 2 ^ 32 := by
    intro v hv
    obtain ⟨hash, -, rfl⟩ := Option.map_eq_some_iff.mp hv
    rw [hash.toList_length]
    decide
  have hfooter : ∀ v, header.footerOffset.map toLeBytes = some v → v.length < 2 ^ 32 := by
    intro v hv
    obtain ⟨offset, -, rfl⟩ := Option.map_eq_some_iff.mp hv
    rw [length_toLeBytes]
    decide
  simp only [contents, contentsHead, List.forall_mem_append, List.forall_mem_cons,
    forall_mem_optField, length_toLeBytes, List.Vector.toList_length, List.not_mem_nil,
    IsEmpty.forall_iff, implies_true, and_true, List.length_singleton]
  exact ⟨⟨⟨⟨⟨⟨by decide, by decide, by decide, hsuite, by decide, by decide, by decide, by decide,
    hpolicy, hslots, hauthority, hmeta⟩, hprev⟩, horg, by decide⟩, hfooter⟩, by decide⟩, hcoauthors⟩

/-- A header is written when its parts are. -/
theorem exists_encode_of_parts {header : Header} {policy slots : List UInt8}
    {coauthors : Option (List UInt8)} (hchunkSize : checkChunkSize header.chunkSize = .ok header.chunkSize)
    (hfew : header.keySlots.length ≤ maxKeySlots) (hsuite : header.suite = Suite.supported)
    (hpolicy : PolicyCodec.encode header.containerVersion header.policy = .ok policy)
    (hpolicyLen : policy.length < 2 ^ 32)
    (hslots : encodeSlots header.containerVersion header.keySlots = .ok slots)
    (hslotsLen : slots.length < 2 ^ 32) (hauthority : header.authority.Valid)
    (hcoauthors : header.coauthorsBytes = .ok coauthors)
    (hcoauthorsLen : ∀ b, coauthors = some b → b.length < 2 ^ 32)
    (hmeta : header.privateMeta.length < 2 ^ 32) (horg : header.orgId.length < 2 ^ 32) :
    ∃ bytes, header.encode = .ok bytes := by
  obtain ⟨suite, hencodeSuite, hsuiteLen⟩ := exists_encodeSuite_supported
  obtain ⟨authority, hencodeAuthority, hauthorityLen⟩ := hauthority.exists_encode
  have hparts : header.Encoded ⟨suite, policy, slots, authority, coauthors⟩ :=
    ⟨hchunkSize, hfew, hsuite ▸ hencodeSuite, hpolicy, hslots, hencodeAuthority, hcoauthors⟩
  have hfits := header.contents_fits ⟨suite, policy, slots, authority, coauthors⟩ hsuiteLen hpolicyLen
    hslotsLen hauthorityLen hcoauthorsLen hmeta horg
  obtain ⟨bytes, henc⟩ := Encodes.exists_iff.mpr ⟨header.contents_increasing _, hfits⟩
  exact ⟨bytes, encode_eq_ok_iff.mpr ⟨_, hparts, henc⟩⟩

/-- What was read can be written again. -/
theorem of_decode {bytes : List UInt8} {parsed : ParsedHeader}
    (h : Header.decode bytes = .ok parsed) :
    parsed.header.Readable ∧ ∃ bytes', parsed.header.encode = .ok bytes' := by
  obtain ⟨version, l, acc, -, -, -, hacc, hfinish⟩ := exists_of_decode h
  obtain rfl := finish_eq_ok_iff.mp hfinish
  obtain ⟨header, spans⟩ := parsed
  obtain rfl : header.containerVersion = version := Option.some_inj.mp hacc.containerVersion
  have hsuite : header.suite = Suite.supported := hacc.suite _ rfl
  obtain ⟨_, ⟨⟩, hpolicy⟩ := hacc.policy _ rfl
  obtain ⟨_, ⟨⟩, hfew, hslots, slots, hencodeSlots, hslotsLen⟩ := hacc.keySlots _ rfl
  have hcoauthors := hacc.coauthors
  refine ⟨⟨hsuite, hpolicy, hslots, hacc.class_ _ rfl, ?_⟩, ?_⟩
  · intro hsome
    obtain ⟨c, hc⟩ := Option.ne_none_iff_exists'.mp hsome
    exact (hcoauthors c hc).1
  · obtain ⟨policy, hencodePolicy, hpolicyLen, -⟩ := PolicyCodec.decode_encode hpolicy
    obtain ⟨coauthors, hencodeCoauthors, hcoauthorsLen⟩ :
        ∃ c, header.coauthorsBytes = .ok c ∧ ∀ b, c = some b → b.length < 2 ^ 32 := by
      unfold coauthorsBytes
      split_ifs
      · rcases hc : header.coauthors with - | c
        · exact ⟨none, rfl, fun _ ↦ nofun⟩
        · obtain ⟨b, hb, hlen⟩ := exists_encodeCoauthors (hcoauthors c hc).2
          refine ⟨some b, Except.map_eq_ok_iff.mpr ⟨b, hb, rfl⟩, ?_⟩
          rintro _ ⟨⟩
          exact hlen
      · exact ⟨none, rfl, fun _ ↦ nofun⟩
    exact exists_encode_of_parts (hacc.chunkSize _ rfl) hfew hsuite hencodePolicy hpolicyLen hencodeSlots
      hslotsLen (hacc.authority _ rfl) hencodeCoauthors hcoauthorsLen (hacc.privateMeta _ rfl)
      (hacc.orgId _ rfl)

end Header

/-! ### Losslessness -/

/-- **Re-encoding is lossless.** Whatever bytes the reader accepts, the header that it read can be
written again, and what is then written is read as the same header. -/
theorem reencode_lossless {bytes : List UInt8} {parsed : ParsedHeader}
    (h : Header.decode bytes = .ok parsed) :
    ∃ bytes' parsed', parsed.header.encode = .ok bytes' ∧
      Header.decode bytes' = .ok parsed' ∧ parsed'.header = parsed.header := by
  obtain ⟨hreadable, bytes', hbytes'⟩ := Header.of_decode h
  obtain ⟨parsed', hparsed', heq⟩ := Header.decode_encode hreadable hbytes'
  exact ⟨bytes', parsed', hbytes', hparsed', heq⟩

/-- A key of an author. -/
def sampleAuthorKey : Digest :=
  ⟨[0x8a, 0x88, 0xe3, 0xdd, 0x74, 0x09, 0xf1, 0x95, 0xfd, 0x52, 0xdb, 0x2d, 0x3c, 0xba, 0x5d, 0x72,
    0xca, 0x67, 0x09, 0xbf, 0x1d, 0x94, 0x12, 0x1b, 0xf3, 0x74, 0x88, 0x01, 0xb4, 0x0f, 0x6f, 0x5c],
    rfl⟩

/-- A header of the current version with one slot, for the author's device. -/
def sampleHeader : Header where
  containerVersion := 5
  minReaderVersion := 5
  fileId := List.Vector.replicate 16 0x11
  suite := ⟨.ed25519, .xChaCha20Poly1305, .blake3⟩
  authorKey := sampleAuthorKey
  headerSalt := List.Vector.replicate 32 0x22
  chunkSize := 65536
  originalRoot := List.Vector.replicate 32 0x33
  policy := Policy.denyAll.allow .view
  keySlots := [.known {
    kind := .authorDevice
    kem := .x25519HkdfSha256
    enc := List.replicate 32 0x44
    nonce := List.Vector.replicate 24 0x01
    ct := List.replicate 48 0x55
    commitment := List.Vector.replicate 32 0x66
    keyFpr := some (List.replicate 32 0x77)
    claimCommit := none }]
  authority := {
    urls := ["https://cc.example/api"]
    sealingKid := List.Vector.replicate 32 0x88
    leaseVerifyKey := List.Vector.replicate 32 0x99 }
  privateMeta := List.replicate 64 0xaa
  prevHeaderHash := none
  orgId := utf8 "org"
  class_ := 0
  footerOffset := none
  wrappedCek := List.Vector.replicate wrappedCekLen 0xbb
  coauthors := none

/-- The bytes of a header that can be written. -/
def Header.bytes (header : Header) : List UInt8 := header.encode.toOption.getD []

/-- An optional field that this client does not know. -/
def unknownRecord : List UInt8 := [0x00, 0x90, 2, 0, 0, 0, 7, 7]

/-- The law at a header with a field that the reader skips: the field is lost, the header is not. -/
theorem reencode_lossless_skipped_field :
    ∃ parsed, Header.decode (sampleHeader.bytes ++ unknownRecord) = .ok parsed ∧
      parsed.header = sampleHeader ∧
      ∃ bytes' parsed', parsed.header.encode = .ok bytes' ∧
        Header.decode bytes' = .ok parsed' ∧ parsed'.header = parsed.header := by
  have hread : ((Header.decode (sampleHeader.bytes ++ unknownRecord)).map (·.header)) =
      .ok sampleHeader := by decide +kernel
  obtain ⟨parsed, hparsed, hheader⟩ := Except.map_eq_ok_iff.mp hread
  exact ⟨parsed, hparsed, hheader, reencode_lossless hparsed⟩

/-! ### What the writer does not check -/

/-- A header of the current version, with a policy in the form in which it is decoded and with slots
that are kept as they were read. -/
structure Header.Current (header : Header) : Prop where
  version : header.containerVersion = 5
  unknownActions : ∀ t ∈ header.policy.unknownActions, ¬(1 ≤ t ∧ t ≤ 6)
  noDeny : ∀ a, header.policy.actions.get? a ≠ some .deny
  noSoftware : ∀ a, header.policy.actionBinding.get? a ≠ some .software
  unknownSlots : ∀ kind raw, .unknown kind raw ∈ header.keySlots →
    decodeSlot 5 raw = .ok (.unknown kind raw)

/-- Of a current header that was written, the reader refuses the suite or the class, or nothing. -/
theorem Header.Current.readable {header : Header} {bytes : List UInt8} (hc : header.Current)
    (h : header.encode = .ok bytes) (hsig : header.suite.sig = .ed25519)
    (haead : header.suite.aead = .xChaCha20Poly1305) (hclass : header.class_ = 0) :
    header.Readable := by
  obtain ⟨parts, hparts⟩ := Header.exists_encoded h
  have htree := (encodeSuite_eq_ok_iff.mp hparts.suite).1
  have hfour : ¬header.containerVersion < PolicyCodec.firstActionBindingVersion := by
    rw [hc.version]
    decide
  refine ⟨?_, ⟨hc.noDeny, hc.noSoftware, fun t ht ↦ ?_, fun hlt ↦ absurd hlt hfour⟩, ?_, hclass, ?_⟩
  · rcases hs : header.suite with ⟨sig, aead, treeHash⟩
    rw [hs] at hsig haead htree
    obtain rfl := hsig
    obtain rfl := haead
    obtain rfl := htree
    rfl
  · exact PolicyCodec.tagToAction_eq_none_iff.mpr (hc.unknownActions t ht)
  · intro slot hslot
    cases slot with
    | known slot => exact trivial
    | unknown kind raw =>
      show decodeSlot header.containerVersion raw = _
      rw [hc.version]
      exact hc.unknownSlots kind raw hslot
  · intro _
    rw [hc.version]
    decide

/-- What the writer produced and the reader accepted has the supported suite and the local class. -/
theorem Header.supported_of_decode {header : Header} {bytes : List UInt8} {parsed : ParsedHeader}
    (h : header.encode = .ok bytes) (hparsed : Header.decode bytes = .ok parsed) :
    header.suite = Suite.supported ∧ header.class_ = localClass := by
  obtain ⟨parts, hparts, henc⟩ := Header.encode_eq_ok_iff.mp h
  obtain ⟨l, hl, hfold⟩ := exists_reading_of_decode hparsed
  obtain rfl := henc.unique hl
  -- each of the two fields has passed its check
  have hstep : ∀ tag value, (tag, value) ∈ header.contents parts →
      ∃ version span record a, decodeField version ⟨tag, value, span⟩ record = .ok a := by
    intro tag value hmem
    obtain ⟨span, hfield⟩ := exists_mem_fieldsOf 0 hmem
    obtain ⟨c, c', hc⟩ := Except.exists_of_mem_foldlM hfold hfield
    obtain ⟨record, -, hc⟩ := Except.bind_eq_ok_iff.mp hc
    obtain ⟨a, ha, -⟩ := Except.map_eq_ok_iff.mp hc
    exact ⟨_, span, record, a, ha⟩
  constructor
  · obtain ⟨_, _, _, _, hsuite⟩ := hstep 4 parts.suite
      (by simp [Header.contents, Header.contentsHead])
    obtain ⟨suite, hsuite, -⟩ := Except.map_eq_ok_iff.mp hsuite
    exact eq_supported_of_decodeSuite_contents (encodeSuite_eq_ok_iff.mp hparts.suite).2 hsuite
  · obtain ⟨_, _, _, _, hclass⟩ := hstep 15 [header.class_]
      (by simp [Header.contents])
    obtain ⟨value, hvalue, hclass⟩ := Except.bind_eq_ok_iff.mp hclass
    obtain ⟨hclass, -⟩ := Except.check_bind_eq_ok_iff.mp hclass
    rw [Except.refuseIf_eq_ok_iff, not_not] at hclass
    rw [Field.u8_eq_ok_iff, List.singleton_inj] at hvalue
    rw [hvalue, hclass]

/-- **Which headers survive.** A current header that was written is read back as itself exactly if
its suite is the one that the reader supports and its class is local. -/
theorem decode_encode_iff {header : Header} {bytes : List UInt8} (hc : header.Current)
    (h : header.encode = .ok bytes) :
    (∃ parsed, Header.decode bytes = .ok parsed ∧ parsed.header = header) ↔
      header.suite.sig = .ed25519 ∧ header.suite.aead = .xChaCha20Poly1305 ∧ header.class_ = 0 := by
  constructor
  · rintro ⟨parsed, hparsed, rfl⟩
    obtain ⟨hreadable, -⟩ := Header.of_decode hparsed
    rw [hreadable.suite]
    exact ⟨rfl, rfl, hreadable.class_⟩
  · rintro ⟨hsig, haead, hclass⟩
    exact Header.decode_encode (hc.readable h hsig haead hclass) h

theorem current_sampleHeader : sampleHeader.Current where
  version := rfl
  unknownActions t ht := absurd ht (BTreeSet.not_mem_empty t)
  noDeny a := by cases a <;> decide
  noSoftware a := by cases a <;> decide
  unknownSlots kind raw h := by simp [sampleHeader] at h

/-- The law at a header that survives. -/
theorem decode_encode_sampleHeader :
    sampleHeader.encode = .ok sampleHeader.bytes ∧
      ∃ parsed, Header.decode sampleHeader.bytes = .ok parsed ∧ parsed.header = sampleHeader := by
  have hbytes : sampleHeader.encode = .ok sampleHeader.bytes := by decide +kernel
  exact ⟨hbytes, (decode_encode_iff current_sampleHeader hbytes).mpr ⟨rfl, rfl, rfl⟩⟩

/-- A header of a class that is reserved. -/
def classOneHeader : Header := { sampleHeader with class_ := 1 }

/-- The writer writes the reserved class, the reader refuses it. -/
theorem class_one_written_not_read :
    classOneHeader.Current ∧ classOneHeader.encode = .ok classOneHeader.bytes ∧
      Header.decode classOneHeader.bytes = .error (.unsupportedClass 1) ∧
      ¬∃ parsed, Header.decode classOneHeader.bytes = .ok parsed ∧
        parsed.header = classOneHeader := by
  have hread : Header.decode classOneHeader.bytes = .error (.unsupportedClass 1) := by
    decide +kernel
  refine ⟨{ current_sampleHeader with }, by decide +kernel, hread, ?_⟩
  rintro ⟨parsed, hparsed, -⟩
  exact nomatch hread.symm.trans hparsed

end OpenCrate.Format
