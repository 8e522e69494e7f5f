import OpenCrate.Format.CoreHash
import OpenCrate.Format.PolicyMeaning

/-!
# A header that is written twice

The packer writes a header without key material, binds key material to two hashes of it, and writes the
header again. What it relies on: the hash of the core and the hash of the policy are the same for both
headers, and what is read back is what was written, with the policy in its normal form.
-/

namespace OpenCrate.Format

open Crypto
open Except (refuseIf okOr)

/-! ### The hash of the policy -/

/-- Policy hash over its byte range. -/
def Header.policyHash (sha256 : List UInt8 → Digest) (bytes : List UInt8) (spans : HeaderSpans) :
    Except FormatError Digest := do
  let value ← okOr (slice? bytes spans.policyValue.start spans.policyValue.stop) .offsetOverflow
  .ok (sha256 (Label.policyHash.asBytes ++ [0x00] ++ value))

/-- The range is that of the value of a field with the tag. -/
def ValueAt (l : Contents) (tag : UInt16) (value : List UInt8) (range : Span) : Prop :=
  ∃ pre post, l = pre ++ [(tag, value)] ++ post ∧
    range = ⟨encodedLength pre + fieldPrefixLen,
      encodedLength pre + fieldPrefixLen + value.length⟩

theorem ValueAt.slice? {bytes value : List UInt8} {l : Contents} {tag : UInt16} {range : Span}
    (h : Encodes bytes l) (hvalue : ValueAt l tag value range) :
    slice? bytes range.start range.stop = some value := by
  obtain ⟨pre, post, rfl, rfl⟩ := hvalue
  have hbytes : bytes = (encodeContents pre ++
      (toLeBytes tag ++ toLeBytes (UInt32.ofNat value.length))) ++
        (value ++ encodeContents post) := by
    rw [h.eq_encodeContents, encodeContents_append, encodeContents_append]
    simp [encodeContents]
  have hlen : (encodeContents pre ++
      (toLeBytes tag ++ toLeBytes (UInt32.ofNat value.length))).length =
        encodedLength pre + fieldPrefixLen := by
    rw [List.length_append, length_encodeContents, List.length_append, length_toLeBytes,
      length_toLeBytes]
    rfl
  rw [hbytes, ← hlen]
  exact slice?_append _ value _

/-- Only the field of the policy assigns the range of the policy. -/
theorem policyValue_assign {version : Option UInt16} {field : Field} {record range : Span}
    {a : Assignment} {acc : HeaderReading} (h : decodeField version field record = .ok a)
    (hrange : (acc.assign a).policyValue = some range) :
    acc.policyValue = some range ∨ field.tag = 9 ∧ range = field.span := by
  cases a with
  | policy policy value =>
    refine Or.inr ?_
    obtain rfl : value = range := Option.some_inj.mp hrange
    unfold decodeField at h
    split at h
    case h_9 htag =>
      simp only [Except.bind_eq_ok_iff, Except.ok.injEq, Assignment.policy.injEq] at h
      obtain ⟨_, -, _, -, -, hspan⟩ := h
      exact ⟨htag, hspan.symm⟩
    case h_18 =>
      split_ifs at h
      · simp [Except.map_eq_ok_iff] at h
      · exact absurd (eq_of_skipUnknown h) (by simp)
    case h_19 => exact absurd (eq_of_skipUnknown h) (by simp)
    all_goals simp [Except.map_eq_ok_iff, Except.bind_eq_ok_iff] at h
  | _ => exact Or.inl hrange

/-- What a run over the fields of a document has read as the policy. -/
theorem exists_policyValue {l : Contents} {acc : HeaderReading} {range : Span}
    (h : (fieldsOf 0 l).foldlM decodeStep {} = .ok acc) (hrange : acc.policyValue = some range) :
    ∃ value, ValueAt l 9 value range := by
  have hall : ∀ range, acc.policyValue = some range → ∃ value, ValueAt l 9 value range := by
    refine Except.foldlM_invariant
      (P := fun acc : HeaderReading ↦ ∀ range, acc.policyValue = some range →
        ∃ value, ValueAt l 9 value range) h nofun ?_
    intro field hfield c c' hc hstep range hrange
    obtain ⟨record, -, hstep⟩ := Except.bind_eq_ok_iff.mp hstep
    obtain ⟨a, ha, rfl⟩ := Except.map_eq_ok_iff.mp hstep
    rcases policyValue_assign ha hrange with hold | ⟨htag, rfl⟩
    · exact hc range hold
    · obtain ⟨pre, post, hl, hspan⟩ := exists_of_mem_fieldsOf hfield
      refine ⟨field.value, pre, post, ?_, ?_⟩
      · rw [hl, htag, List.append_assoc]
        rfl
      · rw [hspan, Nat.zero_add]
  exact hall range hrange

/-- **What is hashed is the policy that was written.** -/
theorem policyHash_encode (sha256 : List UInt8 → Digest) {header : Header} {bytes : List UInt8}
    {parsed : ParsedHeader} (h : header.encode = .ok bytes)
    (hparsed : Header.decode bytes = .ok parsed) :
    ∃ policy, PolicyCodec.encode header.containerVersion header.policy = .ok policy ∧
      Header.policyHash sha256 bytes parsed.spans =
        .ok (sha256 (Label.policyHash.asBytes ++ [0x00] ++ policy)) := by
  obtain ⟨parts, hparts, henc⟩ := Header.encode_eq_ok_iff.mp h
  obtain ⟨l, hl, hfold⟩ := exists_reading_of_decode hparsed
  obtain rfl := henc.unique hl
  obtain ⟨value, hvalue⟩ := exists_policyValue hfold rfl
  have hslice := hvalue.slice? henc
  -- no other field of the document has the tag of the policy
  obtain ⟨pre, post, hcontents, -⟩ := hvalue
  have htags := henc.increasing
  have hmem : ((9, parts.policy) : UInt16 × List UInt8) ∈ header.contents parts := by
    simp [Header.contents, Header.contentsHead]
  rw [hcontents] at htags hmem
  obtain ⟨hpre, hpost⟩ := ne_of_increasing htags
  obtain rfl : parts.policy = value := by
    rcases List.mem_append.mp hmem with hmem | hmem
    · rcases List.mem_append.mp hmem with hmem | hmem
      · exact absurd rfl (hpre _ hmem)
      · exact (Prod.mk.inj (List.mem_singleton.mp hmem)).2
    · exact absurd rfl (hpost _ hmem)
  refine ⟨parts.policy, hparts.policy, ?_⟩
  rw [Header.policyHash, hslice]
  rfl

/-- Key material does not enter the hash of the policy. -/
theorem policyHash_with_keyMaterial (sha256 : List UInt8 → Digest) {header : Header}
    {keySlots : List KeySlot} {wrappedCek : List.Vector UInt8 wrappedCekLen}
    {bytes bytes' : List UInt8} {parsed parsed' : ParsedHeader} (h : header.encode = .ok bytes)
    (h' : { header with keySlots, wrappedCek }.encode = .ok bytes')
    (hparsed : Header.decode bytes = .ok parsed) (hparsed' : Header.decode bytes' = .ok parsed') :
    Header.policyHash sha256 bytes' parsed'.spans = Header.policyHash sha256 bytes parsed.spans := by
  obtain ⟨policy, hpolicy, hhash⟩ := policyHash_encode sha256 h hparsed
  obtain ⟨policy', hpolicy', hhash'⟩ := policyHash_encode sha256 h' hparsed'
  obtain rfl := Except.ok.inj (hpolicy.symm.trans hpolicy')
  rw [hhash, hhash']

/-! ### The hash of the core -/

/-- Every accepted header has a hash of its core. -/
theorem coreHash_of_decode (sha256 : List UInt8 → Digest) {bytes : List UInt8} {parsed : ParsedHeader}
    (h : Header.decode bytes = .ok parsed) :
    ∃ l, Encodes bytes l ∧ Header.coreHash sha256 bytes parsed.spans = .ok (sha256 (coreBytes l)) := by
  obtain ⟨l, henc, hfold⟩ := exists_reading_of_decode h
  refine ⟨l, henc, ?_⟩
  rw [Header.coreHash, corePreimage_eq henc (.run hfold), Except.ok_map]

/-- Key material does not enter the hash of the core. -/
theorem coreHash_with_keyMaterial (sha256 : List UInt8 → Digest) {header : Header}
    {keySlots : List KeySlot} {wrappedCek : List.Vector UInt8 wrappedCekLen}
    {bytes bytes' : List UInt8} {parsed parsed' : ParsedHeader} (h : header.encode = .ok bytes)
    (h' : { header with keySlots, wrappedCek }.encode = .ok bytes')
    (hparsed : Header.decode bytes = .ok parsed) (hparsed' : Header.decode bytes' = .ok parsed') :
    Header.coreHash sha256 bytes' parsed'.spans = Header.coreHash sha256 bytes parsed.spans := by
  obtain ⟨l, henc, hhash⟩ := coreHash_of_decode sha256 hparsed
  obtain ⟨l', henc', hhash'⟩ := coreHash_of_decode sha256 hparsed'
  have hfields := coreFields_encode h h'
  rw [henc.coreFields, henc'.coreFields, Except.ok.injEq] at hfields
  rw [hhash, hhash', (coreBytes_eq_iff henc henc').mpr hfields]

/-! ### The header that is read back -/

/-- The header as it is read back, with its policy in normal form. -/
def Header.normal (header : Header) : Header :=
  { header with policy := PolicyCodec.normal header.containerVersion header.policy }

/-- A header and its normal form are written alike. -/
theorem Header.encode_normalForm (header : Header) : header.normal.encode = header.encode := by
  show Header.encode { header with policy := _ } = _
  simp only [Header.encode, PolicyCodec.encode_normal]
  rfl

/-- A header of the current version is read back in its normal form, if its slots are known ones. -/
theorem Header.decode_normalForm {header : Header} {bytes : List UInt8}
    (hversion : header.containerVersion = 5) (hsuite : header.suite = Suite.supported)
    (hclass : header.class_ = localClass) (hslots : ∀ slot ∈ header.keySlots, ∃ s, slot = .known s)
    (h : header.encode = .ok bytes) :
    ∃ parsed, Header.decode bytes = .ok parsed ∧ parsed.header = header.normal := by
  rw [← header.encode_normalForm] at h
  have hreadable : header.normal.Readable := by
    refine ⟨hsuite, PolicyCodec.isNormal_normal _ _, ?_, hclass, ?_⟩
    · intro slot hslot
      obtain ⟨s, rfl⟩ := hslots slot hslot
      exact trivial
    · intro _
      show firstCoauthorsVersion ≤ header.containerVersion
      rw [hversion]
      decide
  exact Header.decode_encode hreadable h

end OpenCrate.Format
