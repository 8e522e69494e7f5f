import OpenCrate.Format.HeaderParts
import OpenCrate.Format.PolicyCodec

/-!
# The container header

`Header` of `oc-format`: the region signed by the author, with its reader and its writer. The reader
returns the header together with the ranges of some of its fields, so that hashes are computed over
the original bytes and not over a re-encoding.

The reader folds `decodeStep` over the fields. The version is the first of them or there is none
(`exists_of_decode`); from then on the version is fixed, and what every later step keeps is
`HeaderReading.Sound`.
-/

namespace OpenCrate.Format

open Except (refuseIf okOr)

/-! ### The data -/

/-- Length of the wrapped content key: nonce, key, and authentication code. -/
def wrappedCekLen : ℕ := 24 + 32 + 16

/-- Parsed header. -/
structure Header where
  containerVersion : UInt16
  minReaderVersion : UInt16
  fileId : List.Vector UInt8 16
  suite : Suite
  authorKey : Digest
  headerSalt : Digest
  chunkSize : UInt32
  originalRoot : Digest
  policy : Policy
  keySlots : List KeySlot
  authority : Authority
  /-- Sealed block: the real file name and informational size. -/
  privateMeta : List UInt8
  prevHeaderHash : Option Digest
  orgId : List UInt8
  /-- Protection class; zero means local. -/
  class_ : UInt8
  footerOffset : Option UInt64
  wrappedCek : List.Vector UInt8 wrappedCekLen
  coauthors : Option Coauthors
  deriving DecidableEq

/-- Ranges of fields within the parsed buffer. -/
structure HeaderSpans where
  /-- The value of the policy field. -/
  policyValue : Span
  /-- The entire record of key slots, including tag and length. -/
  keySlotsRecord : Span
  /-- The entire record of the wrapped content key. -/
  wrappedCekRecord : Span
  deriving DecidableEq

/-- Header together with its field ranges. -/
structure ParsedHeader where
  header : Header
  spans : HeaderSpans
  deriving DecidableEq

namespace HeaderTag

/-- Tag of the container version. -/
def containerVersion : UInt16 := 1

/-- Tag of the version a reader needs. -/
def minReaderVersion : UInt16 := 2

/-- Tag of the file's identity. -/
def fileId : UInt16 := 3

/-- Tag of the suite. -/
def suite : UInt16 := 4

/-- Tag of the author's key. -/
def authorKey : UInt16 := 5

/-- Tag of the salt. -/
def headerSalt : UInt16 := 6

/-- Tag of the chunk size. -/
def chunkSize : UInt16 := 7

/-- Tag of the root of the original. -/
def originalRoot : UInt16 := 8

/-- Tag of the policy. -/
def policy : UInt16 := 9

/-- Tag of the license server. -/
def authority : UInt16 := 11

/-- Tag of the sealed block. -/
def privateMeta : UInt16 := 12

/-- Tag of the hash of the header before. -/
def prevHeaderHash : UInt16 := 13

/-- Tag of the organization. -/
def orgId : UInt16 := 14

/-- Tag of the protection class. -/
def class_ : UInt16 := 15

/-- Tag of the footer offset. -/
def footerOffset : UInt16 := 16

/-- Tag of the wrapped content key. -/
def wrappedCek : UInt16 := 17

end HeaderTag

/-- The only protection class this version implements. -/
def localClass : UInt8 := 0

/-- First format version supporting coauthor membership in the header. -/
def firstCoauthorsVersion : UInt16 := 4

/-- Allowed chunk sizes start at the page size. -/
def minChunkSize : UInt32 := 4 * 1024

/-- Upper bound on chunk size. -/
def maxChunkSize : UInt32 := 1024 * 1024

/-- Chunk sizes are powers of two in a range. -/
def checkChunkSize (size : UInt32) : Except FormatError UInt32 :=
  if (minChunkSize ≤ size ∧ size ≤ maxChunkSize) ∧ size.isPowerOfTwo = true then .ok size
  else .error (.badChunkSize size)

/-! ### Reading -/

/-- The fields and ranges read so far. -/
structure HeaderReading where
  containerVersion : Option UInt16 := none
  minReaderVersion : Option UInt16 := none
  fileId : Option (List.Vector UInt8 16) := none
  suite : Option Suite := none
  authorKey : Option Digest := none
  headerSalt : Option Digest := none
  chunkSize : Option UInt32 := none
  originalRoot : Option Digest := none
  policy : Option Policy := none
  policyValue : Option Span := none
  keySlots : Option (List KeySlot) := none
  keySlotsRecord : Option Span := none
  authority : Option Authority := none
  privateMeta : Option (List UInt8) := none
  prevHeaderHash : Option Digest := none
  orgId : Option (List UInt8) := none
  class_ : Option UInt8 := none
  footerOffset : Option UInt64 := none
  wrappedCek : Option (List.Vector UInt8 wrappedCekLen) := none
  wrappedCekRecord : Option Span := none
  coauthors : Option Coauthors := none

/-- The range of a whole record: its value, and the tag and length before it. -/
def recordSpan (field : Field) : Except FormatError Span :=
  if fieldPrefixLen ≤ field.span.start then
    .ok ⟨field.span.start - fieldPrefixLen, field.span.stop⟩
  else .error .offsetOverflow

/-- Version read by this point; zero, below every version, if there was none. -/
def versionSoFar (containerVersion : Option UInt16) : UInt16 := containerVersion.getD 0

/-- What reading one field assigns. -/
inductive Assignment where
  | containerVersion (version : UInt16)
  | minReaderVersion (version : UInt16)
  | fileId (id : List.Vector UInt8 16)
  | suite (suite : Suite)
  | authorKey (key : Digest)
  | headerSalt (salt : Digest)
  | chunkSize (size : UInt32)
  | originalRoot (root : Digest)
  | policy (policy : Policy) (value : Span)
  | keySlots (slots : List KeySlot) (record : Span)
  | authority (authority : Authority)
  | privateMeta (bytes : List UInt8)
  | prevHeaderHash (hash : Digest)
  | orgId (bytes : List UInt8)
  | class_ (value : UInt8)
  | footerOffset (offset : UInt64)
  | wrappedCek (wrapped : List.Vector UInt8 wrappedCekLen) (record : Span)
  | coauthors (coauthors : Coauthors)
  /-- A field that is skipped assigns nothing. -/
  | nothing

/-- Perform an assignment. -/
def HeaderReading.assign (acc : HeaderReading) : Assignment → HeaderReading
  | .containerVersion version => { acc with containerVersion := some version }
  | .minReaderVersion version => { acc with minReaderVersion := some version }
  | .fileId id => { acc with fileId := some id }
  | .suite suite => { acc with suite := some suite }
  | .authorKey key => { acc with authorKey := some key }
  | .headerSalt salt => { acc with headerSalt := some salt }
  | .chunkSize size => { acc with chunkSize := some size }
  | .originalRoot root => { acc with originalRoot := some root }
  | .policy policy value => { acc with policy := some policy, policyValue := some value }
  | .keySlots slots record => { acc with keySlots := some slots, keySlotsRecord := some record }
  | .authority authority => { acc with authority := some authority }
  | .privateMeta bytes => { acc with privateMeta := some bytes }
  | .prevHeaderHash hash => { acc with prevHeaderHash := some hash }
  | .orgId bytes => { acc with orgId := some bytes }
  | .class_ value => { acc with class_ := some value }
  | .footerOffset offset => { acc with footerOffset := some offset }
  | .wrappedCek wrapped record =>
    { acc with wrappedCek := some wrapped, wrappedCekRecord := some record }
  | .coauthors coauthors => { acc with coauthors := some coauthors }
  | .nothing => acc

/-- One field of the header, by the tags of `HeaderTag`. The version is the one read so far. -/
def decodeField (version : Option UInt16) (field : Field) (record : Span) :
    Except FormatError Assignment :=
  match field.tag with
  | 1 => field.u16.map .containerVersion
  | 2 => field.u16.map .minReaderVersion
  | 3 => (field.array 16).map .fileId
  | 4 => (decodeSuite field.value).map .suite
  | 5 => (field.array 32).map .authorKey
  | 6 => (field.array 32).map .headerSalt
  | 7 => do
    let size ← field.u32
    (checkChunkSize size).map .chunkSize
  | 8 => (field.array 32).map .originalRoot
  | 9 => do
    let version ← okOr version (.missingField HeaderTag.containerVersion)
    let policy ← PolicyCodec.decode version field.value
    .ok (.policy policy field.span)
  | 10 => do
    let version ← okOr version (.missingField HeaderTag.containerVersion)
    let slots ← decodeSlots version field.value
    .ok (.keySlots slots record)
  | 11 => (decodeAuthority field.value).map .authority
  | 12 => .ok (.privateMeta field.value)
  | 13 => (field.array 32).map .prevHeaderHash
  | 14 => .ok (.orgId field.value)
  | 15 => do
    let value ← field.u8
    refuseIf (value ≠ localClass) (.unsupportedClass value)
    .ok (.class_ value)
  | 16 => field.u64.map .footerOffset
  | 17 => (field.array wrappedCekLen).map fun wrapped ↦ .wrappedCek wrapped record
  | 0x8001 =>
    -- in an older version the tag is not defined, and being optional it is skipped
    if firstCoauthorsVersion ≤ versionSoFar version then
      (decodeCoauthors field.value).map .coauthors
    else skipUnknown 0x8001 .nothing
  | other => skipUnknown other .nothing

/-- One turn of the loop over the fields. -/
def decodeStep (acc : HeaderReading) (field : Field) : Except FormatError HeaderReading := do
  let record ← recordSpan field
  (decodeField acc.containerVersion field record).map acc.assign

/-- No required field is missing. -/
def HeaderReading.finish (acc : HeaderReading) : Except FormatError ParsedHeader := do
  let containerVersion ← okOr acc.containerVersion (.missingField HeaderTag.containerVersion)
  let minReaderVersion ← okOr acc.minReaderVersion (.missingField HeaderTag.minReaderVersion)
  let fileId ← okOr acc.fileId (.missingField HeaderTag.fileId)
  let suite ← okOr acc.suite (.missingField HeaderTag.suite)
  let authorKey ← okOr acc.authorKey (.missingField HeaderTag.authorKey)
  let headerSalt ← okOr acc.headerSalt (.missingField HeaderTag.headerSalt)
  let chunkSize ← okOr acc.chunkSize (.missingField HeaderTag.chunkSize)
  let originalRoot ← okOr acc.originalRoot (.missingField HeaderTag.originalRoot)
  let policy ← okOr acc.policy (.missingField HeaderTag.policy)
  let keySlots ← okOr acc.keySlots (.missingField keySlotsTag)
  let authority ← okOr acc.authority (.missingField HeaderTag.authority)
  let privateMeta ← okOr acc.privateMeta (.missingField HeaderTag.privateMeta)
  let orgId ← okOr acc.orgId (.missingField HeaderTag.orgId)
  let class_ ← okOr acc.class_ (.missingField HeaderTag.class_)
  let wrappedCek ← okOr acc.wrappedCek (.missingField HeaderTag.wrappedCek)
  -- a range is assigned together with its field, so these three are never missing
  let policyValue ← okOr acc.policyValue (.missingField HeaderTag.policy)
  let keySlotsRecord ← okOr acc.keySlotsRecord (.missingField keySlotsTag)
  let wrappedCekRecord ← okOr acc.wrappedCekRecord (.missingField HeaderTag.wrappedCek)
  .ok {
    header := {
      containerVersion, minReaderVersion, fileId, suite, authorKey, headerSalt, chunkSize,
      originalRoot, policy, keySlots, authority, privateMeta,
      prevHeaderHash := acc.prevHeaderHash, orgId, class_, footerOffset := acc.footerOffset,
      wrappedCek, coauthors := acc.coauthors }
    spans := ⟨policyValue, keySlotsRecord, wrappedCekRecord⟩ }

/-- Parse a header from bytes. Total: every buffer either parses or yields an error. -/
def Header.decode (bytes : List UInt8) : Except FormatError ParsedHeader := do
  let acc ← TlvReader.foldFields decodeStep (TlvReader.new bytes) {}
  acc.finish

/-! ### Writing -/

/-- Write the coauthors of a header, if its version has them. -/
def encodeHeaderCoauthors (header : Header) (w : TlvWriter) : Except FormatError TlvWriter :=
  if firstCoauthorsVersion ≤ header.containerVersion then
    match header.coauthors with
    | some coauthors => do
      let bytes ← encodeCoauthors coauthors
      w.put coauthorsTag bytes
    | none => .ok w
  else .ok w

/-- Encode the header. Tags are written in strictly increasing order. -/
def Header.encode (header : Header) : Except FormatError (List UInt8) := do
  let _ ← checkChunkSize header.chunkSize
  refuseIf (maxKeySlots < header.keySlots.length)
    (.badFieldLength keySlotsTag header.keySlots.length)
  let w ← TlvWriter.new.put HeaderTag.containerVersion (toLeBytes header.containerVersion)
  let w ← w.put HeaderTag.minReaderVersion (toLeBytes header.minReaderVersion)
  let w ← w.put HeaderTag.fileId header.fileId.toList
  -- of the suite only the tree hash is checked
  let suite ← encodeSuite header.suite
  let w ← w.put HeaderTag.suite suite
  let w ← w.put HeaderTag.authorKey header.authorKey.toList
  let w ← w.put HeaderTag.headerSalt header.headerSalt.toList
  let w ← w.put HeaderTag.chunkSize (toLeBytes header.chunkSize)
  let w ← w.put HeaderTag.originalRoot header.originalRoot.toList
  let policy ← PolicyCodec.encode header.containerVersion header.policy
  let w ← w.put HeaderTag.policy policy
  let slots ← encodeSlots header.containerVersion header.keySlots
  let w ← w.put keySlotsTag slots
  let authority ← encodeAuthority header.authority
  let w ← w.put HeaderTag.authority authority
  let w ← w.put HeaderTag.privateMeta header.privateMeta
  let w ← w.putOpt HeaderTag.prevHeaderHash (header.prevHeaderHash.map List.Vector.toList)
  let w ← w.put HeaderTag.orgId header.orgId
  -- the class is written as it is
  let w ← w.put HeaderTag.class_ [header.class_]
  let w ← w.putOpt HeaderTag.footerOffset (header.footerOffset.map toLeBytes)
  let w ← w.put HeaderTag.wrappedCek header.wrappedCek.toList
  let w ← encodeHeaderCoauthors header w
  .ok w.finish

/-! ### What the writer does -/

/-- The encodings of a header's nested records. -/
structure EncodedParts where
  suite : List UInt8
  policy : List UInt8
  slots : List UInt8
  authority : List UInt8
  coauthors : Option (List UInt8)

namespace Header

/-- The encoding of the coauthors, if the version has them. -/
def coauthorsBytes (header : Header) : Except FormatError (Option (List UInt8)) :=
  if firstCoauthorsVersion ≤ header.containerVersion then
    match header.coauthors with
    | some coauthors => (encodeCoauthors coauthors).map some
    | none => .ok none
  else .ok none

/-- The nested records have these encodings, and the checks of the writer pass. -/
structure Encoded (header : Header) (parts : EncodedParts) : Prop where
  chunkSize : checkChunkSize header.chunkSize = .ok header.chunkSize
  fewSlots : header.keySlots.length ≤ maxKeySlots
  suite : encodeSuite header.suite = .ok parts.suite
  policy : PolicyCodec.encode header.containerVersion header.policy = .ok parts.policy
  slots : encodeSlots header.containerVersion header.keySlots = .ok parts.slots
  authority : encodeAuthority header.authority = .ok parts.authority
  coauthors : header.coauthorsBytes = .ok parts.coauthors

/-- The fields before the first optional one. -/
def contentsHead (header : Header) (parts : EncodedParts) : Contents :=
  [(1, toLeBytes header.containerVersion), (2, toLeBytes header.minReaderVersion),
    (3, header.fileId.toList), (4, parts.suite), (5, header.authorKey.toList),
    (6, header.headerSalt.toList), (7, toLeBytes header.chunkSize),
    (8, header.originalRoot.toList), (9, parts.policy), (10, parts.slots), (11, parts.authority),
    (12, header.privateMeta)]

/-- The tags and values of a header. -/
def contents (header : Header) (parts : EncodedParts) : Contents :=
  header.contentsHead parts ++ optField 13 (header.prevHeaderHash.map List.Vector.toList) ++
    [(14, header.orgId), (15, [header.class_])] ++ optField 16 (header.footerOffset.map toLeBytes) ++
    [(17, header.wrappedCek.toList)] ++ optField 0x8001 parts.coauthors

theorem encodeHeaderCoauthors_eq_putMany {header : Header} {coauthors : Option (List UInt8)}
    (h : header.coauthorsBytes = .ok coauthors) (w : TlvWriter) :
    encodeHeaderCoauthors header w = w.putMany (optField 0x8001 coauthors) := by
  unfold coauthorsBytes at h
  unfold encodeHeaderCoauthors
  split_ifs at h ⊢
  · rcases hc : header.coauthors with - | c
    · rw [hc] at h
      obtain rfl := Except.ok.inj h
      rfl
    · rw [hc] at h
      obtain ⟨bytes, hbytes, rfl⟩ := Except.map_eq_ok_iff.mp h
      rw [← TlvWriter.putOpt_eq_putMany]
      simp only [hbytes, Except.ok_bind]
      rfl
  · obtain rfl := Except.ok.inj h
    rfl

/-- When the nested records are encoded, the rest is one document. -/
theorem Encoded.encode_eq {header : Header} {parts : EncodedParts} (h : header.Encoded parts) :
    header.encode = TlvWriter.writeAll (header.contents parts) := by
  simp only [Header.encode, h.chunkSize, h.suite, h.policy, h.slots, h.authority,
    Except.refuseIf_of_not (not_lt.mpr h.fewSlots), encodeHeaderCoauthors_eq_putMany h.coauthors,
    Except.ok_bind, contents, contentsHead, TlvWriter.writeAll, TlvWriter.putMany_append,
    TlvWriter.putMany_cons, TlvWriter.putMany_nil, TlvWriter.putOpt_eq_putMany, bind_assoc,
    HeaderTag.containerVersion, HeaderTag.minReaderVersion, HeaderTag.fileId, HeaderTag.suite,
    HeaderTag.authorKey, HeaderTag.headerSalt, HeaderTag.chunkSize, HeaderTag.originalRoot,
    HeaderTag.policy, keySlotsTag, HeaderTag.authority, HeaderTag.privateMeta,
    HeaderTag.prevHeaderHash, HeaderTag.orgId, HeaderTag.class_, HeaderTag.footerOffset,
    HeaderTag.wrappedCek]

/-- The check of the chunk size returns what it is given. -/
theorem checkChunkSize_eq {size size' : UInt32} (h : checkChunkSize size = .ok size') :
    size' = size := by
  unfold checkChunkSize at h
  split_ifs at h
  exact (Except.ok.inj h).symm

/-- A header that was encoded has encoded records. -/
theorem exists_encoded {header : Header} {bytes : List UInt8} (h : header.encode = .ok bytes) :
    ∃ parts, header.Encoded parts := by
  simp only [Header.encode, Except.bind_eq_ok_iff] at h
  obtain ⟨size, hsize, _, hfew, -, -, -, -, -, -, suite, hsuite, -, -, -, -, -, -, -, -, -, -,
    policy, hpolicy, -, -, slots, hslots, -, -, authority, hauthority, -, -, -, -, -, -, -, -,
    -, -, -, -, w, -, w', hcoauthors, -⟩ := h
  rw [Except.refuseIf_eq_ok_iff, not_lt] at hfew
  have hsize' := checkChunkSize_eq hsize
  obtain ⟨coauthors, hcoauthors⟩ : ∃ c, header.coauthorsBytes = .ok c := by
    unfold encodeHeaderCoauthors at hcoauthors
    unfold coauthorsBytes
    split_ifs at hcoauthors ⊢
    · rcases hc : header.coauthors with - | c
      · exact ⟨none, rfl⟩
      · rw [hc] at hcoauthors
        obtain ⟨bytes, hbytes, -⟩ := Except.bind_eq_ok_iff.mp hcoauthors
        exact ⟨some bytes, Except.map_eq_ok_iff.mpr ⟨bytes, hbytes, rfl⟩⟩
    · exact ⟨none, rfl⟩
  exact ⟨⟨suite, policy, slots, authority, coauthors⟩, hsize' ▸ hsize, hfew, hsuite, hpolicy, hslots,
    hauthority, hcoauthors⟩

/-- **What the header writer does.** -/
theorem encode_eq_ok_iff {header : Header} {bytes : List UInt8} :
    header.encode = .ok bytes ↔
      ∃ parts, header.Encoded parts ∧ Encodes bytes (header.contents parts) := by
  constructor
  · intro h
    obtain ⟨parts, hparts⟩ := exists_encoded h
    rw [hparts.encode_eq, TlvWriter.writeAll_eq_ok_iff] at h
    exact ⟨parts, hparts, h⟩
  · rintro ⟨parts, hparts, h⟩
    rw [hparts.encode_eq, TlvWriter.writeAll_eq_ok_iff]
    exact h

end Header

/-! ### What was read -/

@[simp] theorem recordSpan_mk (tag : UInt16) (value : List UInt8) (offset stop : ℕ) :
    recordSpan ⟨tag, value, ⟨offset + fieldPrefixLen, stop⟩⟩ = .ok ⟨offset, stop⟩ := by
  rw [recordSpan, if_pos (Nat.le_add_left _ _), Nat.add_sub_cancel]

/-- What an assignment promises, given the version of the header. -/
def Assignment.Sound (version : Option UInt16) : Assignment → Prop
  | .containerVersion _ => False
  | .suite value => value = Suite.supported
  | .chunkSize size => checkChunkSize size = .ok size
  | .policy value _ => ∃ v, version = some v ∧ PolicyCodec.IsNormal v value
  | .keySlots slots _ => ∃ v, version = some v ∧ slots.length ≤ maxKeySlots ∧
      (∀ slot ∈ slots, slot.Readable v) ∧
      ∃ bytes, encodeSlots v slots = .ok bytes ∧ bytes.length < 2 ^ 32
  | .authority value => value.Valid
  | .privateMeta bytes => bytes.length < 2 ^ 32
  | .orgId bytes => bytes.length < 2 ^ 32
  | .class_ value => value = localClass
  | .coauthors value =>
    firstCoauthorsVersion ≤ versionSoFar version ∧ checkCoauthors value = .ok ()
  | _ => True

/-- The reader promises what it checks. Only the field of the version assigns a version. -/
theorem sound_of_decodeField {version : Option UInt16} {field : Field} {record : Span}
    {a : Assignment} (htag : field.tag ≠ 1) (hfits : field.value.length < 2 ^ 32)
    (h : decodeField version field record = .ok a) : a.Sound version := by
  unfold decodeField at h
  split at h
  case h_1 heq => exact absurd heq htag
  case h_4 =>
    obtain ⟨suite, hsuite, rfl⟩ := Except.map_eq_ok_iff.mp h
    exact eq_supported_of_decodeSuite hsuite
  case h_7 =>
    obtain ⟨size, -, h⟩ := Except.bind_eq_ok_iff.mp h
    obtain ⟨size', hsize, rfl⟩ := Except.map_eq_ok_iff.mp h
    rw [← Header.checkChunkSize_eq hsize] at hsize
    exact hsize
  case h_9 =>
    obtain ⟨v, hv, h⟩ := Except.bind_eq_ok_iff.mp h
    obtain ⟨policy, hpolicy, h⟩ := Except.bind_eq_ok_iff.mp h
    obtain rfl := Except.ok.inj h
    exact ⟨v, Except.okOr_eq_ok_iff.mp hv, PolicyCodec.isNormal_of_decode hpolicy⟩
  case h_10 =>
    obtain ⟨v, hv, h⟩ := Except.bind_eq_ok_iff.mp h
    obtain ⟨slots, hslots, h⟩ := Except.bind_eq_ok_iff.mp h
    obtain rfl := Except.ok.inj h
    obtain ⟨hfew, hreadable, bytes, hbytes, hlen⟩ := of_decodeSlots hslots
    exact ⟨v, Except.okOr_eq_ok_iff.mp hv, hfew, hreadable, bytes, hbytes, hlen.trans_lt hfits⟩
  case h_11 =>
    obtain ⟨authority, hauthority, rfl⟩ := Except.map_eq_ok_iff.mp h
    exact valid_of_decodeAuthority hauthority
  case h_12 =>
    obtain rfl := Except.ok.inj h
    exact hfits
  case h_14 =>
    obtain rfl := Except.ok.inj h
    exact hfits
  case h_15 =>
    obtain ⟨value, -, h⟩ := Except.bind_eq_ok_iff.mp h
    obtain ⟨hclass, h⟩ := Except.check_bind_eq_ok_iff.mp h
    rw [Except.refuseIf_eq_ok_iff, not_not] at hclass
    obtain rfl := Except.ok.inj h
    exact hclass
  case h_18 =>
    split_ifs at h with hversion
    · obtain ⟨coauthors, hcoauthors, rfl⟩ := Except.map_eq_ok_iff.mp h
      exact ⟨hversion, check_of_decodeCoauthors hcoauthors⟩
    · exact eq_of_skipUnknown h ▸ trivial
  case h_19 => exact eq_of_skipUnknown h ▸ trivial
  -- the other fields promise nothing
  all_goals
    obtain ⟨_, -, rfl⟩ := Except.map_eq_ok_iff.mp h
    exact trivial

/-- All that has been read keeps its promises. -/
structure HeaderReading.Sound (version : Option UInt16) (acc : HeaderReading) : Prop where
  containerVersion : acc.containerVersion = version
  suite : ∀ x, acc.suite = some x → (Assignment.suite x).Sound version
  chunkSize : ∀ x, acc.chunkSize = some x → (Assignment.chunkSize x).Sound version
  policy : ∀ x, acc.policy = some x → (Assignment.policy x ⟨0, 0⟩).Sound version
  keySlots : ∀ x, acc.keySlots = some x → (Assignment.keySlots x ⟨0, 0⟩).Sound version
  authority : ∀ x, acc.authority = some x → (Assignment.authority x).Sound version
  privateMeta : ∀ x, acc.privateMeta = some x → (Assignment.privateMeta x).Sound version
  orgId : ∀ x, acc.orgId = some x → (Assignment.orgId x).Sound version
  class_ : ∀ x, acc.class_ = some x → (Assignment.class_ x).Sound version
  coauthors : ∀ x, acc.coauthors = some x → (Assignment.coauthors x).Sound version

namespace HeaderReading.Sound

variable {version : Option UInt16} {acc acc' : HeaderReading}

/-- Before the first field there is nothing to be said. -/
theorem start (version : Option UInt16) : Sound version { containerVersion := version } := by
  constructor
  · rfl
  all_goals exact fun _ ↦ nofun

/-- A sound assignment keeps the reading sound. -/
theorem assign {a : Assignment} (hacc : acc.Sound version) (ha : a.Sound version) :
    (acc.assign a).Sound version := by
  have hsome : ∀ {α : Type} {P : α → Prop} {x : α}, P x → ∀ y, some x = some y → P y := by
    rintro α P x hx y ⟨⟩
    exact hx
  cases a with
  | containerVersion _ => exact ha.elim
  | suite x => exact { hacc with suite := hsome ha }
  | chunkSize x => exact { hacc with chunkSize := hsome ha }
  | policy x _ => exact { hacc with policy := hsome ha }
  | keySlots x _ => exact { hacc with keySlots := hsome ha }
  | authority x => exact { hacc with authority := hsome ha }
  | privateMeta x => exact { hacc with privateMeta := hsome ha }
  | orgId x => exact { hacc with orgId := hsome ha }
  | class_ x => exact { hacc with class_ := hsome ha }
  | coauthors x => exact { hacc with coauthors := hsome ha }
  | _ => exact { hacc with }

/-- A step keeps the promises. -/
theorem step {field : Field} (hacc : acc.Sound version) (htag : field.tag ≠ 1)
    (hfits : field.value.length < 2 ^ 32) (h : decodeStep acc field = .ok acc') :
    acc'.Sound version := by
  obtain ⟨record, -, h⟩ := Except.bind_eq_ok_iff.mp h
  obtain ⟨a, ha, rfl⟩ := Except.map_eq_ok_iff.mp h
  rw [hacc.containerVersion] at ha
  exact hacc.assign (sound_of_decodeField htag hfits ha)

/-- A run keeps the promises. -/
theorem run {offset : ℕ} {l : Contents} (hacc : acc.Sound version)
    (hl : ∀ p ∈ l, p.1 ≠ 1 ∧ p.2.length < 2 ^ 32)
    (h : (fieldsOf offset l).foldlM decodeStep acc = .ok acc') : acc'.Sound version :=
  Except.foldlM_invariant h hacc fun _ hf _ _ hc hstep ↦
    hc.step (hl _ (mem_of_mem_fieldsOf hf)).1 (hl _ (mem_of_mem_fieldsOf hf)).2 hstep

end HeaderReading.Sound

/-- **The version comes first.** What was read starts with the version, and no later field changes
it. -/
theorem exists_of_decode {bytes : List UInt8} {parsed : ParsedHeader}
    (h : Header.decode bytes = .ok parsed) :
    ∃ version l acc, Encodes bytes ((1, toLeBytes version) :: l) ∧ (∀ p ∈ l, p.1 ≠ 1) ∧
      (fieldsOf 8 l).foldlM decodeStep { containerVersion := some version } = .ok acc ∧
      acc.Sound (some version) ∧ acc.finish = .ok parsed := by
  obtain ⟨acc, hfold, hfinish⟩ := Except.bind_eq_ok_iff.mp h
  obtain ⟨l, henc, hfold⟩ := exists_encodes_of_foldFields hfold
  obtain ⟨htags, hfits⟩ := Encodes.exists_iff.mp ⟨_, henc⟩
  by_cases hone : ∃ p ∈ l, p.1 = 1
  · obtain ⟨p, hp, hpone⟩ := hone
    rcases l with - | ⟨⟨tag, value⟩, l⟩
    · exact absurd hp List.not_mem_nil
    obtain ⟨hlt, -⟩ := List.pairwise_cons.mp htags
    rw [fieldsOf, List.foldlM_cons] at hfold
    obtain ⟨acc₁, hstep, hfold⟩ := Except.bind_eq_ok_iff.mp hfold
    rw [decodeStep, recordSpan_mk, Except.ok_bind] at hstep
    rcases List.mem_cons.mp hp with rfl | hp
    · -- the version itself
      obtain rfl : tag = 1 := hpone
      obtain ⟨a, ha, rfl⟩ := Except.map_eq_ok_iff.mp hstep
      obtain ⟨version, hversion, rfl⟩ := Except.map_eq_ok_iff.mp ha
      obtain rfl : value = toLeBytes version := Field.le_eq_ok_iff.mp hversion
      have hrest : ∀ p ∈ l, p.1 ≠ 1 := fun p hp ↦
        (hlt p.1 (List.mem_map_of_mem hp)).ne'
      rw [length_toLeBytes] at hfold
      exact ⟨version, l, acc, henc, hrest, hfold, (HeaderReading.Sound.start _).run
        (fun p hp ↦ ⟨hrest p hp, hfits p (List.mem_cons_of_mem _ hp)⟩) hfold, hfinish⟩
    · -- a field before the version has a tag that is critical and unknown
      have hzero : tag = 0 := by
        have := hlt p.1 (List.mem_map_of_mem hp)
        rw [hpone, UInt16.lt_iff_toNat_lt] at this
        exact UInt16.toNat_inj.mp (Nat.lt_one_iff.mp this)
      subst hzero
      cases hstep
  · -- without a version the reading is refused in the end
    push Not at hone
    have hacc := (HeaderReading.Sound.start none).run (fun p hp ↦ ⟨hone p hp, hfits p hp⟩) hfold
    rw [HeaderReading.finish, hacc.containerVersion] at hfinish
    cases hfinish

/-- What the loop must have assigned for a result. -/
def ParsedHeader.reading (parsed : ParsedHeader) : HeaderReading where
  containerVersion := parsed.header.containerVersion
  minReaderVersion := parsed.header.minReaderVersion
  fileId := parsed.header.fileId
  suite := parsed.header.suite
  authorKey := parsed.header.authorKey
  headerSalt := parsed.header.headerSalt
  chunkSize := parsed.header.chunkSize
  originalRoot := parsed.header.originalRoot
  policy := parsed.header.policy
  policyValue := parsed.spans.policyValue
  keySlots := parsed.header.keySlots
  keySlotsRecord := parsed.spans.keySlotsRecord
  authority := parsed.header.authority
  privateMeta := parsed.header.privateMeta
  prevHeaderHash := parsed.header.prevHeaderHash
  orgId := parsed.header.orgId
  class_ := parsed.header.class_
  footerOffset := parsed.header.footerOffset
  wrappedCek := parsed.header.wrappedCek
  wrappedCekRecord := parsed.spans.wrappedCekRecord
  coauthors := parsed.header.coauthors

/-- The result holds exactly what was assigned. -/
theorem finish_eq_ok_iff {acc : HeaderReading} {parsed : ParsedHeader} :
    acc.finish = .ok parsed ↔ acc = parsed.reading := by
  constructor
  · intro h
    simp only [HeaderReading.finish, Except.bind_eq_ok_iff, Except.okOr_eq_ok_iff] at h
    obtain ⟨_, h₁, _, h₂, _, h₃, _, h₄, _, h₅, _, h₆, _, h₇, _, h₈, _, h₉, _, h₁₀, _, h₁₁, _, h₁₂,
      _, h₁₃, _, h₁₄, _, h₁₅, _, h₁₆, _, h₁₇, _, h₁₈, h⟩ := h
    obtain rfl := Except.ok.inj h
    cases acc
    simp only at h₁ h₂ h₃ h₄ h₅ h₆ h₇ h₈ h₉ h₁₀ h₁₁ h₁₂ h₁₃ h₁₄ h₁₅ h₁₆ h₁₇ h₁₈
    subst_vars
    rfl
  · rintro rfl
    rfl

/-- What an accepted header was read from. -/
theorem exists_reading_of_decode {bytes : List UInt8} {parsed : ParsedHeader}
    (h : Header.decode bytes = .ok parsed) :
    ∃ l, Encodes bytes l ∧ (fieldsOf 0 l).foldlM decodeStep {} = .ok parsed.reading := by
  obtain ⟨acc, hfold, hfinish⟩ := Except.bind_eq_ok_iff.mp h
  obtain ⟨l, henc, hfold⟩ := exists_encodes_of_foldFields hfold
  exact ⟨l, henc, finish_eq_ok_iff.mp hfinish ▸ hfold⟩

end OpenCrate.Format
