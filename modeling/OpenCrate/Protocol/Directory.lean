import OpenCrate.Crypto.Kdf
import OpenCrate.Crypto.Merkle
import OpenCrate.Data.Framed
import OpenCrate.Protocol.ControlSigned
import OpenCrate.Protocol.Witness

/-!
# The key directory

`directory` of `oc-protocol`: a record links a member of an organization to a key, its bytes are a leaf of a
journal, and the server signs the heads of the journal. Who looks a member up receives the record with a
proof of inclusion (`Lookup`), and verifies the head first, then the inclusion of the raw bytes, and only
then parses them.

A record has a canonical form. Its nine fields are all required and stand in order; what is skipped
between them are unknown optional fields.
-/

namespace OpenCrate.Protocol

open OpenCrate.Format OpenCrate.Crypto
open Except (refuseIf okOr)

namespace Directory

open Control (splitAtChecked recordedEd25519)

/-- Member name length, characters. -/
def maxNameChars : ℕ := 128

/-- Record origin length, characters. -/
def maxOriginChars : ℕ := 512

/-- Record length, bytes. -/
def maxRecordLen : ℕ := 8 * 1024

/-- Inclusion proof path limit. -/
def maxInclusionPath : ℕ := 64

namespace Tag

def tenant : UInt16 := 1

def name : UInt16 := 2

def kem : UInt16 := 3

def public_ : UInt16 := 4

def fpr : UInt16 := 5

def version : UInt16 := 6

def state : UInt16 := 7

def origin : UInt16 := 8

def at_ : UInt16 := 9

end Tag

/-- A refusal of a value. -/
def bad (tag : UInt16) (len : ℕ) : FormatError := .badFieldLength tag len

/-- Organization name. -/
def checkTenant (tenant : String) : Except FormatError Unit := Control.checkTenant tenant Tag.tenant

/-- Human-readable text: not blank, within the limit, without characters unsafe to display. -/
def checkText (text : String) (maxChars : ℕ) (tag : UInt16) : Except FormatError Unit := do
  refuseIf (text.toList.all isWhitespace ∨ maxChars < text.toList.length) (bad tag (utf8 text).length)
  checkDisplay text tag

/-! ### Records -/

/-- Whether the record's key is active. -/
inductive KeyState where
  | active
  | withdrawn
  deriving DecidableEq

namespace KeyState

/-- The byte of a state. -/
def toU8 : KeyState → UInt8
  | active => 0
  | withdrawn => 1

/-- The state of a byte. -/
def fromU8 : UInt8 → Except FormatError KeyState
  | 0 => .ok active
  | 1 => .ok withdrawn
  | _ => .error (bad Tag.state 1)

@[simp] theorem fromU8_toU8 (state : KeyState) : fromU8 state.toU8 = .ok state := by
  cases state <;> rfl

end KeyState

/-- Directory record. -/
structure Record where
  tenant : String
  name : String
  kem : KemAlg
  public_ : List UInt8
  /-- Fingerprint of the mechanism and the key: checked, not taken on trust. -/
  fpr : Digest
  version : UInt64
  state : KeyState
  origin : String
  at_ : Int64
  deriving DecidableEq

namespace Record

variable (sha : Sha2)

/-- The rules of a record. -/
def check (record : Record) : Except FormatError Unit := do
  checkTenant record.tenant
  checkText record.name maxNameChars Tag.name
  checkText record.origin maxOriginChars Tag.origin
  refuseIf (record.version = 0) (bad Tag.version 0)
  let fpr ← (Kdf.deviceFpr sha record.kem record.public_).mapError fun _ ↦
    bad Tag.public_ record.public_.length
  refuseIf (fpr ≠ record.fpr) (bad Tag.fpr 32)

/-- Record bytes. -/
def encode (record : Record) : Except FormatError (List UInt8) := do
  record.check sha
  let w ← TlvWriter.new.put Tag.tenant (utf8 record.tenant)
  let w ← w.put Tag.name (utf8 record.name)
  let w ← w.put Tag.kem [record.kem.toU8]
  let w ← w.put Tag.public_ record.public_
  let w ← w.put Tag.fpr record.fpr.toList
  let w ← w.put Tag.version (toLeBytes record.version)
  let w ← w.put Tag.state [record.state.toU8]
  let w ← w.put Tag.origin (utf8 record.origin)
  let w ← w.put Tag.at_ (toLeBytes record.at_)
  let bytes := w.finish
  refuseIf (maxRecordLen < bytes.length) (bad 0 bytes.length)
  .ok bytes

/-- The values read so far, and the tag that must come next. -/
structure Reading where
  fields : List.Vector (Option (List UInt8)) 9 := List.Vector.replicate 9 none
  expected : UInt16 := Tag.tenant
  expected_range : 1 ≤ expected.toNat ∧ expected.toNat ≤ 10 := by decide

namespace Reading

/-- A tag of the list of keys has a next one. -/
theorem succ_range {tag : UInt16} (h : tag.toNat - 1 < 9) :
    1 ≤ (tag + 1).toNat ∧ (tag + 1).toNat ≤ 10 := by
  rw [UInt16.toNat_add]
  have : (1 : UInt16).toNat = 1 := rfl
  omega

/-- The value goes into the slot of its tag, and the next tag is expected. -/
def put (acc : Reading) (tag : UInt16) (value : List UInt8) : Except FormatError Reading :=
  if h : tag.toNat - 1 < 9 then
    .ok ⟨acc.fields.set ⟨tag.toNat - 1, h⟩ (some value), tag + 1, succ_range h⟩
  else .error (.unknownCriticalField tag)

/-- The value of a slot. -/
def get (acc : Reading) (tag : UInt16) : Except FormatError (List UInt8) :=
  okOr (acc.fields.toList[tag.toNat - 1]?.join) (.missingField tag)

/-- A value as text. -/
def text (acc : Reading) (tag : UInt16) : Except FormatError String := do
  let value ← acc.get tag
  okOr (fromUtf8? value) (.notUtf8 tag)

/-- A value of one byte. -/
def byte (acc : Reading) (tag : UInt16) : Except FormatError UInt8 :=
  acc.get tag >>= fun
    | [b] => .ok b
    | other => .error (bad tag other.length)

/-- A number of eight bytes. -/
def eight {τ : Type} [LeInt τ] (acc : Reading) (tag : UInt16) : Except FormatError τ := do
  let value ← acc.get tag
  okOr (ofLeBytes? value) (bad tag value.length)

end Reading

/-- One field of a record. All known tags are required and stand in order; an unknown optional field
does not move the expected tag. -/
def decodeStep (acc : Reading × Skipped) (f : Field) : Except FormatError (Reading × Skipped) :=
  if f.tag ≠ acc.1.expected then (acc.2.see f).map fun skipped ↦ (acc.1, skipped)
  else (acc.1.put f.tag f.value).map fun reading ↦ (reading, acc.2)

/-- The record that was read. -/
def Reading.record (acc : Reading) : Except FormatError Record := do
  let kem ← acc.byte Tag.kem
  let kem ← (KemAlg.fromU8 kem).mapError fun _ ↦ .unknownCriticalField Tag.kem
  let state ← acc.byte Tag.state
  let state ← KeyState.fromU8 state
  let fpr ← acc.get Tag.fpr
  let tenant ← acc.text Tag.tenant
  let name ← acc.text Tag.name
  let public_ ← acc.get Tag.public_
  let fpr ← okOr (toVector? 32 fpr) (bad Tag.fpr fpr.length)
  let version ← acc.eight Tag.version
  let origin ← acc.text Tag.origin
  let at_ ← acc.eight Tag.at_
  let record : Record := ⟨tenant, name, kem, public_, fpr, version, state, origin, at_⟩
  record.check sha
  .ok record

/-- Parse a record strictly; the fingerprint is recomputed and checked. -/
def decode (bytes : List UInt8) : Except FormatError Record := do
  refuseIf (maxRecordLen < bytes.length) (bad 0 bytes.length)
  decodeCanonical decodeStep {} (Reading.record sha) (encode sha) (bad 0) bytes

/-- What is hashed for the leaf of a record. -/
def leafTranscript (bytes : List UInt8) : Transcript :=
  (Transcript.new .directoryEntry).tailAfterDeclaredLength bytes

/-- Directory journal leaf computed from record bytes. -/
def leaf (bytes : List UInt8) : Leaf := ⟨sha.sha256 (leafTranscript bytes).asBytes⟩

/-- **Different record bytes are hashed from different inputs.** -/
theorem leafTranscript_inj {a b : List UInt8} :
    (leafTranscript a).asBytes = (leafTranscript b).asBytes ↔ a = b :=
  List.append_right_inj _

/-! ### What a record is read from -/

/-- The tags and values of a record. -/
def contents (record : Record) : Contents :=
  [(Tag.tenant, utf8 record.tenant), (Tag.name, utf8 record.name), (Tag.kem, [record.kem.toU8]),
    (Tag.public_, record.public_), (Tag.fpr, record.fpr.toList),
    (Tag.version, toLeBytes record.version), (Tag.state, [record.state.toU8]),
    (Tag.origin, utf8 record.origin), (Tag.at_, toLeBytes record.at_)]

variable {sha}

/-- A record is written if it passes its check and is not too long. -/
theorem encode_eq_ok_iff {record : Record} {bytes : List UInt8} :
    record.encode sha = .ok bytes ↔ record.check sha = .ok () ∧ Encodes bytes record.contents ∧
      bytes.length ≤ maxRecordLen := by
  simp only [encode, TlvWriter.new_put_bind, TlvWriter.putMany_put_bind, List.cons_append,
    List.nil_append, Except.check_bind_eq_ok_iff]
  refine and_congr_right fun _ ↦ ?_
  rw [← contents, Except.bind_eq_ok_iff, ← TlvWriter.putMany_finish_eq_ok_iff, Except.bind_eq_ok_iff]
  constructor
  · rintro ⟨w, hput, h⟩
    obtain ⟨hlen, h⟩ := Except.check_bind_eq_ok_iff.mp h
    cases h
    exact ⟨⟨w, hput, rfl⟩, not_lt.mp (Except.refuseIf_eq_ok_iff.mp hlen)⟩
  · rintro ⟨⟨w, hput, h⟩, hlen⟩
    cases h
    exact ⟨w, hput, by rw [Except.refuseIf_of_not (not_lt.mpr hlen), Except.ok_bind]⟩

/-- The tags of a record. -/
def tags : List UInt16 := [1, 2, 3, 4, 5, 6, 7, 8, 9]

theorem see_of_critical {tag : UInt16} (h : tag ≤ critTagMax) (skipped : Skipped)
    (value : List UInt8) (span : Span) :
    skipped.see ⟨tag, value, span⟩ = .error (.unknownCriticalField tag) := by
  rw [Skipped.see, refuseIfCritical, unknownTagAction, if_pos h]
  rfl

theorem canonicalStep_decodeStep : CanonicalStep tags decodeStep where
  reads s skipped tag value span h := by
    have hcritical : tag ≤ critTagMax := by
      revert h
      simp only [tags, List.mem_cons, List.not_mem_nil, or_false]
      rintro (rfl | rfl | rfl | rfl | rfl | rfl | rfl | rfl | rfl) <;> decide
    rw [readKnown, decodeStep, decodeStep]
    by_cases htag : tag ≠ s.expected
    · rw [if_pos htag, if_pos htag, see_of_critical hcritical, see_of_critical hcritical]
      rfl
    · rw [if_neg htag, if_neg htag, Except.map_map, Except.map_map]
  skips s skipped tag value span h := by
    rw [decodeStep]
    by_cases htag : tag ≠ s.expected
    · rw [if_pos htag]
    · -- the tag behind the last known one is critical as well
      have hten : tag = 10 := by
        have hrange := s.expected_range
        rw [← not_not.mp htag] at hrange
        have hcases : ∀ n < 11, 1 ≤ n → UInt16.ofNat n ∈ tags ∨ n = 10 := by
          decide
        rcases hcases tag.toNat (by omega) hrange.1 with hmem | hten
        · rw [UInt16.ofNat_toNat] at hmem
          exact absurd hmem h
        · exact UInt16.toNat_inj.mp hten
      subst hten
      rw [if_neg htag, see_of_critical (by decide)]
      rfl

theorem mem_tags_of_mem_contents {record : Record} : ∀ p ∈ record.contents, p.1 ∈ tags := by
  simp [contents, tags, Tag.tenant, Tag.name, Tag.kem, Tag.public_, Tag.fpr, Tag.version, Tag.state,
    Tag.origin, Tag.at_]

/-- The slots of a record, all filled. -/
def Reading.of (record : Record) : Reading where
  fields := ⟨[some (utf8 record.tenant), some (utf8 record.name), some [record.kem.toU8],
    some record.public_, some record.fpr.toList, some (toLeBytes record.version),
    some [record.state.toU8], some (utf8 record.origin), some (toLeBytes record.at_)], rfl⟩
  expected := 10

/-- The loop reads every field into its place. -/
theorem foldlM_contents (record : Record) :
    record.contents.foldlM (readKnown decodeStep) {} = .ok (Reading.of record) := by
  rfl

/-- And what is read of a checked record is the record. -/
theorem Reading.record_of {record : Record} (h : record.check sha = .ok ()) :
    (Reading.of record).record sha = .ok record := by
  have hutf8 (text : String) : fromUtf8? (utf8 text) = some text := fromUtf8?_eq_some_iff.mpr rfl
  have hfpr : toVector? 32 record.fpr.toList = some record.fpr := toVector?_eq_some_iff.mpr rfl
  simp [Reading.record, Reading.byte, Reading.get, Reading.text, Reading.eight, Reading.of, Tag.tenant,
    Tag.name, Tag.kem, Tag.public_, Tag.fpr, Tag.version, Tag.state, Tag.origin, Tag.at_, hutf8, hfpr, h]

/-- **What a record is read from.** Bytes that carry its own. -/
theorem decode_eq_ok_iff {bytes : List UInt8} {record : Record} :
    decode sha bytes = .ok record ↔ bytes.length ≤ maxRecordLen ∧
      ∃ written, Carries tags bytes written ∧ record.encode sha = .ok written := by
  rw [decode, Except.check_bind_eq_ok_iff, Except.refuseIf_eq_ok_iff, not_lt,
    canonicalStep_decodeStep.decodeCanonical_eq_ok_iff]
  refine and_congr_right fun _ ↦ ?_
  constructor
  · rintro ⟨written, l, acc, hcarries, -, hwrite, -⟩
    exact ⟨written, hcarries, hwrite⟩
  · rintro ⟨written, hcarries, hwrite⟩
    obtain ⟨hcheck, henc, -⟩ := encode_eq_ok_iff.mp hwrite
    exact ⟨written, _, Reading.of record, hcarries, henc, hwrite, foldlM_contents record,
      Reading.record_of hcheck⟩

/-- Nothing is read from no bytes. -/
theorem ne_nil_of_decode {bytes : List UInt8} {record : Record}
    (h : decode sha bytes = .ok record) : bytes ≠ [] := by
  rintro rfl
  obtain ⟨-, written, hcarries, hwrite⟩ := decode_eq_ok_iff.mp h
  have henc := (encode_eq_ok_iff.mp hwrite).2.1
  have hnil : written.length = 0 := Nat.le_zero.mp hcarries.length_le
  rw [henc.length_eq, contents, encodedLength_cons, fieldPrefixLen] at hnil
  omega

end Record

/-! ### Lookups -/

/-- Record lookup response: the record, its position and proof of inclusion in the head. -/
structure Lookup where
  head : SignedHead
  index : UInt64
  record : List UInt8
  path : List Digest
  deriving DecidableEq

/-- Why a directory response was rejected. -/
inductive LookupError where
  | serverSignature
  | malformed
  | otherEntry
  | notIncluded
  deriving DecidableEq, Repr

namespace Lookup

/-- Response bytes. -/
def encode (lookup : Lookup) : Except FormatError (List UInt8) := do
  refuseIf (maxRecordLen < lookup.record.length ∨ maxInclusionPath < lookup.path.length)
    (bad 0 lookup.record.length)
  let len ← okOr (UInt32.tryFrom lookup.record.length) (bad 0 lookup.record.length)
  .ok (lookup.head.encode ++ toLeBytes lookup.index ++ toLeBytes len ++ lookup.record ++
    lookup.path.flatMap List.Vector.toList)

/-- Parse a response strictly; what the record says is not checked here. -/
def decode (bytes : List UInt8) : Except FormatError Lookup := do
  let whole := bad 0 bytes.length
  let (head, rest) ← okOr (splitAtChecked signedHeadLen bytes) whole
  let (index, rest) ← okOr (splitAtChecked 8 rest) whole
  let (len, rest) ← okOr (splitAtChecked 4 rest) whole
  let len : UInt32 ← okOr (ofLeBytes? len) whole
  refuseIf (len.toNat = 0 ∨ maxRecordLen < len.toNat) whole
  let (record, path) ← okOr (splitAtChecked len.toNat rest) whole
  refuseIf (maxInclusionPath < path.length / 32) whole
  let nodes ← okOr (chunksExact? 32 path) whole
  let head ← SignedHead.decode head
  let index ← okOr (ofLeBytes? index) whole
  .ok ⟨head, index, record, nodes⟩

/-- Verify the head signature, record inclusion and requested member, in this order. -/
def verify (sha : Sha2) (blake3 : List UInt8 → Digest) (ed : Ed25519) (lookup : Lookup)
    (serverKey : Digest) (tenant name : String) : Except LookupError Record := do
  refuseIf (lookup.head.signedBy ed .directory serverKey = false) .serverSignature
  let index ← okOr (toUInt32? lookup.index) .notIncluded
  let size ← okOr (toUInt32? lookup.head.size) .notIncluded
  refuseIf (MerkleTree.verifyProof blake3 lookup.head.root index size (Record.leaf sha lookup.record)
    lookup.path = false) .notIncluded
  let record ← (Record.decode sha lookup.record).mapError fun _ ↦ .malformed
  refuseIf (record.tenant ≠ tenant ∨ record.name ≠ name) .otherEntry
  .ok record

/-! ### The layout of a lookup -/

/-- The bytes of a lookup, part by part. -/
def layout (lookup : Lookup) : List UInt8 :=
  lookup.head.encode ++ (toLeBytes lookup.index ++
    (frame lookup.record ++ lookup.path.flatMap List.Vector.toList))

/-- A lookup is written if its record and its path are not too long. -/
theorem encode_eq_ok_iff {lookup : Lookup} {bytes : List UInt8} :
    lookup.encode = .ok bytes ↔ lookup.record.length ≤ maxRecordLen ∧
      lookup.path.length ≤ maxInclusionPath ∧ bytes = lookup.layout := by
  rw [encode, Except.check_bind_eq_ok_iff, Except.refuseIf_eq_ok_iff, not_or, not_lt, not_lt, and_assoc]
  refine and_congr_right fun hrecord ↦ and_congr_right fun _ ↦ ?_
  have hlen : UInt32.tryFrom lookup.record.length = some (UInt32.ofNat lookup.record.length) :=
    if_pos (hrecord.trans_lt (by decide))
  rw [hlen, Except.okOr_some, Except.ok_bind, Except.ok.injEq, layout, frame]
  simp only [List.append_assoc]
  exact eq_comm

/-- The bytes of the path say how many digests it has. -/
theorem length_path_le_iff {lookup : Lookup} :
    (lookup.path.flatMap List.Vector.toList).length / 32 ≤ maxInclusionPath ↔
      lookup.path.length ≤ maxInclusionPath := by
  rw [length_flatMap_toList, Nat.mul_div_cancel _ (by decide)]

/-- **A lookup has one spelling**: what is read is what was written for a record that is not empty. -/
theorem decode_eq_ok_iff {bytes : List UInt8} {lookup : Lookup} :
    decode bytes = .ok lookup ↔ lookup.record ≠ [] ∧ lookup.encode = .ok bytes := by
  rw [encode_eq_ok_iff]
  simp only [decode, Except.bind_eq_ok_iff, Except.okOr_eq_ok_iff, Except.refuseIf_eq_ok_iff,
    Prod.exists, Control.splitAtChecked_eq_some_iff, ofLeBytes?_eq_some_iff,
    chunksExact?_eq_some_iff (n := 32) (by decide), SignedHead.decode_eq_ok_iff, Except.ok.injEq, not_or,
    not_lt]
  constructor
  · rintro ⟨head, _, ⟨-, rfl⟩, index, _, ⟨-, rfl⟩, _, _, ⟨-, rfl⟩, len, rfl, ⟨⟩, ⟨hne, hlen⟩,
      record, _, ⟨hrecord, rfl⟩, ⟨⟩, hpath, nodes, rfl, head, rfl, index, rfl, rfl⟩
    refine ⟨?_, hrecord.trans_le hlen, length_path_le_iff.mp hpath, ?_⟩
    · rintro rfl
      exact hne hrecord.symm
    · rw [layout, frame, hrecord, UInt32.ofNat_toNat, List.append_assoc]
  · rintro ⟨hne, hlen, hpath, rfl⟩
    have hnat : (UInt32.ofNat lookup.record.length).toNat = lookup.record.length :=
      UInt32.toNat_ofNat_of_lt' (hlen.trans_lt (by decide))
    refine ⟨_, _, ⟨lookup.head.length_encode, rfl⟩, _, _, ⟨length_toLeBytes _, rfl⟩,
      toLeBytes (UInt32.ofNat lookup.record.length), _, ⟨length_toLeBytes _, by rw [frame, List.append_assoc]⟩,
      _, rfl, (), ⟨?_, hnat.trans_le hlen⟩, _, _, ⟨hnat.symm, rfl⟩, (),
      length_path_le_iff.mpr hpath, _, rfl, _, rfl, _, rfl, rfl⟩
    rw [hnat]
    exact fun h ↦ hne (List.length_eq_zero_iff.mp h)

/-! ### What a lookup proves -/

section

variable {sha : Sha2} {blake3 : List UInt8 → Digest} {ed : Ed25519} {lookup : Lookup}
  {serverKey : Digest} {tenant name : String} {record : Record}

/-- **What is verified**: the signature of the head, the inclusion of the leaf at the position and size
that the response names, and a record for the member. -/
theorem verify_eq_ok_iff :
    lookup.verify sha blake3 ed serverKey tenant name = .ok record ↔
      lookup.head.signedBy ed .directory serverKey = true ∧
      (∃ index size, toUInt32? lookup.index = some index ∧ toUInt32? lookup.head.size = some size ∧
        MerkleTree.verifyProof blake3 lookup.head.root index size (Record.leaf sha lookup.record)
          lookup.path = true) ∧
      Record.decode sha lookup.record = .ok record ∧ record.tenant = tenant ∧ record.name = name := by
  simp only [verify, Except.bind_eq_ok_iff, Except.refuseIf_eq_ok_iff, Except.okOr_eq_ok_iff,
    Except.mapError_eq_ok_iff, Except.ok.injEq, Bool.not_eq_false, not_or, not_not]
  constructor
  · rintro ⟨⟨⟩, hsigned, index, hindex, size, hsize, ⟨⟩, hproof, record, hdecode, ⟨⟩, hnames, rfl⟩
    exact ⟨hsigned, ⟨index, size, hindex, hsize, hproof⟩, hdecode, hnames⟩
  · rintro ⟨hsigned, ⟨index, size, hindex, hsize, hproof⟩, hdecode, hnames⟩
    exact ⟨(), hsigned, index, hindex, size, hsize, (), hproof, record, hdecode, (), hnames, rfl⟩

theorem toNat_of_toUInt32? {n : UInt64} {m : UInt32} (h : toUInt32? n = some m) :
    m.toNat = n.toNat := by
  rw [toUInt32?] at h
  split_ifs at h with hn
  cases h
  exact UInt32.toNat_ofNat_of_lt' hn

theorem toUInt32?_ofNat {n : ℕ} (h : n < 2 ^ 32) :
    toUInt32? (UInt64.ofNat n) = some (UInt32.ofNat n) := by
  have hn : (UInt64.ofNat n).toNat = n := UInt64.toNat_ofNat_of_lt' (h.trans (by decide))
  rw [toUInt32?, hn, if_pos h]

/-- The inputs that are hashed for the leaves of two byte strings are a collision of SHA-256. -/
def LeafCollision (sha : Sha2) (a b : List UInt8) : Prop :=
  (Record.leafTranscript a).asBytes ≠ (Record.leafTranscript b).asBytes ∧
    sha.sha256 (Record.leafTranscript a).asBytes = sha.sha256 (Record.leafTranscript b).asBytes

/-- **Byte strings with one leaf are equal, or a collision of SHA-256.** -/
theorem eq_or_leafCollision {a b : List UInt8} (h : Record.leaf sha a = Record.leaf sha b) :
    a = b ∨ LeafCollision sha a b := by
  by_cases heq : a = b
  · exact Or.inl heq
  · have hinput := mt Record.leafTranscript_inj.mp heq
    exact Or.inr ⟨hinput, congrArg Leaf.bytes h⟩

end

end Lookup

variable (sha : Sha2) (blake3 : List UInt8 → Digest)

/-- **Lookups are sound and complete.** Under the root of the journal over a list of records, whatever
is verified is the record of the list at the named position, or a collision of SHA-256 or BLAKE3 is
exhibited; and the response for every record of the list, with its own proof under a signed head, is
written, read back and verified. -/
theorem lookups_sound_and_complete (records : List (List UInt8)) (hne : records ≠ [])
    (hlen : records.length < 2 ^ 32) :
    ∃ t, MerkleTree.build blake3 (records.map (Record.leaf sha)) = .ok t ∧
      (∀ (ed : Ed25519) (lookup : Lookup) serverKey tenant name record,
        lookup.head.root = t.root blake3 →
        lookup.verify sha blake3 ed serverKey tenant name = .ok record →
          (∃ h : lookup.index.toNat < records.length, lookup.record = records[lookup.index.toNat] ∧
            Record.decode sha records[lookup.index.toNat] = .ok record ∧ record.tenant = tenant ∧
            record.name = name) ∨
          (∃ bytes ∈ records, Lookup.LeafCollision sha bytes lookup.record) ∨
          (MerkleTree.hashedByBuild blake3 (records.map (Record.leaf sha))).Collide blake3
            (MerkleTree.hashedByProof blake3 (UInt32.ofNat lookup.index.toNat)
              (UInt32.ofNat lookup.head.size.toNat) (Record.leaf sha lookup.record) lookup.path)) ∧
      ∀ (ed : Ed25519) (i : ℕ) bytes record serverKey sig, records[i]? = some bytes →
        Record.decode sha bytes = .ok record →
        (SignedHead.mk (UInt64.ofNat records.length) (t.root blake3) sig).signedBy ed .directory
          serverKey = true →
          ∃ path, t.proof (UInt32.ofNat i) = .ok path ∧
            let lookup : Lookup :=
              ⟨⟨UInt64.ofNat records.length, t.root blake3, sig⟩, UInt64.ofNat i, bytes, path⟩
            ∃ wire, lookup.encode = .ok wire ∧ Lookup.decode wire = .ok lookup ∧
              lookup.verify sha blake3 ed serverKey record.tenant record.name = .ok record := by
  have hne' : records.map (Record.leaf sha) ≠ [] := by simpa using hne
  have hlen' : (records.map (Record.leaf sha)).length < 2 ^ 32 := by rwa [List.length_map]
  have htop := MerkleTree.apex_levels blake3 hne'
  refine ⟨_, MerkleTree.build_eq_ok hne' hlen', ?_, ?_⟩
  · intro ed lookup serverKey tenant name record hroot h
    obtain ⟨-, ⟨index, size, hindex, hsize, hproof⟩, hdecode, htenant, hname⟩ :=
      Lookup.verify_eq_ok_iff.mp h
    rw [hroot, MerkleTree.root, MerkleTree.leafCount_levels hlen'] at hproof
    have hnat := Lookup.toNat_of_toUInt32? hindex
    -- the leaf at the index is the one of the record, or the tree collides
    rcases MerkleTree.verifyProof_binding hlen' htop hproof with ⟨-, hleaf, -⟩ | hcollide
    · rw [List.getElem?_map, Option.map_eq_some_iff] at hleaf
      obtain ⟨bytes, hbytes, hleaf⟩ := hleaf
      rw [hnat] at hbytes
      obtain ⟨hlt, rfl⟩ := List.getElem?_eq_some_iff.mp hbytes
      -- equal leaves have equal records, or the hash of their transcripts collides
      rcases Lookup.eq_or_leafCollision hleaf with heq | hcol
      · rw [← heq] at hdecode
        exact .inl ⟨hlt, heq.symm, hdecode, htenant, hname⟩
      · exact .inr (.inl ⟨_, List.getElem_mem hlt, hcol⟩)
    · rw [← hnat, ← Lookup.toNat_of_toUInt32? hsize, UInt32.ofNat_toNat, UInt32.ofNat_toNat]
      exact .inr (.inr hcollide)
  · intro ed i bytes record serverKey sig hbytes hdecode hsigned
    obtain ⟨hi, -⟩ := List.getElem?_eq_some_iff.mp hbytes
    have hnat : (UInt32.ofNat i).toNat = i := UInt32.toNat_ofNat_of_lt' (hi.trans hlen)
    have hproof := MerkleTree.proof_levels blake3 (i := UInt32.ofNat i) hlen'
      (by rwa [hnat, List.length_map])
    refine ⟨_, hproof, ?_⟩
    intro lookup
    -- the path has no more steps than an index has bits
    have hpath : lookup.path.length ≤ maxInclusionPath := by
      refine (Merkle.length_auditPath_le _ 32 _ ?_).trans (by decide)
      rw [List.length_map]
      exact hlen'.le
    have hencode : lookup.encode = .ok lookup.layout :=
      Lookup.encode_eq_ok_iff.mpr ⟨(Record.decode_eq_ok_iff.mp hdecode).1, hpath, rfl⟩
    refine ⟨_, hencode, Lookup.decode_eq_ok_iff.mpr ⟨Record.ne_nil_of_decode hdecode, hencode⟩, ?_⟩
    refine Lookup.verify_eq_ok_iff.mpr ⟨hsigned, ⟨UInt32.ofNat i, UInt32.ofNat records.length,
      Lookup.toUInt32?_ofNat (hi.trans hlen), Lookup.toUInt32?_ofNat hlen, ?_⟩, hdecode, rfl, rfl⟩
    have hleaf : (records.map (Record.leaf sha))[(UInt32.ofNat i).toNat]? =
        some (Record.leaf sha bytes) := by
      rw [hnat, List.getElem?_map, hbytes]
      rfl
    have hverify := MerkleTree.verifyProof_proofPath hlen' hleaf htop
    rw [List.length_map] at hverify
    show MerkleTree.verifyProof blake3 (MerkleTree.root blake3 _) _ _ _ _ = true
    rw [MerkleTree.root, MerkleTree.leafCount_levels hlen', List.length_map]
    exact hverify

/-- A record of an X25519 key, whose fingerprint is the key. -/
def sampleRecord : Record where
  tenant := "acme"
  name := "ann"
  kem := .x25519HkdfSha256
  public_ := List.replicate 32 7
  fpr := List.Vector.replicate 32 7
  version := 1
  state := .active
  origin := "enrolled"
  at_ := 5

/-- The record of another member. -/
def otherRecord : Record :=
  { sampleRecord with
    name := "bob"
    public_ := List.replicate 32 9
    fpr := List.Vector.replicate 32 9
    at_ := 6 }

/-- The bytes of the two records. -/
def sampleRecords : List (List UInt8) :=
  [encodeContents sampleRecord.contents, encodeContents otherRecord.contents]

/-- Hashes of another package, none of which tells the keys of X25519 apart. -/
def constantSha : Sha2 :=
  ⟨fun _ ↦ List.Vector.replicate 32 0, fun _ _ ↦ List.Vector.replicate 32 0,
    fun _ _ _ n ↦ List.Vector.replicate n 0⟩

/-- SHA-256 of what is hashed for the sample record. -/
def sampleLeaf : Digest :=
  ⟨[0x6b, 0x72, 0x57, 0x82, 0x67, 0x8f, 0x95, 0x27, 0x0d, 0xbe, 0x1c, 0x0b, 0x93, 0xf5, 0x19,
     0x48, 0x6c, 0xa6, 0x7a, 0x5c, 0xe4, 0xa6, 0x6d, 0xd2, 0xc8, 0x3a, 0xf9, 0xb6, 0xc8, 0x81,
     0xb3, 0x52], rfl⟩

/-- SHA-256 of what is hashed for the other one. -/
def otherLeaf : Digest :=
  ⟨[0x74, 0xa0, 0x15, 0x97, 0xe7, 0x5f, 0x26, 0x47, 0x1a, 0xf8, 0xe3, 0xd6, 0x7c, 0x0d, 0x57,
     0xbe, 0x3f, 0xae, 0xa3, 0x71, 0x59, 0x7f, 0x31, 0xf7, 0xbb, 0x55, 0x4c, 0x5d, 0xaa, 0x91,
     0xf6, 0xcb], rfl⟩

/-- SHA-256 as it is at the leaves of the two records. -/
def directorySha : Sha2 :=
  { constantSha with
    sha256 := fun input ↦
      if input = (Record.leafTranscript (encodeContents sampleRecord.contents)).asBytes then sampleLeaf
      else if input = (Record.leafTranscript (encodeContents otherRecord.contents)).asBytes then otherLeaf
      else List.Vector.replicate 32 0 }

/-- BLAKE3 on what is hashed over the two leaves: their parent node, and the roots of one and of two. -/
def directoryBlake3 (input : List UInt8) : Digest :=
  if input[0]? = some 0x01 then
    ⟨[0x46, 0x91, 0xdb, 0xbb, 0xd3, 0xba, 0x51, 0xa8, 0xe4, 0xe0, 0xed, 0xa1, 0x60, 0xd5, 0x48,
       0xf3, 0xfe, 0x65, 0x79, 0xa1, 0x47, 0x8b, 0x82, 0xd9, 0x22, 0xae, 0x3f, 0x83, 0xe2, 0x18,
       0xb2, 0xec], rfl⟩
  else if input[14]? = some 2 then
    ⟨[0x39, 0xe3, 0x9e, 0x3a, 0x63, 0xe2, 0x69, 0x52, 0x50, 0xa4, 0x3b, 0xa0, 0x29, 0x41, 0xc9,
       0x83, 0xea, 0xb8, 0xa4, 0x01, 0x4d, 0xb5, 0xf0, 0x22, 0xb5, 0x89, 0x48, 0xe2, 0x7c, 0x95,
       0x49, 0x4e], rfl⟩
  else
    ⟨[0x6c, 0x63, 0x38, 0x53, 0x3b, 0xe4, 0x9a, 0xdf, 0xba, 0x47, 0x7e, 0x8a, 0x58, 0x6c, 0xf9,
       0x95, 0x17, 0xd1, 0x81, 0x04, 0x03, 0x1c, 0x2f, 0xce, 0xe3, 0xb5, 0x67, 0x0a, 0xb1, 0xcd,
       0x4c, 0xe1], rfl⟩

/-- The key of the server of the directory. -/
def directoryServer : Digest :=
  ⟨[0xf8, 0x0c, 0xcc, 0xdc, 0xe4, 0xae, 0x1c, 0x07, 0xae, 0x20, 0x8a, 0x2a, 0xdf, 0x99, 0xa3,
     0x10, 0xae, 0x42, 0x07, 0xe0, 0x30, 0x6f, 0xa0, 0x23, 0x61, 0x10, 0xb0, 0x68, 0x27, 0xbb,
     0xb8, 0xd0], rfl⟩

/-- Its signature on the head over the first record. -/
def firstHeadSignature : Signature :=
  ⟨[0xde, 0x65, 0xcb, 0x53, 0x19, 0x36, 0x20, 0x49, 0xe0, 0xf7, 0xed, 0x40, 0xda, 0x90, 0xbd,
     0xbe, 0xee, 0x42, 0xc2, 0x0c, 0xfd, 0x2c, 0xf0, 0xec, 0xab, 0x78, 0xf4, 0xc4, 0x8d, 0x9d,
     0x66, 0xb7, 0x3f, 0xdc, 0xb5, 0x41, 0x24, 0xeb, 0xe7, 0x61, 0x85, 0xb0, 0x3e, 0x21, 0xb4,
     0x31, 0xb3, 0x42, 0x40, 0x79, 0x1e, 0x6c, 0x44, 0x96, 0x76, 0x40, 0x54, 0x26, 0x40, 0x33,
     0xaa, 0x9a, 0x69, 0x09], rfl⟩

/-- Its signature on the head over both. -/
def secondHeadSignature : Signature :=
  ⟨[0x92, 0x64, 0x13, 0xe1, 0xff, 0xff, 0x2f, 0x54, 0x07, 0x2c, 0x17, 0x1c, 0xbf, 0x25, 0xad,
     0x88, 0x93, 0xa2, 0x9b, 0x38, 0x42, 0x57, 0x44, 0x04, 0x89, 0xf9, 0x40, 0x6b, 0x2c, 0xee,
     0x6a, 0x9e, 0xdf, 0xfa, 0xd1, 0x65, 0x17, 0x74, 0xca, 0x9f, 0xf9, 0x38, 0xe8, 0x94, 0x04,
     0xca, 0xa2, 0x95, 0xf4, 0x8d, 0x02, 0xda, 0x9e, 0xb0, 0xb9, 0x22, 0x31, 0x7e, 0x34, 0x6b,
     0x8e, 0x05, 0x7d, 0x02], rfl⟩

/-- The head over the first record. -/
def firstHead : SignedHead := ⟨1, rootOf directoryBlake3 1 sampleLeaf, firstHeadSignature⟩

/-- The head over both. -/
def secondHead : SignedHead :=
  ⟨2, rootOf directoryBlake3 2 (nodeOf directoryBlake3 sampleLeaf otherLeaf), secondHeadSignature⟩

/-- Ed25519 as it is at the two heads. -/
def directoryEd25519 : Ed25519 :=
  recordedEd25519 [
    (directoryServer, (headTranscript .directory firstHead.size firstHead.root).asBytes, firstHeadSignature),
    (directoryServer, (headTranscript .directory secondHead.size secondHead.root).asBytes,
      secondHeadSignature)]

theorem decode_encodeContents {record : Record} (hcheck : record.check directorySha = .ok ())
    (henc : Encodes (encodeContents record.contents) record.contents)
    (hlen : encodedLength record.contents ≤ maxRecordLen) :
    Record.decode directorySha (encodeContents record.contents) = .ok record := by
  have hshort : (encodeContents record.contents).length ≤ maxRecordLen := by rwa [henc.length_eq]
  refine Record.decode_eq_ok_iff.mpr ⟨hshort, encodeContents record.contents,
    Carries.refl henc Record.mem_tags_of_mem_contents, ?_⟩
  exact Record.encode_eq_ok_iff.mpr ⟨hcheck, henc, hshort⟩

/-- The record of the second member is looked up at its position and verified, and whatever is verified
there is this record. -/
theorem lookups_two_records :
    sampleRecords.length = 2 ∧
      ∃ t, MerkleTree.build directoryBlake3 (sampleRecords.map (Record.leaf directorySha)) = .ok t ∧
        ∃ path, t.proof 1 = .ok path ∧
          let lookup : Lookup := ⟨secondHead, 1, encodeContents otherRecord.contents, path⟩
          lookup.verify directorySha directoryBlake3 directoryEd25519 directoryServer "acme" "bob" =
              .ok otherRecord ∧
            ((∃ h : 1 < sampleRecords.length, lookup.record = sampleRecords[1] ∧
                Record.decode directorySha sampleRecords[1] = .ok otherRecord ∧
                otherRecord.tenant = "acme" ∧ otherRecord.name = "bob") ∨
              (∃ bytes ∈ sampleRecords, Lookup.LeafCollision directorySha bytes lookup.record) ∨
              (MerkleTree.hashedByBuild directoryBlake3
                  (sampleRecords.map (Record.leaf directorySha))).Collide directoryBlake3
                (MerkleTree.hashedByProof directoryBlake3 1 2
                  (Record.leaf directorySha lookup.record) lookup.path)) := by
  obtain ⟨t, ht, hsound, hcomplete⟩ := lookups_sound_and_complete directorySha directoryBlake3
    sampleRecords (by decide) (by decide)
  have hroot : t.root directoryBlake3 = secondHead.root := by
    have hbuild : (MerkleTree.build directoryBlake3 (sampleRecords.map (Record.leaf directorySha))).map
        (MerkleTree.root directoryBlake3) = .ok secondHead.root := by
      decide +kernel
    rw [ht] at hbuild
    exact Except.ok.inj hbuild
  have hdecode : Record.decode directorySha (encodeContents otherRecord.contents) = .ok otherRecord :=
    decode_encodeContents (by decide) (Encodes.of_forall (by decide) (by decide)) (by decide)
  have hsigned : secondHead.signedBy directoryEd25519 .directory directoryServer = true := by
    decide +kernel
  obtain ⟨path, hpath, wire, -, -, hverify⟩ := hcomplete directoryEd25519 1 _ otherRecord
    directoryServer secondHeadSignature rfl hdecode (by rw [hroot]; exact hsigned)
  rw [hroot] at hverify
  exact ⟨rfl, t, ht, path, hpath, hverify, hsound _ _ _ _ _ _ hroot.symm hverify⟩

end Directory

end OpenCrate.Protocol
