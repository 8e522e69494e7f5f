import OpenCrate.Crypto.Algorithms
import OpenCrate.Format.KeySlot
import OpenCrate.Format.TlvRecord

/-!
# The nested records of a header

The suite, the license server and the coauthors, as in `oc-format`. Each has a writer, a reader and a
predicate of the values that both agree on:

* `Suite.supported` is the only suite that is read. The writer is more generous: it refuses a tree
  hash it cannot compute, but neither of the other two identifiers.
* `Authority.Valid` and `checkCoauthors` are the checks of both sides.
-/

namespace OpenCrate.Format

open Crypto
open Except (refuseIf okOr)

/-! ### The suite -/

/-- File algorithm suite. The mechanism of keys is defined per slot. -/
structure Suite where
  sig : SigAlg
  aead : AeadAlg
  treeHash : TreeHashAlg
  deriving DecidableEq, Repr

namespace SuiteTag

/-- Tag of the signature algorithm. -/
def sig : UInt16 := 1

/-- Tag of the encryption algorithm. -/
def aead : UInt16 := 2

/-- Tag of the tree hash. -/
def treeHash : UInt16 := 3

end SuiteTag

/-- An unknown algorithm is the same kind of event as an unknown critical field. -/
def unsupported (tag : UInt16) : FormatError := .unknownCriticalField tag

/-- Write a suite. -/
def encodeSuite (suite : Suite) : Except FormatError (List UInt8) := do
  suite.treeHash.ensureSupported.mapError fun _ ↦ unsupported SuiteTag.treeHash
  let w ← TlvWriter.new.put SuiteTag.sig [suite.sig.toU8]
  let w ← w.put SuiteTag.aead [suite.aead.toU8]
  let w ← w.put SuiteTag.treeHash [suite.treeHash.toU8]
  .ok w.finish

/-- The algorithms read so far. -/
structure SuiteReading where
  sig : Option SigAlg := none
  aead : Option AeadAlg := none
  treeHash : Option TreeHashAlg := none

/-- One field of a suite, by the tags of `SuiteTag`. The author's signature is Ed25519 and nothing
else: accepting another would declare one algorithm while verification uses another. -/
def decodeSuiteStep (acc : SuiteReading) (field : Field) : Except FormatError SuiteReading :=
  match field.tag with
  | 1 => do
    let number ← field.u8
    let parsed ← (SigAlg.fromU8 number).mapError fun _ ↦ unsupported field.tag
    refuseIf (parsed ≠ .ed25519) (unsupported field.tag)
    .ok { acc with sig := some parsed }
  | 2 => do
    let number ← field.u8
    let parsed ← (AeadAlg.fromU8 number).mapError fun _ ↦ unsupported field.tag
    .ok { acc with aead := some parsed }
  | 3 => do
    let number ← field.u8
    let parsed ← (TreeHashAlg.fromU8 number).mapError fun _ ↦ unsupported field.tag
    .ok { acc with treeHash := some parsed }
  | other => skipUnknown other acc

/-- Read a suite. -/
def decodeSuite (bytes : List UInt8) : Except FormatError Suite := do
  let acc ← TlvReader.foldFields decodeSuiteStep (TlvReader.new bytes) {}
  let sig ← okOr acc.sig (.missingField SuiteTag.sig)
  let aead ← okOr acc.aead (.missingField SuiteTag.aead)
  let treeHash ← okOr acc.treeHash (.missingField SuiteTag.treeHash)
  .ok ⟨sig, aead, treeHash⟩

/-! ### The license server -/

/-- License server coordinates. -/
structure Authority where
  urls : List String
  /-- Identifier of the server key used when packing. -/
  sealingKid : Digest
  /-- Pinned lease verification key. -/
  leaseVerifyKey : Digest
  deriving DecidableEq

namespace AuthorityTag

/-- Tag of the addresses. -/
def urls : UInt16 := 1

/-- Tag of the sealing key. -/
def sealingKid : UInt16 := 2

/-- Tag of the lease verification key. -/
def leaseVerifyKey : UInt16 := 3

end AuthorityTag

/-- Upper bound on an individual server address length. -/
def maxUrlLen : ℕ := 2048

/-- Upper bound on the number of server addresses. -/
def maxUrls : ℕ := 16

/-- Require printable ASCII without spaces; the refusal names the first byte that is not. -/
def checkAddressCharset (url : String) : Except FormatError Unit :=
  match (utf8 url).find? fun byte ↦ ¬(0x21 ≤ byte ∧ byte ≤ 0x7E) with
  | some byte => .error (.badAddressByte AuthorityTag.urls byte)
  | none => .ok ()

/-- A key must be substantively present, not merely have the right length. -/
def checkKeyPresent (tag : UInt16) (key : Digest) : Except FormatError Unit :=
  refuseIf (key.toList.all (· == 0) = true) (.degenerateKey tag)

/-- The record of an address. -/
def urlRecord (index : ℕ) (url : String) : Except FormatError (UInt16 × List UInt8) := do
  refuseIf (maxUrlLen < (utf8 url).length) (.badFieldLength AuthorityTag.urls (utf8 url).length)
  checkAddressCharset url
  let tag ← indexTag index
  .ok (tag, utf8 url)

/-- Write the license server. -/
def encodeAuthority (authority : Authority) : Except FormatError (List UInt8) := do
  refuseIf (maxUrls < authority.urls.length)
    (.badFieldLength AuthorityTag.urls authority.urls.length)
  let urls ← TlvWriter.writeEach urlRecord authority.urls
  checkKeyPresent AuthorityTag.leaseVerifyKey authority.leaseVerifyKey
  checkKeyPresent AuthorityTag.sealingKid authority.sealingKid
  let w ← TlvWriter.new.put AuthorityTag.urls urls
  let w ← w.put AuthorityTag.sealingKid authority.sealingKid.toList
  let w ← w.put AuthorityTag.leaseVerifyKey authority.leaseVerifyKey.toList
  .ok w.finish

/-- Read an address. -/
def decodeUrl (value : List UInt8) : Except FormatError String := do
  refuseIf (maxUrlLen < value.length) (.badFieldLength AuthorityTag.urls value.length)
  let text ← okOr (fromUtf8? value) (.badFieldLength AuthorityTag.urls value.length)
  checkAddressCharset text
  .ok text

/-- The license server read so far, and which of its keys have been seen. -/
structure AuthorityReading where
  authority : Authority
  seenKid : Bool := false
  seenKey : Bool := false

/-- Before the first field there is no address and the keys are zero. -/
def AuthorityReading.start : AuthorityReading where
  authority := ⟨[], List.Vector.replicate 32 0, List.Vector.replicate 32 0⟩

/-- One field of the license server, by the tags of `AuthorityTag`. -/
def decodeAuthorityStep (acc : AuthorityReading) (field : Field) :
    Except FormatError AuthorityReading :=
  match field.tag with
  | 1 => do
    let urls ← TlvReader.collect maxUrls (.badFieldLength AuthorityTag.urls) decodeUrl field.value
      acc.authority.urls
    .ok { acc with authority := { acc.authority with urls := urls } }
  | 2 => do
    let key ← field.array 32
    .ok { acc with authority := { acc.authority with sealingKid := key }, seenKid := true }
  | 3 => do
    let key ← field.array 32
    .ok { acc with authority := { acc.authority with leaseVerifyKey := key }, seenKey := true }
  | other => skipUnknown other acc

/-- Read the license server. -/
def decodeAuthority (bytes : List UInt8) : Except FormatError Authority := do
  let acc ← TlvReader.foldFields decodeAuthorityStep (TlvReader.new bytes) AuthorityReading.start
  refuseIf (acc.seenKid = false) (.missingField AuthorityTag.sealingKid)
  refuseIf (acc.seenKey = false) (.missingField AuthorityTag.leaseVerifyKey)
  checkKeyPresent AuthorityTag.sealingKid acc.authority.sealingKid
  checkKeyPresent AuthorityTag.leaseVerifyKey acc.authority.leaseVerifyKey
  .ok acc.authority

/-! ### Coauthors -/

/-- Membership authorized to administer the file, and its signature threshold. -/
structure Coauthors where
  threshold : UInt8
  keys : List Digest
  deriving DecidableEq

/-- Tag of the coauthors in the header. -/
def coauthorsTag : UInt16 := 0x8001

namespace CoauthorsTag

/-- Tag of the threshold. -/
def threshold : UInt16 := 1

/-- Tag of the keys. -/
def keys : UInt16 := 2

end CoauthorsTag

/-- Membership limit. -/
def maxCoauthors : ℕ := 16

/-- Some key stands again after itself. -/
def hasRepeatedKey : List Digest → Bool
  | [] => false
  | key :: keys => keys.any (fun other ↦ other = key) || hasRepeatedKey keys

/-- Whether membership can be enforced. -/
def checkCoauthors (coauthors : Coauthors) : Except FormatError Unit :=
  if coauthors.threshold = 0 then
    refuseIf (coauthors.keys ≠ []) (.badFieldLength coauthorsTag coauthors.keys.length)
  else do
    refuseIf (coauthors.keys = [] ∨ maxCoauthors < coauthors.keys.length)
      (.badFieldLength coauthorsTag coauthors.keys.length)
    refuseIf (coauthors.keys.length < coauthors.threshold.toNat)
      (.badFieldLength coauthorsTag coauthors.threshold.toNat)
    refuseIf (hasRepeatedKey coauthors.keys = true) (.degenerateKey coauthorsTag)

/-- Write the coauthors. Without a quorum the field of keys is absent, not empty. -/
def encodeCoauthors (coauthors : Coauthors) : Except FormatError (List UInt8) := do
  checkCoauthors coauthors
  let w ← TlvWriter.new.put CoauthorsTag.threshold [coauthors.threshold]
  if coauthors.threshold ≠ 0 then
    let w ← w.put CoauthorsTag.keys (coauthors.keys.flatMap List.Vector.toList)
    .ok w.finish
  else .ok w.finish

/-- The first `count` parts of `n` elements each. -/
def chunks {α : Type} (n : ℕ) : ℕ → List α → List (List α)
  | 0, _ => []
  | count + 1, l => l.take n :: chunks n count (l.drop n)

/-- The parts of `n` elements each; elements that do not fill a part are left out. -/
def chunksExact {α : Type} (n : ℕ) (l : List α) : List (List α) := chunks n (l.length / n) l

/-- The coauthors read so far. -/
structure CoauthorsReading where
  threshold : Option UInt8 := none
  keys : List Digest := []

/-- One field of the coauthors, by the tags of `CoauthorsTag`. Others are critical, whatever their
range. -/
def decodeCoauthorsStep (acc : CoauthorsReading) (field : Field) :
    Except FormatError CoauthorsReading :=
  match field.tag with
  | 1 => do
    let threshold ← field.u8
    .ok { acc with threshold := some threshold }
  | 2 => do
    refuseIf (field.value = [] ∨ field.value.length % 32 ≠ 0)
      (.badFieldLength CoauthorsTag.keys field.value.length)
    let keys ← (chunksExact 32 field.value).mapM (toArray 32 CoauthorsTag.keys)
    .ok { acc with keys := acc.keys ++ keys }
  | other => .error (.unknownCriticalField other)

/-- Read the coauthors. -/
def decodeCoauthors (bytes : List UInt8) : Except FormatError Coauthors := do
  let acc ← TlvReader.foldFields decodeCoauthorsStep (TlvReader.new bytes) {}
  let threshold ← okOr acc.threshold (.missingField CoauthorsTag.threshold)
  let coauthors : Coauthors := ⟨threshold, acc.keys⟩
  checkCoauthors coauthors
  .ok coauthors

/-! ### Suites, back and forth -/

namespace Suite

/-- The only suite that is read. -/
def supported : Suite := ⟨.ed25519, .xChaCha20Poly1305, .blake3⟩

/-- The tags and values of a suite. -/
def contents (suite : Suite) : Contents :=
  [(1, [suite.sig.toU8]), (2, [suite.aead.toU8]), (3, [suite.treeHash.toU8])]

end Suite

/-- **What the suite writer does.** It refuses a tree hash the build cannot compute, and nothing
else. -/
theorem encodeSuite_eq_ok_iff {suite : Suite} {bytes : List UInt8} :
    encodeSuite suite = .ok bytes ↔ suite.treeHash = .blake3 ∧ Encodes bytes suite.contents := by
  have hwrite : encodeSuite suite = (do
      suite.treeHash.ensureSupported.mapError fun _ ↦ unsupported SuiteTag.treeHash
      TlvWriter.writeAll suite.contents) := by
    simp only [encodeSuite, Suite.contents, TlvWriter.writeAll, TlvWriter.putMany_cons,
      TlvWriter.putMany_nil, bind_assoc, Except.ok_bind]
    rfl
  rw [hwrite, Except.check_bind_eq_ok_iff, TlvWriter.writeAll_eq_ok_iff]
  refine and_congr_left fun _ ↦ ?_
  cases suite.treeHash <;> simp [TreeHashAlg.ensureSupported, Except.mapError]

/-- The supported suite is read back. -/
theorem decodeSuite_supported {bytes : List UInt8} (h : Encodes bytes Suite.supported.contents) :
    decodeSuite bytes = .ok Suite.supported := by
  have hfold : (fieldsOf 0 Suite.supported.contents).foldlM decodeSuiteStep {} =
      .ok ⟨some .ed25519, some .xChaCha20Poly1305, some .blake3⟩ := by rfl
  rw [decodeSuite, h.foldFields, hfold]
  rfl

/-- No other suite is read. -/
theorem eq_supported_of_decodeSuite_contents {bytes : List UInt8} {suite suite' : Suite}
    (h : Encodes bytes suite.contents) (hdecode : decodeSuite bytes = .ok suite') :
    suite = Suite.supported := by
  obtain ⟨sig, aead, treeHash⟩ := suite
  rw [decodeSuite, h.foldFields] at hdecode
  cases sig <;> cases aead <;> cases treeHash <;> first | rfl | exact nomatch hdecode

theorem exists_encodeSuite_supported :
    ∃ bytes, encodeSuite Suite.supported = .ok bytes ∧ bytes.length < 2 ^ 32 :=
  ⟨_, rfl, by decide⟩

/-- What has been read of a suite is supported. -/
structure SuiteReading.Supported (acc : SuiteReading) : Prop where
  sig : ∀ alg, acc.sig = some alg → alg = .ed25519
  aead : ∀ alg, acc.aead = some alg → alg = .xChaCha20Poly1305
  treeHash : ∀ alg, acc.treeHash = some alg → alg = .blake3

/-- Every field of a suite keeps the reading within what is supported. -/
theorem SuiteReading.Supported.step {acc acc' : SuiteReading} {field : Field}
    (hacc : acc.Supported) (h : decodeSuiteStep acc field = .ok acc') : acc'.Supported := by
  unfold decodeSuiteStep at h
  split at h
  · obtain ⟨number, -, h⟩ := Except.bind_eq_ok_iff.mp h
    obtain ⟨alg, -, h⟩ := Except.bind_eq_ok_iff.mp h
    obtain ⟨hed, h⟩ := Except.check_bind_eq_ok_iff.mp h
    rw [Except.refuseIf_eq_ok_iff, not_not] at hed
    obtain rfl := Except.ok.inj h
    exact { hacc with sig := fun _ heq ↦ Option.some_inj.mp heq ▸ hed }
  · obtain ⟨number, -, h⟩ := Except.bind_eq_ok_iff.mp h
    obtain ⟨alg, halg, h⟩ := Except.bind_eq_ok_iff.mp h
    obtain rfl := Except.ok.inj h
    rw [Except.mapError_eq_ok_iff] at halg
    exact { hacc with aead := fun _ heq ↦ Option.some_inj.mp heq ▸ AeadAlg.eq_of_fromU8 halg }
  · obtain ⟨number, -, h⟩ := Except.bind_eq_ok_iff.mp h
    obtain ⟨alg, halg, h⟩ := Except.bind_eq_ok_iff.mp h
    obtain rfl := Except.ok.inj h
    rw [Except.mapError_eq_ok_iff] at halg
    exact { hacc with
      treeHash := fun _ heq ↦ Option.some_inj.mp heq ▸ TreeHashAlg.eq_of_fromU8 halg }
  · exact eq_of_skipUnknown h ▸ hacc

/-- **Only the supported suite is read.** -/
theorem eq_supported_of_decodeSuite {bytes : List UInt8} {suite : Suite}
    (h : decodeSuite bytes = .ok suite) : suite = Suite.supported := by
  obtain ⟨acc, hfold, h⟩ := Except.bind_eq_ok_iff.mp h
  obtain ⟨sig, hsig, h⟩ := Except.bind_eq_ok_iff.mp h
  obtain ⟨aead, haead, h⟩ := Except.bind_eq_ok_iff.mp h
  obtain ⟨treeHash, htreeHash, h⟩ := Except.bind_eq_ok_iff.mp h
  rw [Except.okOr_eq_ok_iff] at hsig haead htreeHash
  obtain ⟨l, -, hfold⟩ := exists_encodes_of_foldFields hfold
  have hacc : acc.Supported := Except.foldlM_invariant hfold
    ⟨fun _ ↦ nofun, fun _ ↦ nofun, fun _ ↦ nofun⟩ fun _ _ _ _ ↦ SuiteReading.Supported.step
  obtain rfl := Except.ok.inj h
  rw [hacc.sig sig hsig, hacc.aead aead haead, hacc.treeHash treeHash htreeHash]
  rfl

/-! ### The license server, back and forth -/

/-- An address that both sides accept. -/
def ValidUrl (url : String) : Prop :=
  (utf8 url).length ≤ maxUrlLen ∧ checkAddressCharset url = .ok ()

/-- A license server that both sides accept. -/
structure Authority.Valid (authority : Authority) : Prop where
  fewUrls : authority.urls.length ≤ maxUrls
  urls : ∀ url ∈ authority.urls, ValidUrl url
  sealingKid : checkKeyPresent AuthorityTag.sealingKid authority.sealingKid = .ok ()
  leaseVerifyKey : checkKeyPresent AuthorityTag.leaseVerifyKey authority.leaseVerifyKey = .ok ()

/-- A URL is read from its own bytes, and from no other ones. -/
theorem decodeUrl_eq_ok_iff {value : List UInt8} {url : String} :
    decodeUrl value = .ok url ↔ value = utf8 url ∧ ValidUrl url := by
  constructor
  · intro h
    obtain ⟨hlen, h⟩ := Except.check_bind_eq_ok_iff.mp h
    obtain ⟨text, htext, h⟩ := Except.bind_eq_ok_iff.mp h
    obtain ⟨hcharset, h⟩ := Except.check_bind_eq_ok_iff.mp h
    rw [Except.okOr_eq_ok_iff, fromUtf8?_eq_some_iff] at htext
    rw [Except.refuseIf_eq_ok_iff, not_lt] at hlen
    obtain rfl := Except.ok.inj h
    exact ⟨htext, htext ▸ hlen, hcharset⟩
  · rintro ⟨rfl, hlen, hcharset⟩
    rw [decodeUrl, Except.refuseIf_of_not (not_lt.mpr hlen), fromUtf8?_eq_some_iff.mpr rfl]
    simp only [Except.okOr_some, Except.ok_bind, hcharset]

theorem urlRecord_eq_ok_iff (n : ℕ) (url : String) (tag : UInt16) (value : List UInt8) :
    urlRecord n url = .ok (tag, value) ↔
      n < 2 ^ 16 ∧ tag = UInt16.ofNat n ∧ ValidUrl url ∧ utf8 url = value := by
  constructor
  · intro h
    obtain ⟨hlen, h⟩ := Except.check_bind_eq_ok_iff.mp h
    obtain ⟨hcharset, h⟩ := Except.check_bind_eq_ok_iff.mp h
    obtain ⟨tag', htag, h⟩ := Except.bind_eq_ok_iff.mp h
    rw [Except.refuseIf_eq_ok_iff, not_lt] at hlen
    obtain ⟨hn, rfl⟩ := indexTag_eq_ok_iff.mp htag
    obtain ⟨rfl, rfl⟩ := Prod.mk.inj (Except.ok.inj h)
    exact ⟨hn, rfl, ⟨hlen, hcharset⟩, rfl⟩
  · rintro ⟨hn, rfl, ⟨hlen, hcharset⟩, rfl⟩
    rw [urlRecord, Except.refuseIf_of_not (not_lt.mpr hlen), hcharset,
      indexTag_eq_ok_iff.mpr ⟨hn, rfl⟩]
    rfl

/-- The tags and values of a license server, given its addresses. -/
def Authority.contents (authority : Authority) (urls : List UInt8) : Contents :=
  [(1, urls), (2, authority.sealingKid.toList), (3, authority.leaseVerifyKey.toList)]

theorem encodeAuthority_eq_writeAll (authority : Authority) :
    encodeAuthority authority = (do
      refuseIf (maxUrls < authority.urls.length)
        (.badFieldLength AuthorityTag.urls authority.urls.length)
      let urls ← TlvWriter.writeEach urlRecord authority.urls
      checkKeyPresent AuthorityTag.leaseVerifyKey authority.leaseVerifyKey
      checkKeyPresent AuthorityTag.sealingKid authority.sealingKid
      TlvWriter.writeAll (authority.contents urls)) := by
  simp only [encodeAuthority, Authority.contents, TlvWriter.writeAll, TlvWriter.putMany_cons,
    TlvWriter.putMany_nil, bind_assoc, Except.ok_bind]
  rfl

/-- **What the writer of license servers does.** -/
theorem encodeAuthority_eq_ok_iff {authority : Authority} {bytes : List UInt8} :
    encodeAuthority authority = .ok bytes ↔ authority.Valid ∧
      ∃ urls, Encodes urls (numbered 0 (authority.urls.map utf8)) ∧
        Encodes bytes (authority.contents urls) := by
  have hurls : ∀ {urls}, TlvWriter.writeEach urlRecord authority.urls = .ok urls ↔
      authority.urls.length ≤ 2 ^ 16 ∧ (∀ url ∈ authority.urls, ValidUrl url) ∧
        Encodes urls (numbered 0 (authority.urls.map utf8)) := by
    intro urls
    rw [TlvWriter.writeEach_eq_ok_iff urlRecord_eq_ok_iff]
    simp only [List.forall₂_and_left, ← List.forall₂_map_left_iff, List.forall₂_eq_eq_eq]
    refine and_congr_right fun _ ↦ ⟨?_, fun ⟨hvalid, henc⟩ ↦ ⟨_, ⟨hvalid, rfl⟩, henc⟩⟩
    rintro ⟨_, ⟨hvalid, rfl⟩, henc⟩
    exact ⟨hvalid, henc⟩
  rw [encodeAuthority_eq_writeAll, Except.check_bind_eq_ok_iff, Except.refuseIf_eq_ok_iff, not_lt,
    Except.bind_eq_ok_iff]
  simp only [hurls, Except.check_bind_eq_ok_iff, TlvWriter.writeAll_eq_ok_iff]
  constructor
  · rintro ⟨hfew, urls, ⟨-, hvalid, hurls⟩, hkey, hkid, henc⟩
    exact ⟨⟨hfew, hvalid, hkid, hkey⟩, urls, hurls, henc⟩
  · rintro ⟨⟨hfew, hvalid, hkid, hkey⟩, urls, hurls, henc⟩
    exact ⟨hfew, urls, ⟨hfew.trans (by decide), hvalid, hurls⟩, hkey, hkid, henc⟩

/-- A written license server is read back. -/
theorem decodeAuthority_encode {authority : Authority} {bytes urls : List UInt8}
    (h : authority.Valid) (hurls : Encodes urls (numbered 0 (authority.urls.map utf8)))
    (henc : Encodes bytes (authority.contents urls)) :
    decodeAuthority bytes = .ok authority := by
  have hread : TlvReader.collect maxUrls (.badFieldLength AuthorityTag.urls) decodeUrl urls [] =
      .ok authority.urls := by
    refine TlvReader.collect_numbered hurls ?_ h.fewUrls
    rw [List.forall₂_map_left_iff, List.forall₂_same]
    exact fun url hurl ↦ decodeUrl_eq_ok_iff.mpr ⟨rfl, h.urls url hurl⟩
  have hfold : (fieldsOf 0 (authority.contents urls)).foldlM decodeAuthorityStep
      AuthorityReading.start = .ok ⟨authority, true, true⟩ := by
    simp [Authority.contents, fieldsOf, decodeAuthorityStep, AuthorityReading.start, hread]
  rw [decodeAuthority, henc.foldFields, hfold]
  simp [refuseIf, h.sealingKid, h.leaseVerifyKey]

/-- A valid license server is written. -/
theorem Authority.Valid.exists_encode {authority : Authority} (h : authority.Valid) :
    ∃ bytes, encodeAuthority authority = .ok bytes ∧ bytes.length < 2 ^ 32 := by
  have hlen : (authority.urls.map utf8).length ≤ maxUrls := by
    rw [List.length_map]
    exact h.fewUrls
  have hshort : ∀ value ∈ authority.urls.map utf8, value.length ≤ maxUrlLen := by
    intro value hvalue
    obtain ⟨url, hurl, rfl⟩ := List.mem_map.mp hvalue
    exact (h.urls url hurl).1
  have htotal : encodedLength (numbered 0 (authority.urls.map utf8)) ≤
      maxUrls * (fieldPrefixLen + maxUrlLen) :=
    (encodedLength_numbered_le hshort 0).trans (Nat.mul_le_mul_right _ hlen)
  have hbound : maxUrls * (fieldPrefixLen + maxUrlLen) = 32864 := rfl
  have hpositions : 0 + (authority.urls.map utf8).length ≤ 2 ^ 16 := by
    rw [Nat.zero_add]
    exact hlen.trans (by decide)
  obtain ⟨urls, hurls, -⟩ := Encodes.exists_of_short (numbered_increasing hpositions) (by omega)
  have hurlsLen := hurls.length_eq
  have hcontents : encodedLength (authority.contents urls) < 2 ^ 32 := by
    simp only [Authority.contents, encodedLength_cons, encodedLength_nil, List.Vector.toList_length,
      fieldPrefixLen]
    omega
  have htags : ((authority.contents urls).map Prod.fst).Pairwise (· < ·) :=
    (by decide : [(1 : UInt16), 2, 3].Pairwise (· < ·))
  obtain ⟨bytes, henc, hbytes⟩ := Encodes.exists_of_short htags hcontents
  exact ⟨bytes, encodeAuthority_eq_ok_iff.mpr ⟨h, urls, hurls, henc⟩, hbytes⟩

/-- **What the reader of license servers accepts.** -/
theorem valid_of_decodeAuthority {bytes : List UInt8} {authority : Authority}
    (h : decodeAuthority bytes = .ok authority) : authority.Valid := by
  obtain ⟨acc, hfold, h⟩ := Except.bind_eq_ok_iff.mp h
  obtain ⟨-, h⟩ := Except.check_bind_eq_ok_iff.mp h
  obtain ⟨-, h⟩ := Except.check_bind_eq_ok_iff.mp h
  obtain ⟨hkid, h⟩ := Except.check_bind_eq_ok_iff.mp h
  obtain ⟨hkey, h⟩ := Except.check_bind_eq_ok_iff.mp h
  obtain ⟨l, -, hfold⟩ := exists_encodes_of_foldFields hfold
  obtain rfl := Except.ok.inj h
  obtain ⟨hfew, hurls⟩ := Except.foldlM_invariant
    (P := fun acc : AuthorityReading ↦
      acc.authority.urls.length ≤ maxUrls ∧ ∀ url ∈ acc.authority.urls, ValidUrl url)
    hfold ⟨Nat.zero_le _, nofun⟩ (by
      rintro field - acc acc' ⟨hfew, hurls⟩ hstep
      unfold decodeAuthorityStep at hstep
      split at hstep
      · obtain ⟨urls, hcollect, hstep⟩ := Except.bind_eq_ok_iff.mp hstep
        obtain rfl := Except.ok.inj hstep
        exact TlvReader.forall_of_collect hcollect (fun h ↦ (decodeUrl_eq_ok_iff.mp h).2) hfew hurls
      · obtain ⟨_, -, hstep⟩ := Except.bind_eq_ok_iff.mp hstep
        exact Except.ok.inj hstep ▸ ⟨hfew, hurls⟩
      · obtain ⟨_, -, hstep⟩ := Except.bind_eq_ok_iff.mp hstep
        exact Except.ok.inj hstep ▸ ⟨hfew, hurls⟩
      · exact eq_of_skipUnknown hstep ▸ ⟨hfew, hurls⟩)
  exact ⟨hfew, hurls, hkid, hkey⟩

/-! ### Coauthors, back and forth -/

theorem length_flatMap_keys (keys : List Digest) :
    (keys.flatMap List.Vector.toList).length = 32 * keys.length := by
  induction keys with
  | nil => rfl
  | cons key keys ih =>
    rw [List.flatMap_cons, List.length_append, key.toList_length, ih, List.length_cons]
    omega

/-- Keys written one after the other are read back. -/
theorem mapM_toArray_chunksExact (tag : UInt16) (keys : List Digest) :
    (chunksExact 32 (keys.flatMap List.Vector.toList)).mapM (toArray 32 tag) = .ok keys := by
  have hcount : (keys.flatMap List.Vector.toList).length / 32 = keys.length := by
    rw [length_flatMap_keys, Nat.mul_div_cancel_left _ (by decide)]
  rw [chunksExact, hcount]
  induction keys with
  | nil => rfl
  | cons key keys ih =>
    rw [List.length_cons, chunks, List.flatMap_cons, List.take_left' key.toList_length,
      List.drop_left' key.toList_length, List.mapM_cons, toArray_eq_ok_iff.mpr rfl,
      ih (by rw [length_flatMap_keys, Nat.mul_div_cancel_left _ (by decide)])]
    rfl

/-- The tags and values of coauthors. -/
def Coauthors.contents (coauthors : Coauthors) : Contents :=
  (1, [coauthors.threshold]) ::
    if coauthors.threshold ≠ 0 then [(2, coauthors.keys.flatMap List.Vector.toList)] else []

/-- A roster of coauthors is written if it passes its check. -/
theorem encodeCoauthors_eq_ok_iff {coauthors : Coauthors} {bytes : List UInt8} :
    encodeCoauthors coauthors = .ok bytes ↔
      checkCoauthors coauthors = .ok () ∧ Encodes bytes coauthors.contents := by
  have hwrite : encodeCoauthors coauthors = (do
      checkCoauthors coauthors
      TlvWriter.writeAll coauthors.contents) := by
    unfold encodeCoauthors Coauthors.contents TlvWriter.writeAll
    split_ifs <;>
      simp only [TlvWriter.putMany_cons, TlvWriter.putMany_nil, bind_assoc, Except.ok_bind] <;> rfl
  rw [hwrite, Except.check_bind_eq_ok_iff, TlvWriter.writeAll_eq_ok_iff]

/-- Without a quorum there are no keys; with one there are some, but not many. -/
theorem checkCoauthors_keys {coauthors : Coauthors} (h : checkCoauthors coauthors = .ok ()) :
    (coauthors.threshold = 0 ↔ coauthors.keys = []) ∧ coauthors.keys.length ≤ maxCoauthors := by
  unfold checkCoauthors at h
  split_ifs at h with hzero
  · rw [Except.refuseIf_eq_ok_iff, not_not] at h
    exact ⟨iff_of_true hzero h, h ▸ Nat.zero_le _⟩
  · obtain ⟨hkeys, -⟩ := Except.check_bind_eq_ok_iff.mp h
    rw [Except.refuseIf_eq_ok_iff, not_or, not_lt] at hkeys
    exact ⟨iff_of_false hzero hkeys.1, hkeys.2⟩

/-- Written coauthors are read back. -/
theorem decodeCoauthors_encode {coauthors : Coauthors} {bytes : List UInt8}
    (h : checkCoauthors coauthors = .ok ()) (henc : Encodes bytes coauthors.contents) :
    decodeCoauthors bytes = .ok coauthors := by
  have hkeys := (checkCoauthors_keys h).1
  have hfold : (fieldsOf 0 coauthors.contents).foldlM decodeCoauthorsStep {} =
      .ok ⟨some coauthors.threshold, coauthors.keys⟩ := by
    unfold Coauthors.contents
    split_ifs with hzero
    · have hne : coauthors.keys ≠ [] := fun hnil ↦ hzero (hkeys.mpr hnil)
      have hflat : coauthors.keys.flatMap List.Vector.toList ≠ [] := by
        rw [ne_eq, ← List.length_eq_zero_iff, length_flatMap_keys, Nat.mul_eq_zero,
          List.length_eq_zero_iff]
        simp [hne]
      simp [fieldsOf, decodeCoauthorsStep, refuseIf, hflat, mapM_toArray_chunksExact]
    · rw [not_not] at hzero
      simp [fieldsOf, decodeCoauthorsStep, hkeys.mp hzero]
  rw [decodeCoauthors, henc.foldFields, hfold]
  simp only [Except.ok_bind, Except.okOr_some, h]

theorem exists_encodeCoauthors {coauthors : Coauthors} (h : checkCoauthors coauthors = .ok ()) :
    ∃ bytes, encodeCoauthors coauthors = .ok bytes ∧ bytes.length < 2 ^ 32 := by
  have hkeys := (checkCoauthors_keys h).2
  have hmax : maxCoauthors = 16 := rfl
  have hcontents : encodedLength coauthors.contents < 2 ^ 32 := by
    unfold Coauthors.contents
    split_ifs <;>
      simp only [encodedLength_cons, encodedLength_nil, List.length_singleton, length_flatMap_keys,
        fieldPrefixLen] <;> omega
  have htags : (coauthors.contents.map Prod.fst).Pairwise (· < ·) := by
    unfold Coauthors.contents
    split_ifs <;> simp
  obtain ⟨bytes, henc, hbytes⟩ := Encodes.exists_of_short htags hcontents
  exact ⟨bytes, encodeCoauthors_eq_ok_iff.mpr ⟨h, henc⟩, hbytes⟩

/-- A roster that is read passes the same check. -/
theorem check_of_decodeCoauthors {bytes : List UInt8} {coauthors : Coauthors}
    (h : decodeCoauthors bytes = .ok coauthors) : checkCoauthors coauthors = .ok () := by
  obtain ⟨acc, -, h⟩ := Except.bind_eq_ok_iff.mp h
  obtain ⟨threshold, -, h⟩ := Except.bind_eq_ok_iff.mp h
  obtain ⟨hcheck, h⟩ := Except.check_bind_eq_ok_iff.mp h
  exact Except.ok.inj h ▸ hcheck

end OpenCrate.Format
