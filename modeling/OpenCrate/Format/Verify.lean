import OpenCrate.Crypto.Sign
import OpenCrate.Format.HeaderRoundTrip

/-!
# Container verification

The entry point of `oc-format`: `Prologue.split` checks structure, the decoder obtains the author key
and the suite, and the signature is verified over the original header bytes. Decoding therefore comes
before signature verification. A valid signature proves possession of its key and not trust in the
author; trust is a separate verdict of the store.
-/

namespace OpenCrate.Format

open Crypto
open Except (refuseIf okOr)

/-! ### The prologue -/

/-- The first eight bytes of a container. -/
def magic : List UInt8 := utf8 "CLOSECR1"

/-- Upper bound on header size. -/
def maxHeaderLen : UInt32 := (1 : UInt32) <<< 20

/-- Offset of the header length field. -/
def headerLenOffset : ℕ := 8

/-- Offset of the header itself. -/
def headerOffset : ℕ := headerLenOffset + 4

/-- A split container prologue: exactly the signed bytes. -/
structure Prologue where
  /-- Header bytes, exactly as many as declared. -/
  header : List UInt8
  /-- Author signature. -/
  signature : Signature
  /-- Offset of the first byte after the signature. -/
  afterSignature : ℕ
  declaredLen : UInt32
  deriving DecidableEq

/-- Structural splitting: magic, boundaries, length limit. -/
def Prologue.split (buf : List UInt8) : Except FormatError Prologue := do
  let found ← okOr (slice? buf 0 headerLenOffset) (.truncated headerOffset buf.length)
  refuseIf (found ≠ magic) .badMagic
  let declaredLen : UInt32 ← okOr ((slice? buf headerLenOffset headerOffset).bind ofLeBytes?)
    (.truncated headerOffset buf.length)
  refuseIf (maxHeaderLen < declaredLen) (.headerTooLarge declaredLen)
  let headerEnd := headerOffset + declaredLen.toNat
  let sigEnd := headerEnd + signatureLen
  let header ← okOr (slice? buf headerOffset headerEnd) (.truncated sigEnd buf.length)
  let signature ← okOr ((slice? buf headerEnd sigEnd).bind (toVector? signatureLen))
    (.truncated sigEnd buf.length)
  .ok ⟨header, signature, sigEnd, declaredLen⟩

/-! ### The transcript -/

/-- Signature-suite identifier included in the header transcript. -/
def suiteId (suite : Suite) : UInt8 := suite.sig.toU8

/-- Author-signature transcript, shared by packers and verifiers. -/
def headerSigningTranscript (headerBytes : List UInt8) (suite : Suite) :
    Except FormatError Transcript := do
  refuseIf (2 ^ 32 ≤ headerBytes.length) .offsetOverflow
  let declared := UInt32.ofNat headerBytes.length
  -- the writer must not produce a header that the reader refuses for its length
  refuseIf (maxHeaderLen < declared) (.headerTooLarge declared)
  .ok ((((Transcript.new .headerSig).u8 (suiteId suite)).fixed magic).u32le
    declared |>.tailAfterDeclaredLength headerBytes)

/-! ### Verification -/

/-- What is known about the signer. -/
inductive SignerTrust where
  /-- The author key is pinned for this organization and matches. -/
  | pinned
  /-- The pair of organization and key is new. -/
  | unknown
  /-- Known organization, different key. -/
  | conflict
  deriving DecidableEq, Repr

/-- Verified header together with the bytes from which it was parsed. -/
structure VerifiedHeader where
  parsed : ParsedHeader
  /-- Original header bytes: all hashes are computed over these. -/
  headerBytes : List UInt8
  /-- Offset of the mutable region's first byte. -/
  contentDescOffset : ℕ
  trust : SignerTrust
  deriving DecidableEq

/-- Format version produced by this code. -/
def containerVersion : UInt16 := 5

/-- The version a reader must have is at most this one. -/
def supportedReaderVersion : UInt16 := 5

/-- Lower bound on the readable versions. -/
def minReadableContainerVersion : UInt16 := 5

/-- Upper bound on the readable versions. -/
def maxReadableContainerVersion : UInt16 := 5

section Verify

variable (ed : Ed25519) (lookup : List UInt8 → Digest → SignerTrust)

/-- Parse and verify the container prologue. The store of trust is asked last, for the very key that
has verified the signature. -/
def verifyAndParse (buf : List UInt8) : Except FormatError VerifiedHeader := do
  let prologue ← Prologue.split buf
  -- the key and the suite lie inside the header, so it is read before it is authenticated
  let parsed ← Header.decode prologue.header
  let transcript ← headerSigningTranscript prologue.header parsed.header.suite
  (verify ed parsed.header.authorKey transcript prologue.signature).mapError fun _ ↦
    .badHeaderSignature
  refuseIf (supportedReaderVersion < parsed.header.minReaderVersion)
    (.readerTooOld parsed.header.minReaderVersion supportedReaderVersion)
  -- the version itself is checked, too: the other one is only the author's statement
  refuseIf (¬(minReadableContainerVersion ≤ parsed.header.containerVersion ∧
      parsed.header.containerVersion ≤ maxReadableContainerVersion))
    (.unsupportedContainerVersion parsed.header.containerVersion minReadableContainerVersion
      maxReadableContainerVersion)
  let trust := lookup parsed.header.orgId parsed.header.authorKey
  .ok ⟨parsed, prologue.header, prologue.afterSignature, trust⟩

end Verify

/-! ### What is split -/

/-- The prologue of a header and a signature. -/
def assemble (headerBytes : List UInt8) (signature : Signature) : List UInt8 :=
  magic ++ toLeBytes (UInt32.ofNat headerBytes.length) ++ headerBytes ++ signature.toList

/-- The length of an assembled prelude. -/
theorem length_assemble (headerBytes : List UInt8) (signature : Signature) :
    (assemble headerBytes signature).length = headerOffset + headerBytes.length + signatureLen := by
  simp only [assemble, List.length_append, length_toLeBytes, signature.toList_length]
  rfl

theorem length_magic : magic.length = headerLenOffset := by decide

/-- A prologue is split into what it was assembled from. What follows is not looked at. -/
theorem split_assemble {headerBytes : List UInt8} (signature : Signature) (rest : List UInt8)
    (h : headerBytes.length ≤ maxHeaderLen.toNat) :
    Prologue.split (assemble headerBytes signature ++ rest) = .ok ⟨headerBytes, signature,
      (assemble headerBytes signature).length, UInt32.ofNat headerBytes.length⟩ := by
  have hlen : (UInt32.ofNat headerBytes.length).toNat = headerBytes.length :=
    UInt32.toNat_ofNat_of_lt' (h.trans_lt (by decide))
  have hmax : maxHeaderLen ≥ UInt32.ofNat headerBytes.length := by
    rwa [ge_iff_le, UInt32.le_iff_toNat_le, hlen]
  rw [length_assemble, assemble]
  generalize UInt32.ofNat headerBytes.length = declared at hlen hmax ⊢
  -- the four parts, each between what comes before and what comes after it
  have hmagic := slice?_append [] magic
    (toLeBytes declared ++ (headerBytes ++ (signature.toList ++ rest)))
  have hdeclared := slice?_append magic (toLeBytes declared)
    (headerBytes ++ (signature.toList ++ rest))
  have hheader := slice?_append (magic ++ toLeBytes declared) headerBytes (signature.toList ++ rest)
  have hsig := slice?_append (magic ++ toLeBytes declared ++ headerBytes) signature.toList rest
  simp only [List.append_assoc, List.nil_append, List.length_nil, List.length_append, length_magic,
    length_toLeBytes, signature.toList_length, Nat.zero_add, ← Nat.add_assoc, ← hlen]
    at hmagic hdeclared hheader hsig
  simp only [Prologue.split, List.append_assoc, Except.bind_eq_ok_iff, Except.okOr_eq_ok_iff,
    Except.refuseIf_eq_ok_iff, Option.bind_eq_some_iff, ofLeBytes?_eq_some_iff,
    toVector?_eq_some_iff, not_not, not_lt]
  exact ⟨magic, hmagic, (), rfl, declared, ⟨_, hdeclared, rfl⟩, (), hmax, headerBytes, hheader,
    signature, ⟨_, hsig, rfl⟩, by rw [hlen]⟩

/-- **What is split.** A header of admissible length behind the magic and its length, and a signature
behind the header. -/
theorem split_eq_ok_iff {buf : List UInt8} {p : Prologue} :
    Prologue.split buf = .ok p ↔ ∃ headerBytes signature rest,
      headerBytes.length ≤ maxHeaderLen.toNat ∧ buf = assemble headerBytes signature ++ rest ∧
        p = ⟨headerBytes, signature, (assemble headerBytes signature).length,
          UInt32.ofNat headerBytes.length⟩ := by
  constructor
  · intro h
    simp only [Prologue.split, Except.bind_eq_ok_iff, Except.okOr_eq_ok_iff,
      Except.refuseIf_eq_ok_iff, Option.bind_eq_some_iff, ofLeBytes?_eq_some_iff,
      toVector?_eq_some_iff, not_not, not_lt] at h
    obtain ⟨_, hmagic, _, rfl, declared, ⟨_, hlen, rfl⟩, _, hmax, header, hheader, signature,
      ⟨_, hsig, rfl⟩, h⟩ := h
    obtain ⟨hmagic, -⟩ := drop_eq_append_of_slice? hmagic
    obtain ⟨hlen, -⟩ := drop_eq_append_of_slice? hlen
    obtain ⟨hheader, hlength⟩ := drop_eq_append_of_slice? hheader
    obtain ⟨hsig, -⟩ := drop_eq_append_of_slice? hsig
    rw [Nat.add_sub_cancel_left] at hlength
    have hdeclared : UInt32.ofNat header.length = declared := by
      rw [hlength, UInt32.ofNat_toNat]
    rw [UInt32.le_iff_toNat_le, ← hlength] at hmax
    refine ⟨header, signature, buf.drop (headerOffset + declared.toNat + signatureLen), hmax, ?_, ?_⟩
    · calc buf = magic ++ (toLeBytes declared ++ (header ++ (signature.toList ++
            buf.drop (headerOffset + declared.toNat + signatureLen)))) := by
            rw [← hsig, ← hheader, ← hlen, ← hmagic, List.drop_zero]
        _ = _ := by simp only [assemble, hdeclared, List.append_assoc]
    · rw [length_assemble, hdeclared, hlength]
      exact (Except.ok.inj h).symm
  · rintro ⟨headerBytes, signature, rest, hmax, rfl, rfl⟩
    exact split_assemble signature rest hmax

/-! ### What is signed -/

/-- The transcript of a header of admissible length. -/
theorem headerSigningTranscript_eq_ok_iff {headerBytes : List UInt8} {suite : Suite}
    {transcript : Transcript} :
    headerSigningTranscript headerBytes suite = .ok transcript ↔
      headerBytes.length ≤ maxHeaderLen.toNat ∧
        transcript = ⟨Label.headerSig.asBytes ++ [0x00] ++ [suiteId suite] ++ magic ++
          toLeBytes (UInt32.ofNat headerBytes.length) ++ headerBytes⟩ := by
  have hmax : maxHeaderLen.toNat < 2 ^ 32 := by decide
  rw [headerSigningTranscript, Except.check_bind_eq_ok_iff, Except.refuseIf_eq_ok_iff, not_le]
  rw [Except.check_bind_eq_ok_iff, Except.refuseIf_eq_ok_iff, not_lt, UInt32.le_iff_toNat_le]
  constructor
  · rintro ⟨hlt, hle, h⟩
    rw [UInt32.toNat_ofNat_of_lt' hlt] at hle
    exact ⟨hle, (Except.ok.inj h).symm⟩
  · rintro ⟨hle, rfl⟩
    have hlt := hle.trans_lt hmax
    rw [UInt32.toNat_ofNat_of_lt' hlt]
    exact ⟨hlt, hle, rfl⟩

/-- A transcript determines what was signed: the parts before the header have fixed lengths. -/
theorem headerSigningTranscript_inj {headerBytes headerBytes' : List UInt8} {suite suite' : Suite}
    {transcript : Transcript} (h : headerSigningTranscript headerBytes suite = .ok transcript)
    (h' : headerSigningTranscript headerBytes' suite' = .ok transcript) :
    suiteId suite = suiteId suite' ∧ headerBytes = headerBytes' := by
  obtain ⟨-, rfl⟩ := headerSigningTranscript_eq_ok_iff.mp h
  obtain ⟨-, heq⟩ := headerSigningTranscript_eq_ok_iff.mp h'
  have hbuf := congrArg Transcript.buf heq
  simp only [List.append_assoc, List.append_cancel_left_eq, List.cons_append, List.nil_append,
    List.cons.injEq, true_and] at hbuf
  obtain ⟨hid, hbuf⟩ := hbuf
  exact ⟨hid, (List.append_inj hbuf (by rw [length_toLeBytes, length_toLeBytes])).2⟩

/-! ### What is accepted -/

section Accepted

variable (ed : Ed25519) (lookup : List UInt8 → Digest → SignerTrust)

/-- A signature of the header bytes under a key. -/
def SignedBy (key : Digest) (suite : Suite) (headerBytes : List UInt8) (signature : Signature) :
    Prop :=
  ∃ transcript, headerSigningTranscript headerBytes suite = .ok transcript ∧
    verify ed key transcript signature = .ok ()

/-- A signature is verified by running the code. -/
theorem signedBy_iff {ed : Ed25519} {key : Digest} {suite : Suite} {headerBytes : List UInt8}
    {signature : Signature} :
    SignedBy ed key suite headerBytes signature ↔
      (headerSigningTranscript headerBytes suite >>= fun transcript ↦
        (verify ed key transcript signature).mapError fun _ ↦ .badHeaderSignature) = .ok () := by
  simp only [SignedBy, Except.bind_eq_ok_iff, Except.mapError_eq_ok_iff]

/-- Header bytes that are read as a header, are signed by its author, and ask for nothing newer. -/
structure Accepted (headerBytes : List UInt8) (signature : Signature) (parsed : ParsedHeader) :
    Prop where
  short : headerBytes.length ≤ maxHeaderLen.toNat
  decoded : Header.decode headerBytes = .ok parsed
  signed : SignedBy ed parsed.header.authorKey parsed.header.suite headerBytes signature
  reader : parsed.header.minReaderVersion ≤ supportedReaderVersion
  version : minReadableContainerVersion ≤ parsed.header.containerVersion ∧
    parsed.header.containerVersion ≤ maxReadableContainerVersion

variable {ed lookup}

/-- The reader accepts what starts with an accepted header, whatever comes behind it. -/
theorem verifyAndParse_eq_ok_iff {buf : List UInt8} {v : VerifiedHeader} :
    verifyAndParse ed lookup buf = .ok v ↔ ∃ headerBytes signature rest parsed,
      buf = assemble headerBytes signature ++ rest ∧ Accepted ed headerBytes signature parsed ∧
        v = ⟨parsed, headerBytes, (assemble headerBytes signature).length,
          lookup parsed.header.orgId parsed.header.authorKey⟩ := by
  simp only [verifyAndParse, Except.bind_eq_ok_iff, split_eq_ok_iff, Except.refuseIf_eq_ok_iff,
    Except.mapError_eq_ok_iff, not_lt, not_not]
  constructor
  · rintro ⟨_, ⟨headerBytes, signature, rest, hshort, rfl, rfl⟩, parsed, hparsed, transcript,
      htranscript, _, hverify, _, hreader, _, hversion, h⟩
    exact ⟨headerBytes, signature, rest, parsed, rfl,
      ⟨hshort, hparsed, ⟨transcript, htranscript, hverify⟩, hreader, hversion⟩,
      (Except.ok.inj h).symm⟩
  · rintro ⟨headerBytes, signature, rest, parsed, rfl, h, rfl⟩
    obtain ⟨transcript, htranscript, hverify⟩ := h.signed
    exact ⟨_, ⟨headerBytes, signature, rest, h.short, rfl, rfl⟩, parsed, h.decoded, transcript,
      htranscript, (), hverify, (), h.reader, (), h.version, rfl⟩

/-- What follows the prologue does not matter. -/
theorem verifyAndParse_assemble {headerBytes : List UInt8} {signature : Signature}
    {rest : List UInt8} {v : VerifiedHeader} (h : headerBytes.length ≤ maxHeaderLen.toNat) :
    verifyAndParse ed lookup (assemble headerBytes signature ++ rest) = .ok v ↔
      ∃ parsed, Accepted ed headerBytes signature parsed ∧
        v = ⟨parsed, headerBytes, (assemble headerBytes signature).length,
          lookup parsed.header.orgId parsed.header.authorKey⟩ := by
  rw [verifyAndParse_eq_ok_iff]
  constructor
  · rintro ⟨headerBytes', signature', rest', parsed, hbuf, hacc, rfl⟩
    have hsplit := split_assemble signature rest h
    rw [hbuf, split_assemble signature' rest' hacc.short, Except.ok.injEq, Prologue.mk.injEq]
      at hsplit
    obtain ⟨rfl, rfl, -⟩ := hsplit
    exact ⟨parsed, hacc, rfl⟩
  · rintro ⟨parsed, hacc, rfl⟩
    exact ⟨headerBytes, signature, rest, parsed, rfl, hacc, rfl⟩

/-- A current header that was written and signed is accepted if the reader supports it. -/
theorem Header.Current.accepted {header : Header} {headerBytes : List UInt8} {signature : Signature}
    (hc : header.Current) (hreader : header.minReaderVersion ≤ supportedReaderVersion)
    (hencode : header.encode = .ok headerBytes) (hshort : headerBytes.length ≤ maxHeaderLen.toNat)
    (hsigned : SignedBy ed header.authorKey header.suite headerBytes signature)
    (hsig : header.suite.sig = .ed25519) (haead : header.suite.aead = .xChaCha20Poly1305)
    (hclass : header.class_ = 0) :
    ∃ parsed, Accepted ed headerBytes signature parsed ∧ parsed.header = header := by
  obtain ⟨parsed, hparsed, rfl⟩ :=
    Header.decode_encode (hc.readable hencode hsig haead hclass) hencode
  have hversion : minReadableContainerVersion ≤ parsed.header.containerVersion ∧
      parsed.header.containerVersion ≤ maxReadableContainerVersion := by
    rw [hc.version]
    decide
  exact ⟨parsed, ⟨hshort, hparsed, hsigned, hreader, hversion⟩, rfl⟩

variable (ed lookup)

/-- **Acceptance.** A container is accepted exactly if it starts with a header that is signed by its
author and asks for nothing newer, and the result does not depend on what follows. A transcript
determines the suite identifier and the header bytes. Of the current headers that were written and
signed, those with the supported suite and the local class are accepted, as themselves. -/
theorem verifyAndParse_accepts :
    (∀ buf v, verifyAndParse ed lookup buf = .ok v ↔ ∃ headerBytes signature rest parsed,
      buf = assemble headerBytes signature ++ rest ∧ Accepted ed headerBytes signature parsed ∧
        v = ⟨parsed, headerBytes, (assemble headerBytes signature).length,
          lookup parsed.header.orgId parsed.header.authorKey⟩) ∧
      (∀ headerBytes headerBytes' suite suite' transcript,
        headerSigningTranscript headerBytes suite = .ok transcript →
        headerSigningTranscript headerBytes' suite' = .ok transcript →
        suiteId suite = suiteId suite' ∧ headerBytes = headerBytes') ∧
      ∀ header : Header, ∀ headerBytes signature, header.Current →
        header.minReaderVersion ≤ supportedReaderVersion → header.encode = .ok headerBytes →
        headerBytes.length ≤ maxHeaderLen.toNat →
        SignedBy ed header.authorKey header.suite headerBytes signature → ∀ rest,
          ((∃ v, verifyAndParse ed lookup (assemble headerBytes signature ++ rest) = .ok v) ↔
            header.suite.sig = .ed25519 ∧ header.suite.aead = .xChaCha20Poly1305 ∧
              header.class_ = 0) ∧
          ∀ v, verifyAndParse ed lookup (assemble headerBytes signature ++ rest) = .ok v →
            v.parsed.header = header := by
  refine ⟨fun buf v ↦ verifyAndParse_eq_ok_iff, fun _ _ _ _ _ h h' ↦
    headerSigningTranscript_inj h h', ?_⟩
  intro header headerBytes signature hc hreader hencode hshort hsigned rest
  -- an accepted header was read, so the reader supports it
  have hsupported : ∀ {v}, verifyAndParse ed lookup (assemble headerBytes signature ++ rest) = .ok v →
      header.suite.sig = .ed25519 ∧ header.suite.aead = .xChaCha20Poly1305 ∧ header.class_ = 0 := by
    intro v hv
    obtain ⟨parsed, hacc, -⟩ := (verifyAndParse_assemble hshort).mp hv
    obtain ⟨hsuite, hclass⟩ := Header.supported_of_decode hencode hacc.decoded
    rw [hsuite]
    exact ⟨rfl, rfl, hclass⟩
  refine ⟨⟨fun ⟨v, hv⟩ ↦ hsupported hv, ?_⟩, fun v hv ↦ ?_⟩
  · rintro ⟨hsig, haead, hclass⟩
    obtain ⟨parsed, hacc, -⟩ := hc.accepted hreader hencode hshort hsigned hsig haead hclass
    exact ⟨_, (verifyAndParse_assemble hshort).mpr ⟨parsed, hacc, rfl⟩⟩
  · obtain ⟨hsig, haead, hclass⟩ := hsupported hv
    obtain ⟨parsed, hacc, heq⟩ := hc.accepted hreader hencode hshort hsigned hsig haead hclass
    obtain ⟨parsed', hacc', rfl⟩ := (verifyAndParse_assemble hshort).mp hv
    obtain rfl := Except.ok.inj (hacc.decoded.symm.trans hacc'.decoded)
    exact heq

end Accepted

/-- The signature of the sample header by its author. -/
def sampleSignature : Signature :=
  ⟨[0x22, 0xc8, 0x0b, 0xf0, 0xb7, 0x90, 0xd1, 0x62, 0xe6, 0xde, 0x1b, 0xbc, 0xa2, 0x79, 0x95, 0x8f,
    0x0f, 0x8c, 0x54, 0x4e, 0x9a, 0x51, 0x39, 0x6e, 0x03, 0x7e, 0x7a, 0x39, 0x57, 0xa1, 0x6b, 0x20,
    0xde, 0xe3, 0xe5, 0x7a, 0x62, 0x27, 0x77, 0x1f, 0x68, 0x2a, 0xaa, 0x9a, 0xb7, 0xb2, 0xa5, 0x46,
    0xc0, 0xc5, 0x15, 0x5a, 0x48, 0x48, 0x52, 0x14, 0xe6, 0x30, 0xdc, 0xfd, 0x10, 0xf6, 0x9e, 0x0c],
    rfl⟩

/-- The signature of the header of class one by the same author. -/
def classOneSignature : Signature :=
  ⟨[0x8f, 0x84, 0x50, 0x62, 0x78, 0x1c, 0xe9, 0x98, 0xa2, 0xe1, 0x44, 0x14, 0x18, 0x32, 0x6b, 0x05,
    0x85, 0xd1, 0x49, 0x9e, 0x03, 0x22, 0x27, 0x6a, 0x92, 0x45, 0xe6, 0xff, 0x8e, 0x1b, 0x33, 0x33,
    0x4a, 0x73, 0xbb, 0xae, 0xc4, 0xd7, 0xa9, 0x71, 0x39, 0x0e, 0x5b, 0x87, 0x64, 0x47, 0x44, 0xa8,
    0x65, 0xc2, 0x9f, 0x5a, 0xcc, 0xa9, 0x4a, 0x13, 0x8d, 0x9a, 0xb3, 0x52, 0x0e, 0xad, 0xc1, 0x01],
    rfl⟩

/-- Ed25519 as far as the author's two signatures go. -/
def sampleEd25519 : Ed25519 where
  VerifyingKey := Digest
  fromBytes := some
  verifyStrict key message signature := decide (key = sampleAuthorKey ∧
    ((headerSigningTranscript sampleHeader.bytes sampleHeader.suite).map Transcript.asBytes =
        .ok message ∧ signature = sampleSignature ∨
      (headerSigningTranscript classOneHeader.bytes classOneHeader.suite).map Transcript.asBytes =
        .ok message ∧ signature = classOneSignature))

theorem signedBy_sample : SignedBy sampleEd25519 sampleHeader.authorKey sampleHeader.suite
    sampleHeader.bytes sampleSignature :=
  signedBy_iff.mpr (by decide +kernel)

/-- The law at a header that is accepted, with one more byte behind it. -/
theorem verifyAndParse_accepts_sampleHeader :
    ∃ v, verifyAndParse sampleEd25519 (fun _ _ ↦ .unknown)
        (assemble sampleHeader.bytes sampleSignature ++ [0x00]) = .ok v ∧
      v.parsed.header = sampleHeader ∧ v.contentDescOffset = 906 := by
  obtain ⟨-, -, hcurrent⟩ := verifyAndParse_accepts sampleEd25519 fun _ _ ↦ .unknown
  obtain ⟨haccepted, hheader⟩ := hcurrent sampleHeader sampleHeader.bytes sampleSignature
    current_sampleHeader (by decide) (by decide +kernel) (by decide +kernel) signedBy_sample [0x00]
  obtain ⟨v, hv⟩ := haccepted.mpr ⟨rfl, rfl, rfl⟩
  have hoffset : (verifyAndParse sampleEd25519 (fun _ _ ↦ .unknown)
      (assemble sampleHeader.bytes sampleSignature ++ [0x00])).map (·.contentDescOffset) =
      .ok 906 := by decide +kernel
  rw [hv, Except.ok_map, Except.ok.injEq] at hoffset
  exact ⟨v, hv, hheader v hv, hoffset⟩

/-- The author has signed a header that was written, and the container is refused. -/
theorem class_one_signed_not_accepted :
    classOneHeader.Current ∧ classOneHeader.minReaderVersion ≤ supportedReaderVersion ∧
      classOneHeader.encode = .ok classOneHeader.bytes ∧
      classOneHeader.bytes.length ≤ maxHeaderLen.toNat ∧
      SignedBy sampleEd25519 classOneHeader.authorKey classOneHeader.suite classOneHeader.bytes
        classOneSignature ∧
      verifyAndParse sampleEd25519 (fun _ _ ↦ .unknown)
        (assemble classOneHeader.bytes classOneSignature) = .error (.unsupportedClass 1) :=
  ⟨{ current_sampleHeader with }, by decide, by decide +kernel, by decide +kernel,
    signedBy_iff.mpr (by decide +kernel), by decide +kernel⟩

end OpenCrate.Format
